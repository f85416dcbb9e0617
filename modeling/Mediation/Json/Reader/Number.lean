import Mediation.Json.Reader.Basic

/-! Reading a JSON number. Digits are taken into a whole number of 64 bits for as long as they fit;
the integer digits that no longer fit count into the exponent, the fraction digits that no longer
fit are dropped. -/

namespace Mediation

namespace Json

namespace Reader

/-- Takes digits into a number while it stays within the limit. Also gives the digits left over,
from the first one that does not fit. -/
def absorb (limit : Nat) : Nat → List Nat → Nat × List Nat
  | n, [] => (n, [])
  | n, d :: rest => if 10 * n + d ≤ limit then absorb limit (10 * n + d) rest else (n, d :: rest)

/-- The greatest whole number taken as it is. -/
def maxWhole : Nat := UInt64.size - 1

/-- The least whole number taken as it is, negated. -/
def maxNegative : Nat := UInt64.size / 2

def maxExponent : Nat := UInt32.size / 2 - 1

def digits : Reader (List Nat) := fun s =>
  .done ((s.takeWhile Char.isDigit).map (·.toNat - 48)) (s.dropWhile Char.isDigit)

/-- The digits before the point. A zero stands alone. The cause is that of a text that ends here. -/
def integerDigits (eof : Cause) : Reader (List Nat) := do
  match ← peek? with
  | none => failHere eof
  | some '0' => do
    advance
    match ← digits with
    | [] => pure [0]
    | rest => failBefore (rest.length - 1) .invalidNumber
  | some c => if c.isDigit then digits else failNext .invalidNumber

/-- The digits after the point, if there is a point. -/
def fractionDigits? (eof : Cause) : Reader (Option (List Nat)) := do
  match ← peek? with
  | some '.' => do
    advance
    match ← digits, ← peek? with
    | [], none => failNext eof
    | [], some _ => failNext .invalidNumber
    | digits, _ => pure (some digits)
  | _ => pure none

def exponentSign : Reader Bool := do
  match ← peek? with
  | some '-' => do advance; pure true
  | some '+' => do advance; pure false
  | _ => pure false

/-- The sign and the digits of the exponent, if there is one. -/
def exponentDigits? (eof : Cause) : Reader (Option (Bool × List Nat)) := do
  match ← peek? with
  | some 'e' | some 'E' => do
    advance
    let negative ← exponentSign
    match ← peek? with
    | none => failHere eof
    | some c => if c.isDigit then return some (negative, ← digits) else failNext .invalidNumber
  | _ => pure none

/-- An exponent, or what is known of one that is too long to be looked at. -/
inductive Exponent where
  | is (e : Int)
  | immense
  deriving DecidableEq, Repr

/-- The exponent, if there is one. One that is immense is refused where its first digit too many has
been read, unless it cannot matter since it is negative or scales nothing but zero. -/
def exponent? (significand : Nat) : Reader (Option Exponent) := do
  match ← exponentDigits? .eofValue with
  | none => pure none
  | some (negative, digits) =>
      match absorb maxExponent 0 digits with
      | (e, []) => pure (some (.is (if negative then -(e : Int) else e)))
      | (_, _ :: rest) =>
          if significand ≠ 0 ∧ !negative then failBefore rest.length .numberOutOfRange
          else pure (some .immense)

def number (negative : Bool) : Reader Number := do
  let (significand, beyond) := absorb maxWhole 0 (← integerDigits .eofValue)
  let fraction? ← fractionDigits? .eofValue
  let fraction := fraction?.getD []
  let (significand, dropped) := absorb maxWhole significand fraction
  let shift : Int := (beyond.length : Int) - (fraction.length - dropped.length : Nat)
  let real (shift : Int) : Reader Number :=
    match Decimal.Binary64.ofDecimal? negative significand shift with
    | some x => pure (.real x)
    | none => failHere .numberOutOfRange
  match fraction?, ← exponent? significand with
  | _, some (.is e) => real (shift + e)
  | _, some .immense => pure (.real ⟨negative, 0, Decimal.Binary64.minExponent⟩)
  | some _, none => real shift
  | none, none =>
      if beyond ≠ [] then real shift
      else if !negative then pure (.whole significand)
      else if significand = 0 ∨ maxNegative < significand then real 0
      else pure (.whole (-(significand : Int)))

end Reader

end Json

end Mediation
