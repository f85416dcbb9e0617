import Mediation.Toml.Basic
import Mediation.Toml.Reader

/-! Numbers in TOML. The digits of a number are judged first, then the underscores between them;
what is left spells the number. -/

namespace Mediation

namespace Toml

/-- The number `digits * 10 ^ exponent`, rounded once. Zeros in front are no digits of it; what is
far out of range by the place of its first digit is not computed. -/
def Real.ofDecimal (negative : Bool) (digits : List Char) (exponent : Int) : Real :=
  let digits := digits.dropWhile (· = '0')
  let magnitude := digits.length + exponent
  if digits = [] ∨ magnitude < -400 then .finite ⟨negative, 0, Decimal.Binary64.minExponent⟩
  else if 400 < magnitude then .overflowing
  else
    match Decimal.Binary64.ofRatio? (numberOf 10 digits * Nat.pow 10 exponent.toNat)
        (Nat.pow 10 (-exponent).toNat) with
    | some x => .finite { x with negative }
    | none => .overflowing

namespace Number

/-- The offset of the first underscore that does not stand between two digits, given the character
before the ones that are left. -/
def looseUnderscoreAfter? (isDigit : Char → Bool) : Char → Nat → List Char → Option Nat
  | _, _, [] => none
  | previous, offset, c :: rest =>
      if c ≠ '_' then looseUnderscoreAfter? isDigit c (offset + c.utf8Size) rest
      else if isDigit previous && rest.head?.all fun c => c = '_' || isDigit c then
        looseUnderscoreAfter? isDigit c (offset + c.utf8Size) rest
      else some offset

/-- The offset of an underscore that does not stand between two digits: of the first character or
the last one, if that is an underscore, else of the first such underscore between them. -/
def looseUnderscore? (isDigit : Char → Bool) (c : Cursor) : Option Nat :=
  match c.rest with
  | [] => none
  | first :: rest =>
      if first = '_' then some c.offset
      else if rest.getLast? = some '_' then some (c.stop - 1)
      else looseUnderscoreAfter? isDigit first (c.offset + first.utf8Size) rest

/-- The characters without underscores, each of which has to stand between two digits. -/
def withoutUnderscores (isDigit : Char → Bool) (c : Cursor) : Except Fault (List Char) :=
  match looseUnderscore? isDigit c with
  | some offset => .error ⟨.looseUnderscore, some ⟨offset, offset + 1⟩⟩
  | none => .ok (c.rest.filter (· ≠ '_'))

/-- The sign and what is left behind it. -/
def splitSign : List Char → Bool × List Char
  | '-' :: rest => (true, rest)
  | '+' :: rest => (false, rest)
  | rest => (false, rest)

/-- The number that a sign and decimal digits spell. -/
def signed? (chars : List Char) : Option Int :=
  let (negative, digits) := splitSign chars
  if digits.isEmpty ∨ !(digits.all Char.isDigit) then none
  else if negative then some (-(numberOf 10 digits : Int))
  else some (numberOf 10 digits)

/-- A decimal number of several digits does not start with zero. -/
def noLeadingZero (digits : Cursor) : Except Fault Unit :=
  if digits.rest.head? = some '0' then
    .error ⟨.leadingZero, some ⟨digits.offset, digits.offset + 1⟩⟩
  else .ok ()

/-- A decimal number, given all of it and what is behind the sign. The digits of any base may be on
either side of an underscore; if they are not decimal, they spell no number. -/
def whole (all digits : Cursor) : Except Fault Value := do
  noLeadingZero digits
  return .whole (signed? (← withoutUnderscores (Radix.isDigit .hexadecimal) all))

/-- A number in another base, given what is behind the mark of the base. -/
def inRadix (radix : Radix) (digits : Cursor) : Except Fault Value := do
  if digits.rest.head? = some '+' ∨ digits.rest.head? = some '-' then
    throw ⟨.signedDigits, some ⟨digits.offset, digits.offset + 1⟩⟩
  let valid := digits.rest.takeWhile fun c => radix.isDigit c || c = '_'
  if valid.length < digits.rest.length then
    let offset := (digits.drop valid.length).offset
    throw ⟨.radixDigit radix, some ⟨offset, offset⟩⟩
  let chars ← withoutUnderscores (Radix.isDigit .hexadecimal) digits
  return .whole (if chars.isEmpty then none else some (numberOf radix.base chars))

/-- A run of digits and underscores, with one digit at least. -/
def run (part : RealPart) (zeros : Bool) : Reader (List Char) := do
  let start ← Reader.offset
  let chars ← Reader.takeWhile fun c => c.isDigit || c = '_'
  let digits := chars.filter Char.isDigit
  if digits.isEmpty then
    Reader.failAt ⟨start, start⟩ (.realPart part)
  if 1 < digits.length ∧ chars.head? = some '0' ∧ !zeros then
    Reader.failAt ⟨start, start + 1⟩ .leadingZero
  return digits

/-- The exponent of a floating-point number, if there is one. -/
def exponent : Reader Int := do
  let marked ← if ← Reader.accept 'e' then pure true else Reader.accept 'E'
  if marked then
    let negative ← Reader.accept '-'
    unless negative do
      discard (Reader.accept '+')
    let digits ← run .exponent true
    return if negative then -(numberOf 10 digits : Int) else numberOf 10 digits
  else return 0

def unsignedReal (negative : Bool) : Reader Real := do
  let mantissa ← run .mantissa false
  let fraction ← if ← Reader.accept '.' then run .fraction true else pure []
  let exponent ← exponent
  let rest ← get
  unless rest.rest.isEmpty do
    Reader.failAt ⟨rest.offset, rest.stop⟩ .realEnd
  return Real.ofDecimal negative (mantissa ++ fraction) (exponent - fraction.length)

/-- A floating-point number, given all of it and what is behind the sign. -/
def real (all unsigned : Cursor) : Except Fault Value := do
  let x ← (unsignedReal (all.rest.head? = some '-')).run' unsigned
  discard (withoutUnderscores Char.isDigit all)
  return .real x

end Number

end Toml

end Mediation
