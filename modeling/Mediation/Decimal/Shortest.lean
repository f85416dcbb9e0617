import Mediation.Decimal.Binary64

/-! The shortest decimal text of a binary floating-point number: the fewest digits that read back as
the number, and among those the nearest to it. -/

namespace Mediation

namespace Decimal

/-- The number `digits * 10 ^ exponent`. -/
structure Scaled where
  digits : Nat
  exponent : Int
  deriving DecidableEq, Repr

/-- Compares `a * 10 ^ i` with `n * 2 ^ j` exactly. -/
def compareScaled (a : Nat) (i : Int) (n : Nat) (j : Int) : Ordering :=
  compare (a * Nat.pow 10 i.toNat * Nat.pow 2 (-j).toNat)
    (n * Nat.pow 2 j.toNat * Nat.pow 10 (-i).toNat)

namespace Binary64

/-- The decimal lies among the reals that round to the number: between the halves of the gaps to its
neighbours, ends included if the mantissa is even. The gap below a power of two is half the gap
above it. -/
def readsBack (x : Binary64) (d : Scaled) : Bool :=
  let narrow := x.mantissa = Nat.pow 2 52 ∧ minExponent < x.exponent
  let low := if narrow then 4 * x.mantissa - 1 else 4 * x.mantissa - 2
  let high := 4 * x.mantissa + 2
  let closed := x.mantissa % 2 = 0
  let toLow := compareScaled d.digits d.exponent low (x.exponent - 2)
  let toHigh := compareScaled d.digits d.exponent high (x.exponent - 2)
  (toLow = .gt || (closed && toLow = .eq)) && (toHigh = .lt || (closed && toHigh = .eq))

/-- The whole part of the magnitude divided by `10 ^ exponent`. -/
def floorAt (x : Binary64) (exponent : Int) : Nat :=
  (x.mantissa * Nat.pow 2 x.exponent.toNat * Nat.pow 10 (-exponent).toNat) /
    (Nat.pow 2 (-x.exponent).toNat * Nat.pow 10 exponent.toNat)

/-- The number of digits before the point: the least `k` with the magnitude below `10 ^ k`, found
upwards from an exponent that is too small. -/
def scale (x : Binary64) : Int :=
  let bits : Int := (Nat.log2 x.mantissa : Int) + x.exponent
  let start : Int := bits * 30103 / 100000 - 1
  go start 4
where
  /-- Raises the exponent until the magnitude is below its power of ten. -/
  go (k : Int) : Nat → Int
    | 0 => k
    | tries + 1 => if x.floorAt k = 0 then k else go (k + 1) tries

/-- The neighbour of the number on the grid of multiples of `10 ^ exponent` that reads back, if one
does. Of two the nearer one is taken, and of two equally near ones the even one. -/
def onGrid? (x : Binary64) (exponent : Int) : Option Scaled :=
  let below : Scaled := ⟨x.floorAt exponent, exponent⟩
  let above : Scaled := ⟨below.digits + 1, exponent⟩
  match x.readsBack below, x.readsBack above with
  | true, true =>
      match compareScaled (2 * below.digits + 1) exponent (2 * x.mantissa) x.exponent with
      | .gt => some below
      | .lt => some above
      | .eq => if below.digits % 2 = 0 then some below else some above
  | true, false => some below
  | false, true => some above
  | false, false => none

/-- Moves the zeros at the end of the digits into the exponent. -/
def trimZeros (digits : Nat) (exponent : Int) : Scaled :=
  if digits ≠ 0 ∧ digits % 10 = 0 then trimZeros (digits / 10) (exponent + 1)
  else ⟨digits, exponent⟩
termination_by digits

/-- The magnitude as a decimal, with all its digits. -/
def exact (x : Binary64) : Scaled :=
  if 0 ≤ x.exponent then trimZeros (x.mantissa * Nat.pow 2 x.exponent.toNat) 0
  else trimZeros (x.mantissa * Nat.pow 5 (-x.exponent).toNat) x.exponent

/-- The shortest decimal that reads back as the magnitude, the grids tried from coarse to fine.
Seventeen digits are enough for every number. -/
def shortest (x : Binary64) : Scaled :=
  if x.mantissa = 0 then ⟨0, 0⟩
  else
    let k := x.scale
    match (List.range 17).findSome? fun n => x.onGrid? (k - (n + 1 : Nat)) with
    | some d => trimZeros d.digits d.exponent
    | none => x.exact

/-- The text of a number. Up to sixteen digits before the point, and down to four zeros after it,
the number is written in full and keeps a digit on either side of the point; other numbers have an
exponent, with its sign. -/
def text (x : Binary64) : String :=
  let d := x.shortest
  let digits := (Nat.repr d.digits).toList
  let lead : Int := digits.length + d.exponent - 1
  let sign := if x.negative then "-" else ""
  let body :=
    if d.digits = 0 then "0.0"
    else if -5 ≤ lead ∧ lead ≤ 15 then
      if d.exponent ≥ 0 then
        String.ofList (digits ++ List.replicate d.exponent.toNat '0') ++ ".0"
      else if lead < 0 then
        "0." ++ String.ofList (List.replicate (-lead - 1).toNat '0' ++ digits)
      else
        let whole := (lead + 1).toNat
        String.ofList (digits.take whole) ++ "." ++ String.ofList (digits.drop whole)
    else
      let fraction := digits.drop 1
      let point := if fraction.isEmpty then "" else "."
      String.ofList (digits.take 1) ++ point ++ String.ofList fraction ++ "e" ++
        (if lead < 0 then "-" else "+") ++ Nat.repr lead.natAbs
  sign ++ body

end Binary64

end Decimal

end Mediation
