/-! Finite binary floating-point numbers of 64 bits, as exact pairs of a mantissa and an exponent,
with the three operations that reading a decimal needs: rounding a ratio, multiplying and dividing.
Every operation is exact arithmetic followed by one rounding to nearest, ties to even. -/

namespace Mediation

namespace Decimal

/-- The number `mantissa * 2 ^ exponent`, negated if `negative`. A number comes out of rounding with
either a full mantissa of 53 bits or the least exponent. -/
structure Binary64 where
  negative : Bool
  mantissa : Nat
  exponent : Int
  deriving DecidableEq, Repr

namespace Binary64

def minExponent : Int := -1074

def maxExponent : Int := 971

/-- The whole number nearest to `num / den`; of two equally near ones the even one. -/
def roundQuotient (num den : Nat) : Nat :=
  let quotient := num / den
  let twice := 2 * (num % den)
  if den < twice ∨ (twice = den ∧ quotient % 2 = 1) then quotient + 1 else quotient

/-- Rounds the ratio `num / den`; nothing if it is too great. The exponent is the one that leaves 53
bits before the point, unless that would be less than the least exponent. -/
def ofRatio? (num den : Nat) : Option Binary64 :=
  if num = 0 then some ⟨false, 0, minExponent⟩
  else
    let guess : Int := (Nat.log2 num : Int) - Nat.log2 den - 52
    let scaled (e : Int) : Nat × Nat := (num * Nat.pow 2 (-e).toNat, den * Nat.pow 2 e.toNat)
    let low := (scaled guess).1 / (scaled guess).2 < Nat.pow 2 52
    let exponent := max (if low then guess - 1 else guess) minExponent
    let mantissa := roundQuotient (scaled exponent).1 (scaled exponent).2
    let (mantissa, exponent) :=
      if mantissa = Nat.pow 2 53 then (Nat.pow 2 52, exponent + 1) else (mantissa, exponent)
    if maxExponent < exponent then none else some ⟨false, mantissa, exponent⟩

def mul? (a b : Binary64) : Option Binary64 :=
  let exponent := a.exponent + b.exponent
  ofRatio? (a.mantissa * b.mantissa * Nat.pow 2 exponent.toNat) (Nat.pow 2 (-exponent).toNat)

/-- Rounds the quotient of the absolute values; the divisor is not zero. -/
def div? (a b : Binary64) : Option Binary64 :=
  let exponent := a.exponent - b.exponent
  ofRatio? (a.mantissa * Nat.pow 2 exponent.toNat) (b.mantissa * Nat.pow 2 (-exponent).toNat)

/-- The number nearest to a power of ten. -/
def tenPower? (n : Nat) : Option Binary64 := ofRatio? (Nat.pow 10 n) 1

/-- The greatest power of ten that is a finite number. -/
def maxTenPower : Nat := 308

/-- Divides by powers of ten until the exponent is reached; a quotient that has become zero stays
so. Each step divides by one power of ten, and each step rounds. -/
def shrink (x : Binary64) (n : Nat) : Option Binary64 :=
  if maxTenPower < n then
    if x.mantissa = 0 then some x
    else
      (tenPower? maxTenPower).bind fun power =>
        (x.div? power).bind fun x => x.shrink (n - maxTenPower)
  else (tenPower? n).bind x.div?
termination_by n
decreasing_by
  simp only [maxTenPower] at *
  omega

/-- The number that a decimal `digits * 10 ^ exponent` reads as: the digits are rounded first and
then multiplied with or divided by a power of ten. Nothing if the result is too great. -/
def ofDecimal? (negative : Bool) (digits : Nat) (exponent : Int) : Option Binary64 :=
  let magnitude? :=
    (ofRatio? digits 1).bind fun x =>
      if exponent < 0 then x.shrink exponent.natAbs
      else if exponent ≤ maxTenPower then (tenPower? exponent.toNat).bind x.mul?
      else if x.mantissa = 0 then some x
      else none
  magnitude?.map fun x => { x with negative }

end Binary64

end Decimal

end Mediation
