import ShiftReduce.Decimal.Binary64

/-!
# Rounding — from decimals to the nearest double

A decimal is a whole number times a power of ten.  It is rounded to the nearest magnitude, a half
going to the even significand, in exact whole-number arithmetic.

* `roundDiv`: division to the nearest whole number, a half going to the even one.
* `nearestBits`: the magnitude nearest to a fraction.
* `Decimal.roundBits`: the magnitude nearest to a decimal, however large its exponent.
-/

namespace ShiftReduce

/-- The whole number nearest to `a / b`; of two equally near ones the even one. -/
def roundDiv (a b : Nat) : Nat :=
  let q := a / b
  let r := a % b
  if 2 * r < b then q else if b < 2 * r then q + 1 else q + q % 2

/-- The bit pattern of the magnitude nearest to `a / b`.  The exponent is the least one whose
significands reach that far; a significand that rounds up to `2 ^ 53` carries into it.  What is too
large is infinity. -/
def nearestBits (a b : Nat) : Nat :=
  let units := a * 2 ^ 1074
  let exponent := (units / b).log2 - 52
  -- The exponent is 0 for every fraction below `2 ^ 53` units, subnormal or not.
  let m : Magnitude := ⟨roundDiv units (b * 2 ^ exponent), exponent⟩
  min m.toBits Binary64.infinityBits

/-- The number `digits * 10 ^ exponent`. -/
structure Decimal where
  digits : Nat
  exponent : Int
  deriving DecidableEq, Repr

namespace Decimal

/-- The number is `numerator / denominator`. -/
def numerator (d : Decimal) : Nat :=
  d.digits * 10 ^ d.exponent.toNat

def denominator (d : Decimal) : Nat :=
  10 ^ (-d.exponent).toNat

/-- The bit pattern of the magnitude nearest to a decimal.  An exponent above 400 is certain to give
infinity and one far enough below -400 to give zero, so no power of ten gets out of hand. -/
def roundBits (d : Decimal) : Nat :=
  if d.digits = 0 ∨ d.exponent < -(400 + d.digits.log2 : Int) then
    0
  else if 400 < d.exponent then
    Binary64.infinityBits
  else
    nearestBits d.numerator d.denominator

end Decimal

end ShiftReduce
