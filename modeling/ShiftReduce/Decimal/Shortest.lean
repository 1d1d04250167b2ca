import ShiftReduce.Decimal.Rounding

/-!
# Shortest — the decimal with the fewest digits that still rounds to a magnitude

The reals that round to a magnitude form an interval, whose ends belong to it when the significand
is even.  Decimals with a fixed exponent form a grid.  The coarsest grid with a point in the
interval gives the fewest digits; of two such points the one nearer to the magnitude is taken, and
the larger one if both are equally near.

* `Magnitude.interval`: the interval, over a common denominator.
* `Magnitude.shortest`: the search, which ends at the latest on the grid that the magnitude itself
  lies on.
-/

namespace ShiftReduce

/-- The interval from `low / scale` to `high / scale` around `value / scale`. -/
structure RoundingInterval where
  low : Nat
  value : Nat
  high : Nat
  scale : Nat
  /-- Whether the ends belong to the interval. -/
  closed : Bool
  deriving DecidableEq, Repr

namespace RoundingInterval

def contains (I : RoundingInterval) (d : Decimal) : Bool :=
  let point := d.numerator * I.scale
  let low := I.low * d.denominator
  let high := I.high * d.denominator
  if I.closed then low ≤ point && point ≤ high else low < point && point < high

/-- The largest decimal with the given exponent that is no larger than the value. -/
def below (I : RoundingInterval) (exponent : Int) : Decimal :=
  ⟨I.value * 10 ^ (-exponent).toNat / (I.scale * 10 ^ exponent.toNat), exponent⟩

/-- Whether the value is nearer to `below` than to the next decimal with that exponent. -/
def isNearerBelow (I : RoundingInterval) (exponent : Int) : Bool :=
  let unit := I.scale * 10 ^ exponent.toNat
  2 * (I.value * 10 ^ (-exponent).toNat % unit) < unit

/-- The decimal with the given exponent that lies in the interval nearest to its value. -/
def pick? (I : RoundingInterval) (exponent : Int) : Option Decimal :=
  let lower := I.below exponent
  let upper : Decimal := ⟨lower.digits + 1, exponent⟩
  -- If any point of the grid lies in the interval, so does one of these two.
  match I.contains lower, I.contains upper with
  | true, true => some (if I.isNearerBelow exponent then lower else upper)
  | true, false => some lower
  | false, true => some upper
  | false, false => none

/-- Tries `steps` exponents downward from `exponent` and falls back on the exponent `finest`. -/
def search (I : RoundingInterval) (finest : Int) : Nat → Int → Decimal
  | 0, _ => I.below finest
  | steps + 1, exponent =>
      match I.pick? exponent with
      | some d => d
      | none => search I finest steps (exponent - 1)

end RoundingInterval

namespace Magnitude

/-- The reals that round to a magnitude.  Its neighbours are one unit of the last place away, except
that the one below a power of two is half as far. -/
def interval (m : Magnitude) : RoundingInterval :=
  let s := m.significand
  -- Quarters of a unit of the last place make all three points whole numbers.
  let up := 2 ^ (m.exponent - 1076)
  let low := if s = 2 ^ 52 ∧ 0 < m.exponent then 4 * s - 1 else 4 * s - 2
  ⟨low * up, 4 * s * up, (4 * s + 2) * up, 2 ^ (1076 - m.exponent), s % 2 == 0⟩

/-- The exponent of a grid on which the magnitude lies. -/
def finestExponent (m : Magnitude) : Int :=
  min 0 (m.exponent - 1074)

/-- An exponent of a grid at least as coarse as the leading digit's: the binary logarithm times
`log 2 / log 10`. -/
def leadingExponent (m : Magnitude) : Int :=
  (m.significand.log2 + m.exponent + 1 - 1074 : Int) * 30103 / 100000

/-- The decimal with the fewest digits that rounds to a magnitude other than zero. -/
def shortest (m : Magnitude) : Decimal :=
  let steps := (m.leadingExponent - m.finestExponent).toNat
  m.interval.search m.finestExponent steps m.leadingExponent

end Magnitude

end ShiftReduce
