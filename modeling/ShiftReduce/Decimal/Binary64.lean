/-!
# Binary64 — doubles as signs and magnitudes

A finite double is a sign and a magnitude: a whole number of units of `2 ^ -1074`, written as a
significand times a power of two.  In this form the bit pattern of a magnitude is simply
`exponent * 2 ^ 52 + significand`, across the border between subnormal and normal numbers.

* `Magnitude.toBits_ofBits`: taking a bit pattern apart loses nothing.
* `Binary64.ofFloat`, `Binary64.toFloat`: between doubles and their parts.
-/

-- Powers of natural numbers are core's, whatever other instance is in reach.
attribute [instance (2000), default_instance (20000)] instPowNat

namespace ShiftReduce

/-- The magnitude `significand * 2 ^ exponent * 2 ^ -1074`. -/
structure Magnitude where
  significand : Nat
  exponent : Nat
  deriving DecidableEq, Repr

namespace Magnitude

/-- The magnitude with a given bit pattern: below `2 ^ 52` the pattern is the significand, from
there on a leading bit is implied. -/
def ofBits (b : Nat) : Magnitude :=
  if b < 2 ^ 52 then ⟨b, 0⟩ else ⟨b % 2 ^ 52 + 2 ^ 52, b / 2 ^ 52 - 1⟩

def toBits (m : Magnitude) : Nat :=
  m.exponent * 2 ^ 52 + m.significand

theorem toBits_ofBits (b : Nat) : (ofBits b).toBits = b := by
  unfold ofBits toBits
  split <;> dsimp only <;> omega

def isAtLeast (m : Magnitude) (n : Nat) : Bool :=
  n * 2 ^ 1074 ≤ m.significand * 2 ^ m.exponent

end Magnitude

/-- A double by its parts.  All doubles that are not numbers are one value. -/
inductive Binary64
  | nan
  | infinite (negative : Bool)
  | finite (negative : Bool) (magnitude : Magnitude)
  deriving DecidableEq, Repr

namespace Binary64

/-- The bit pattern of positive infinity; finite magnitudes lie below it. -/
def infinityBits : Nat :=
  2047 * 2 ^ 52

def nanBits : Nat :=
  infinityBits + 2 ^ 51

def signBits (negative : Bool) : Nat :=
  if negative then 2 ^ 63 else 0

/-- The double with the bit pattern `b` of a magnitude, infinity if the pattern is too large. -/
def ofMagnitudeBits (negative : Bool) (b : Nat) : Binary64 :=
  if b < infinityBits then .finite negative (.ofBits b) else .infinite negative

def ofFloat (x : Float) : Binary64 :=
  let bits := x.toBits.toNat
  let negative : Bool := 2 ^ 63 ≤ bits
  let b := bits % 2 ^ 63
  if infinityBits < b then .nan else ofMagnitudeBits negative b

def toFloat : Binary64 → Float
  | .nan => .ofBits (.ofNat nanBits)
  | .infinite negative => .ofBits (.ofNat (signBits negative + infinityBits))
  | .finite negative m => .ofBits (.ofNat (signBits negative + m.toBits))

end Binary64

end ShiftReduce
