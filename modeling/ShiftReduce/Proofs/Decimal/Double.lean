import Mathlib
import ShiftReduce.Decimal.Binary64

/-!
# Doubles — bit patterns are kept

Core's doubles are bit patterns in which all that is not a number is one pattern.  Any other pattern
goes through a double unchanged, so the parts of a double are exactly what it was made of.

* `Binary64.toBits_ofBits`: a pattern that is a number comes back.
* `Binary64.ofFloat_toFloat`, `Binary64.toFloat_ofFloat`: taking a double apart loses nothing.
* `Binary64.isFinite_toFloat`, `Binary64.beq_self_of_isFinite`: core's view of the parts.
* `Binary64.beq_iff_equal`: what the comparison of doubles comes to.
-/

namespace ShiftReduce
namespace Binary64

open Float.Model Float.Model.UnpackedFloat

/-! ## Fields of a bit pattern -/

theorem toNat_unpackMantissa (b : BitVec 64) :
    (@unpackMantissa .binary64 b).toNat = b.toNat % 2 ^ 52 := by
  simp [unpackMantissa]

theorem toNat_unpackExponent (b : BitVec 64) :
    (@unpackExponent .binary64 b).toNat = b.toNat / 2 ^ 52 % 2 ^ 11 := by
  simp [unpackExponent, Nat.shiftRight_eq_div_pow]

/-! ## Patterns that are numbers -/

/-- With all bits of the exponent set, only infinity is no larger than infinity. -/
theorem isNaNBits_iff (b : BitVec 64) :
    @isNaNBits .binary64 b = true ↔ infinityBits < b.toNat % 2 ^ 63 := by
  have hexponent := toNat_unpackExponent b
  have hmantissa := toNat_unpackMantissa b
  have hones : @unpackExponent .binary64 b = -1#11 ↔ b.toNat / 2 ^ 52 % 2 ^ 11 = 2047 := by
    rw [← BitVec.toNat_inj, hexponent]
    exact Iff.rfl
  have hnone : @unpackMantissa .binary64 b = 0 ↔ b.toNat % 2 ^ 52 = 0 := by
    rw [← BitVec.toNat_inj, hmantissa]
    exact Iff.rfl
  unfold isNaNBits
  rw [decide_eq_true_iff]
  refine (and_congr hones (not_congr hnone)).trans ?_
  unfold infinityBits
  omega

theorem toBits_ofBits {a : UInt64} (h : a.toNat % 2 ^ 63 ≤ infinityBits) :
    (Float.ofBits a).toBits = a := by
  -- Core packs again what it has unpacked, unless that is not a number.
  have hpack := @UnpackedFloat.pack_unpack .binary64 a.toBitVec (by decide)
  rw [if_neg fun hnan => Nat.not_lt.2 h ((isNaNBits_iff _).1 hnan)] at hpack
  exact congrArg UInt64.ofBitVec hpack

/-- Among the doubles there is one that is no number. -/
theorem toBits_of_isNaN {x : Float} (h : infinityBits < x.toBits.toNat % 2 ^ 63) :
    x.toBits.toNat = nanBits := by
  obtain ⟨hones, hsome⟩ := of_decide_eq_true ((isNaNBits_iff x.toBits.toBitVec).2 h)
  have hpacked : x.toBits.toBitVec = packedNaN .binary64 := x.toModel.valid.eq_packedNaN hones hsome
  exact (congrArg BitVec.toNat hpacked).trans (by decide)

theorem unpack_isFinite (b : BitVec 64) :
    (UnpackedFloat.unpack .binary64 b).isFinite = true ↔ b.toNat % 2 ^ 63 < infinityBits := by
  have hexponent := toNat_unpackExponent b
  have hones : @unpackExponent .binary64 b = -1#11 ↔
      ¬b.toNat % 2 ^ 63 < infinityBits := by
    rw [← BitVec.toNat_inj, hexponent]
    change _ = 2047 ↔ _
    unfold infinityBits
    omega
  -- Core tells the cases apart by the exponent, all ones or not, and then by the mantissa.
  unfold UnpackedFloat.unpack
  dsimp only
  split
  · rename_i h
    refine iff_of_false ?_ (hones.1 h)
    split <;> exact Bool.false_ne_true
  · rename_i h
    refine iff_of_true ?_ (Decidable.byContradiction fun hlarge => h (hones.2 hlarge))
    split
    · split <;> rfl
    · rfl

theorem isFinite_iff (x : Float) :
    x.isFinite = true ↔ x.toBits.toNat % 2 ^ 63 < infinityBits :=
  unpack_isFinite x.toBits.toBitVec

theorem beq_self_of_isFinite {x : Float} (h : x.isFinite = true) : (x == x) = true := by
  rw [Float.beq_self_iff]
  rintro rfl
  exact absurd h (by decide)

/-! ## Parts -/

@[simp] theorem signBits_false : signBits false = 0 :=
  rfl

@[simp] theorem signBits_true : signBits true = 2 ^ 63 :=
  rfl

/-- The parts of a magnitude, with what is too large cut off, make its pattern with the sign. -/
theorem toFloat_ofMagnitudeBits (negative : Bool) (b : Nat) :
    (ofMagnitudeBits negative b).toFloat =
      .ofBits (.ofNat (signBits negative + min b infinityBits)) := by
  unfold ofMagnitudeBits
  split
  · rw [toFloat, Magnitude.toBits_ofBits, Nat.min_eq_left (by omega)]
  · rw [toFloat, Nat.min_eq_right (by omega)]

theorem toBits_toFloat (negative : Bool) (b : Nat) :
    (ofMagnitudeBits negative b).toFloat.toBits.toNat =
      signBits negative + min b infinityBits := by
  have hsign : signBits negative = 0 ∨ signBits negative = 2 ^ 63 := by
    cases negative
    · exact Or.inl rfl
    · exact Or.inr rfl
  have hbound : min b infinityBits ≤ infinityBits := Nat.min_le_right _ _
  have hnat : (UInt64.ofNat (signBits negative + min b infinityBits)).toNat =
      signBits negative + min b infinityBits := by
    rw [UInt64.toNat_ofNat_of_lt']
    unfold infinityBits UInt64.size at *
    omega
  rw [toFloat_ofMagnitudeBits, toBits_ofBits, hnat]
  rw [hnat]
  unfold infinityBits at *
  omega

theorem ofFloat_toFloat (negative : Bool) (b : Nat) :
    ofFloat (ofMagnitudeBits negative b).toFloat = ofMagnitudeBits negative b := by
  have hbound : min b infinityBits ≤ infinityBits := Nat.min_le_right _ _
  have hlt : infinityBits < 2 ^ 63 := by decide
  -- What is too large can be cut off beforehand, and then the sign bit can be told from the rest.
  have hcut : ofMagnitudeBits negative (min b infinityBits) = ofMagnitudeBits negative b := by
    unfold ofMagnitudeBits
    by_cases h : b < infinityBits
    · rw [Nat.min_eq_left (by omega)]
    · rw [Nat.min_eq_right (by omega), if_neg h, if_neg (Nat.lt_irrefl _)]
  rw [← hcut, ofFloat, toBits_toFloat, Nat.min_eq_left hbound]
  cases negative with
  | false =>
      have hmod : (signBits false + min b infinityBits) % 2 ^ 63 = min b infinityBits := by
        simp only [signBits_false]
        omega
      have hsign : ¬2 ^ 63 ≤ signBits false + min b infinityBits := by
        simp only [signBits_false]
        omega
      simp only [hmod, hsign]
      exact if_neg (by omega)
  | true =>
      have hmod : (signBits true + min b infinityBits) % 2 ^ 63 = min b infinityBits := by
        simp only [signBits_true]
        omega
      have hsign : 2 ^ 63 ≤ signBits true + min b infinityBits := by
        simp only [signBits_true]
        omega
      simp only [hmod, hsign]
      exact if_neg (by omega)

/-- A double is made of its parts. -/
theorem toFloat_ofFloat (x : Float) : (ofFloat x).toFloat = x := by
  have hbits : .ofBits (.ofNat x.toBits.toNat) = x := by
    rw [UInt64.ofNat_toNat, Float.ofBits_toBits]
  unfold ofFloat
  dsimp only
  split
  · rename_i hnan
    rw [toFloat, ← toBits_of_isNaN hnan, hbits]
  · rename_i hnumber
    have hsign : signBits (decide (2 ^ 63 ≤ x.toBits.toNat)) + x.toBits.toNat % 2 ^ 63 =
        x.toBits.toNat := by
      have hlt := x.toBits.toNat_lt
      unfold signBits
      split
      · rename_i hnegative
        have hle := of_decide_eq_true hnegative
        omega
      · rename_i hpositive
        have hlt' := of_decide_eq_false (Bool.eq_false_iff.2 hpositive)
        omega
    rw [toFloat_ofMagnitudeBits, Nat.min_eq_left (Nat.le_of_not_lt hnumber), hsign, hbits]

theorem isFinite_toFloat (negative : Bool) (b : Nat) :
    (ofMagnitudeBits negative b).toFloat.isFinite = true ↔ b < infinityBits := by
  rw [isFinite_iff, toBits_toFloat]
  unfold infinityBits
  cases negative <;> simp only [signBits_false, signBits_true] <;> omega

theorem isNaN_toFloat (negative : Bool) (b : Nat) :
    (ofMagnitudeBits negative b).toFloat.isNaN = false := by
  have hbits := toBits_toFloat negative b
  have hsign : signBits negative = 0 ∨ signBits negative = 2 ^ 63 := by cases negative <;> simp
  rw [Float.isNaN_eq_decide_eq_nan, decide_eq_false_iff_not]
  intro hnan
  -- What is not a number has a larger magnitude than infinity.
  have hnanBits : Float.nan.toBits.toNat = nanBits := by decide
  rw [hnan, hnanBits] at hbits
  unfold nanBits infinityBits at hbits
  omega

/-! ## Comparison -/

/-- Two doubles are equal: both are numbers, and they are the same double or are zeros. -/
def Equal (x y : Float) : Prop :=
  x.isNaN = false ∧ y.isNaN = false ∧ (x = y ∨ (x = 0 ∨ x = -0) ∧ (y = 0 ∨ y = -0))

theorem beq_iff_equal (x y : Float) : (x == y) = true ↔ Equal x y := by
  unfold Equal
  rw [Float.beq_iff_ne_nan_and_eq, Float.isNaN_eq_decide_eq_nan, Float.isNaN_eq_decide_eq_nan,
    decide_eq_false_iff_not, decide_eq_false_iff_not]
  refine and_congr_right fun _ => and_congr_right fun _ => ?_
  constructor
  · rintro (heq | ⟨hx, hy⟩ | ⟨hx, hy⟩)
    · exact .inl heq
    · exact .inr ⟨.inl hx, .inr hy⟩
    · exact .inr ⟨.inr hx, .inl hy⟩
  · rintro (heq | ⟨hx | hx, hy | hy⟩)
    · exact .inl heq
    · exact .inl (hx.trans hy.symm)
    · exact .inr (.inl ⟨hx, hy⟩)
    · exact .inr (.inr ⟨hx, hy⟩)
    · exact .inl (hx.trans hy.symm)

theorem equal_self_iff (x : Float) : Equal x x ↔ x.isNaN = false :=
  ⟨fun h => h.1, fun h => ⟨h, h, .inl rfl⟩⟩

end Binary64
end ShiftReduce
