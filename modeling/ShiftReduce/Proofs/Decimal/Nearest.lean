import ShiftReduce.Decimal.Shortest

/-!
# Nearest — which fractions round to a magnitude

Rounding looks at the value of a fraction and at nothing else, and a magnitude is what everything
between the two halfway points next to it is rounded to.

* `nearestBits_congr`: equal fractions are rounded to the same magnitude.
* `Magnitude.nearestBits_of_attracts`: what lies between the halfway points comes back.
* `Decimal.roundBits_eq`: the bounds on the exponent change nothing.
-/

namespace ShiftReduce

/-! ## Division -/

theorem roundDiv_mul_right (a b : Nat) {k : Nat} (hk : 0 < k) :
    roundDiv (a * k) (b * k) = roundDiv a b := by
  have hhalf : ∀ x y : Nat, 2 * (x * k) < y * k ↔ 2 * x < y := by
    intro x y
    rw [← Nat.mul_assoc]
    exact Nat.mul_lt_mul_right hk
  have hhalf' : ∀ x y : Nat, y * k < 2 * (x * k) ↔ y < 2 * x := by
    intro x y
    rw [← Nat.mul_assoc]
    exact Nat.mul_lt_mul_right hk
  simp only [roundDiv, Nat.mul_div_mul_right _ _ hk, Nat.mul_mod_mul_right, hhalf, hhalf']

/-- A number at most half away is the nearest one, provided that it is even or nearer still. -/
theorem roundDiv_eq {a b n : Nat} (hb : 0 < b) (hlow : 2 * (n * b) ≤ 2 * a + b)
    (hhigh : 2 * a ≤ 2 * (n * b) + b)
    (htie : n % 2 = 0 ∨ 2 * (n * b) < 2 * a + b ∧ 2 * a < 2 * (n * b) + b) :
    roundDiv a b = n := by
  have hdiv := Nat.div_add_mod' a b
  have hmod := Nat.mod_lt a hb
  -- The quotient is the number itself or the one before it.
  have hcases : n = a / b ∨ n = a / b + 1 := by
    have hle : a / b ≤ n := by
      by_cases h : n < a / b
      · have hmul := Nat.mul_le_mul_right b (Nat.succ_le_of_lt h)
        rw [Nat.succ_mul] at hmul
        omega
      · omega
    have hge : n ≤ a / b + 1 := by
      by_cases h : a / b + 1 < n
      · have hmul := Nat.mul_le_mul_right b (Nat.succ_le_of_lt h)
        rw [Nat.succ_mul, Nat.add_mul] at hmul
        omega
      · omega
    omega
  unfold roundDiv
  dsimp only
  rcases hcases with h | h
  · rw [← h] at hdiv ⊢
    split
    · rfl
    · split
      · omega
      · omega
  · have hmul : n * b = a / b * b + b := by rw [h, Nat.add_mul, Nat.one_mul]
    split
    · omega
    · split
      · omega
      · omega

/-! ## Fractions -/

theorem nearestBits_congr {a b a' b' : Nat} (hb : 0 < b) (hb' : 0 < b') (h : a * b' = a' * b) :
    nearestBits a b = nearestBits a' b' := by
  -- A common factor cancels in every division that rounding makes.
  have hscale : ∀ {x y k : Nat}, 0 < k → nearestBits (x * k) (y * k) = nearestBits x y := by
    intro x y k hk
    have hunits : x * k * 2 ^ 1074 = x * 2 ^ 1074 * k := Nat.mul_right_comm _ _ _
    have hdenominator : ∀ e, y * k * 2 ^ e = y * 2 ^ e * k := fun e => Nat.mul_right_comm _ _ _
    simp only [nearestBits, hunits, hdenominator, Nat.mul_div_mul_right _ _ hk,
      roundDiv_mul_right _ _ hk]
  calc
    nearestBits a b = nearestBits (a * b') (b * b') := (hscale hb').symm
    _ = nearestBits (a' * b) (b' * b) := by rw [h, Nat.mul_comm b b']
    _ = nearestBits a' b' := hscale hb

theorem log2_sub_eq {n e : Nat} (hlow : e = 0 ∨ 2 ^ (52 + e) ≤ n) (hhigh : n < 2 ^ (53 + e)) :
    n.log2 - 52 = e := by
  by_cases hn : n = 0
  · subst hn
    rcases hlow with rfl | hlow
    · rfl
    · exact absurd hlow (Nat.not_le_of_lt (Nat.two_pow_pos _))
  · have hlt := (Nat.log2_lt hn).2 hhigh
    rcases hlow with rfl | hlow
    · omega
    · have hle := (Nat.le_log2 hn).2 hlow
      omega

namespace Magnitude

/-- The one way to write a magnitude with at most 53 bits and the least exponent. -/
def Canonical (m : Magnitude) : Prop :=
  m.significand < 2 ^ 53 ∧ (m.exponent = 0 ∨ 2 ^ 52 ≤ m.significand)

theorem canonical_ofBits (b : Nat) : (ofBits b).Canonical := by
  unfold ofBits Canonical
  split
  · dsimp only
    omega
  · dsimp only
    omega

/-- The halfway point below a magnitude, in quarters of a unit of the last place. -/
def lowQuarters (m : Magnitude) : Nat :=
  if m.significand = 2 ^ 52 ∧ 0 < m.exponent then 4 * m.significand - 1
  else 4 * m.significand - 2

/-- The fraction `a / b` lies between the halfway points next to a magnitude, and on neither of them
if the significand is odd. -/
def Attracts (m : Magnitude) (a b : Nat) : Prop :=
  let unit := b * 2 ^ m.exponent
  let quarters := 4 * (a * 2 ^ 1074)
  m.lowQuarters * unit ≤ quarters ∧ quarters ≤ (4 * m.significand + 2) * unit ∧
    (m.significand % 2 = 0 ∨
      m.lowQuarters * unit < quarters ∧ quarters < (4 * m.significand + 2) * unit)

variable {m : Magnitude} {a b : Nat}

/-- Nothing between the halfway points is as large as the next power of two. -/
theorem div_lt_of_attracts (hb : 0 < b) (hm : m.Canonical) (h : m.Attracts a b) :
    a * 2 ^ 1074 / b < 2 ^ (53 + m.exponent) := by
  have hunit : 0 < b * 2 ^ m.exponent := Nat.mul_pos hb (Nat.two_pow_pos _)
  have htop : (4 * m.significand + 2) * (b * 2 ^ m.exponent) <
      4 * 2 ^ 53 * (b * 2 ^ m.exponent) :=
    Nat.mul_lt_mul_of_pos_right (by have := hm.1; omega) hunit
  have hpow : 2 ^ (53 + m.exponent) * b = 2 ^ 53 * (b * 2 ^ m.exponent) := by
    rw [Nat.pow_add, Nat.mul_assoc, Nat.mul_comm (2 ^ m.exponent)]
  rw [Nat.div_lt_iff_lt_mul hb, hpow]
  have hhigh := h.2.1
  omega

/-- On the grid of a magnitude, what lies between the halfway points is rounded to it. -/
theorem roundDiv_of_attracts (hb : 0 < b) (h : m.Attracts a b) :
    roundDiv (a * 2 ^ 1074) (b * 2 ^ m.exponent) = m.significand := by
  rcases h with ⟨hlow, hhigh, htie⟩
  have hunit : 0 < b * 2 ^ m.exponent := Nat.mul_pos hb (Nat.two_pow_pos _)
  generalize b * 2 ^ m.exponent = unit at *
  -- The lower halfway point is at most half a unit away, the upper one half a unit.
  have hquarters : 4 * (m.significand * unit) ≤ m.lowQuarters * unit + 2 * unit := by
    rw [← Nat.mul_assoc, ← Nat.add_mul]
    refine Nat.mul_le_mul_right unit ?_
    unfold lowQuarters
    split <;> omega
  have hexpand : (4 * m.significand + 2) * unit = 4 * (m.significand * unit) + 2 * unit := by
    rw [Nat.add_mul, Nat.mul_assoc]
  rw [hexpand] at hhigh htie
  exact roundDiv_eq hunit (by omega) (by omega) (by omega)

/-- Only a power of two attracts what has a smaller exponent, and on the finer grid of that exponent
it is rounded up to the power of two. -/
theorem exists_exponent_of_attracts (hb : 0 < b) (hm : m.Canonical) (h : m.Attracts a b)
    (hbelow : ¬(m.exponent = 0 ∨ 2 ^ (52 + m.exponent) ≤ a * 2 ^ 1074 / b)) :
    ∃ e, m = ⟨2 ^ 52, e + 1⟩ ∧ 2 ^ (52 + e) ≤ a * 2 ^ 1074 / b ∧
      roundDiv (a * 2 ^ 1074) (b * 2 ^ e) = 2 ^ 53 := by
  rcases not_or.1 hbelow with ⟨hexponent, hsmall⟩
  rcases m with ⟨s, k⟩
  rcases Nat.exists_eq_succ_of_ne_zero hexponent with ⟨e, rfl⟩
  have hpow : ∀ n, 2 ^ (n + e) * b = 2 ^ n * (b * 2 ^ e) := by
    intro n
    rw [Nat.pow_add, Nat.mul_assoc, Nat.mul_comm (2 ^ e)]
  have hunit : 0 < b * 2 ^ e := Nat.mul_pos hb (Nat.two_pow_pos _)
  have hdouble : b * 2 ^ (e + 1) = 2 * (b * 2 ^ e) := by
    rw [Nat.pow_succ, ← Nat.mul_assoc, Nat.mul_comm]
  have hnext : 52 + (e + 1) = 53 + e := by omega
  dsimp only at hsmall
  rw [Nat.succ_eq_add_one, hnext, Nat.le_div_iff_mul_le hb, hpow] at hsmall
  rcases h with ⟨hlow, _, _⟩
  simp only [Nat.succ_eq_add_one, hdouble] at hlow
  rcases hm with ⟨hs, hnormal⟩
  -- More than the least significand would have its halfway point above the next power of two.
  have hleast : s = 2 ^ 52 := by
    by_cases hmore : 2 ^ 52 < s
    · have hquarters : (4 * 2 ^ 52) * (2 * (b * 2 ^ e)) ≤
          lowQuarters ⟨s, e + 1⟩ * (2 * (b * 2 ^ e)) := by
        refine Nat.mul_le_mul_right _ ?_
        unfold lowQuarters
        split <;> dsimp only at * <;> omega
      omega
    · rcases hnormal with hnormal | hnormal
      · exact absurd hnormal (Nat.succ_ne_zero e)
      · exact Nat.le_antisymm (Nat.le_of_not_lt hmore) hnormal
  subst hleast
  have hquarters : lowQuarters ⟨2 ^ 52, e + 1⟩ = 4 * 2 ^ 52 - 1 :=
    if_pos ⟨rfl, Nat.succ_pos e⟩
  rw [hquarters] at hlow
  refine ⟨e, rfl, ?_, ?_⟩
  · rw [Nat.le_div_iff_mul_le hb, hpow]
    omega
  · exact roundDiv_eq hunit (by omega) (by omega) (Or.inl (by decide))

theorem nearestBits_of_attracts (hb : 0 < b) (hm : m.Canonical)
    (hfinite : m.toBits < Binary64.infinityBits) (h : m.Attracts a b) :
    nearestBits a b = m.toBits := by
  have hlt := div_lt_of_attracts hb hm h
  rw [nearestBits]
  -- Rounding takes the exponent from the fraction: that of the magnitude, or the one below it.
  by_cases hlow : m.exponent = 0 ∨ 2 ^ (52 + m.exponent) ≤ a * 2 ^ 1074 / b
  · rw [log2_sub_eq hlow hlt, roundDiv_of_attracts hb h]
    exact Nat.min_eq_left (Nat.le_of_lt hfinite)
  · rcases exists_exponent_of_attracts hb hm h hlow with ⟨e, rfl, hle, hround⟩
    have hless : a * 2 ^ 1074 / b < 2 ^ (53 + e) := by
      have hnot := (not_or.1 hlow).2
      dsimp only at hnot
      have hnext : 52 + (e + 1) = 53 + e := by omega
      rw [hnext] at hnot
      omega
    rw [log2_sub_eq (Or.inr hle) hless, hround]
    -- The significand carries into the exponent.
    have hcarry : toBits ⟨2 ^ 53, e⟩ = toBits ⟨2 ^ 52, e + 1⟩ := by
      simp only [toBits]
      omega
    rw [hcarry]
    exact Nat.min_eq_left (Nat.le_of_lt hfinite)

end Magnitude
end ShiftReduce
