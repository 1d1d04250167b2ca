import ShiftReduce.Proofs.Decimal.Nearest

/-!
# Shortest — the search finds a decimal that rounds back

The interval of the search holds exactly the fractions that a magnitude attracts.  The search stops
at a decimal inside it, and the finest grid has one, since the magnitude itself lies there.

* `Decimal.roundBits_eq`: the bounds on the exponent change nothing.
* `Magnitude.contains_interval_iff`: the interval against the halfway points.
* `Magnitude.attracts_shortest`, `Magnitude.roundBits_shortest`: what is found rounds back.
-/

namespace ShiftReduce

/-! ## Very small and very large fractions -/

theorem two_pow_le_ten_pow (n : Nat) : 2 ^ (3 * n) ≤ 10 ^ n := by
  rw [Nat.pow_mul]
  exact Nat.pow_le_pow_left (by decide) n

theorem nearestBits_of_small {a b : Nat} (h : 2 * (a * 2 ^ 1074) < b) : nearestBits a b = 0 := by
  have hdiv : a * 2 ^ 1074 / b = 0 := Nat.div_eq_of_lt (by omega)
  have hround : roundDiv (a * 2 ^ 1074) b = 0 :=
    roundDiv_eq (by omega) (by omega) (by omega) (Or.inl rfl)
  have hlog : (0 : Nat).log2 - 52 = 0 := rfl
  rw [nearestBits, hdiv, hlog, Nat.pow_zero, Nat.mul_one, hround]
  rfl

theorem nearestBits_of_large {a b : Nat} (h : 2 ^ 2099 ≤ a * 2 ^ 1074 / b) :
    nearestBits a b = Binary64.infinityBits := by
  have hpos : a * 2 ^ 1074 / b ≠ 0 := by
    intro hzero
    rw [hzero] at h
    exact Nat.not_le_of_lt (Nat.two_pow_pos 2099) h
  have hlog := (Nat.le_log2 hpos).2 h
  rw [nearestBits]
  refine Nat.min_eq_right ?_
  unfold Binary64.infinityBits Magnitude.toBits
  dsimp only
  omega

namespace Decimal

theorem denominator_pos (d : Decimal) : 0 < d.denominator :=
  Nat.pow_pos (by decide)

theorem roundBits_eq (d : Decimal) : d.roundBits = nearestBits d.numerator d.denominator := by
  rcases d with ⟨n, e⟩
  unfold roundBits numerator denominator
  dsimp only
  split
  · rename_i h
    refine (nearestBits_of_small ?_).symm
    rcases h with rfl | h
    · simp only [Nat.zero_mul, Nat.mul_zero]
      exact Nat.pow_pos (by decide)
    · -- Ten to the 400 outweighs the scale, the rest the digits.
      have hexponent : e.toNat = 0 := by omega
      have hdigits : 2 * n < 2 ^ (n.log2 + 2) := by
        have hlog := Nat.lt_log2_self (n := n)
        rw [Nat.pow_succ]
        omega
      rw [hexponent, Nat.pow_zero, Nat.mul_one]
      calc
        2 * (n * 2 ^ 1074) = 2 * n * 2 ^ 1074 := (Nat.mul_assoc _ _ _).symm
        _ < 2 ^ (n.log2 + 2) * 2 ^ 1074 :=
          Nat.mul_lt_mul_of_pos_right hdigits (Nat.two_pow_pos 1074)
        _ = 2 ^ (n.log2 + 2 + 1074) := (Nat.pow_add 2 (n.log2 + 2) 1074).symm
        _ ≤ 2 ^ (3 * (-e).toNat) := Nat.pow_le_pow_right (by decide) (by omega)
        _ ≤ 10 ^ (-e).toNat := two_pow_le_ten_pow _
  · rename_i h
    rcases not_or.1 h with ⟨hn, _⟩
    split
    · rename_i hlarge
      have hexponent : (-e).toNat = 0 := by omega
      refine (nearestBits_of_large ?_).symm
      rw [hexponent, Nat.pow_zero, Nat.div_one]
      calc
        2 ^ 2099 ≤ 2 ^ (3 * e.toNat + 1074) := Nat.pow_le_pow_right (by decide) (by omega)
        _ = 2 ^ (3 * e.toNat) * 2 ^ 1074 := Nat.pow_add 2 _ _
        _ ≤ 10 ^ e.toNat * 2 ^ 1074 := Nat.mul_le_mul_right _ (two_pow_le_ten_pow _)
        _ ≤ n * 10 ^ e.toNat * 2 ^ 1074 :=
          Nat.mul_le_mul_right _ (Nat.le_mul_of_pos_left _ (Nat.pos_of_ne_zero hn))
    · rfl

end Decimal

/-! ## The interval -/

namespace Magnitude

variable {m : Magnitude}

/-- The points and the scale of the interval leave out the powers of two that they have in common. -/
theorem exists_common_scale (e k : Nat) :
    ∃ c, 0 < c ∧ 2 ^ (e - (k + 2)) * c = 2 ^ e ∧ 2 ^ (k + 2 - e) * c = 4 * 2 ^ k := by
  refine ⟨2 ^ min e (k + 2), Nat.two_pow_pos _, ?_, ?_⟩
  · rw [← Nat.pow_add]
    congr 1
    omega
  · have hfour : (4 : Nat) = 2 ^ 2 := rfl
    rw [hfour, ← Nat.pow_add, ← Nat.pow_add]
    congr 1
    omega

theorem contains_interval_iff (m : Magnitude) (d : Decimal) :
    m.interval.contains d = true ↔ m.Attracts d.numerator d.denominator := by
  unfold RoundingInterval.contains interval Attracts
  rcases exists_common_scale m.exponent 1074 with ⟨c, hc, hup, hscale⟩
  have hquarters : 1074 + 2 = 1076 := rfl
  rw [hquarters] at hup hscale
  generalize 2 ^ 1074 = units at *
  -- With the common factor put back, the interval speaks of quarters of a unit.
  have hend : ∀ q, q * 2 ^ (m.exponent - 1076) * d.denominator * c =
      q * (d.denominator * 2 ^ m.exponent) := by
    intro q
    rw [Nat.mul_right_comm, Nat.mul_assoc q, hup, Nat.mul_assoc, Nat.mul_comm (2 ^ _)]
  have hpoint : d.numerator * 2 ^ (1076 - m.exponent) * c = 4 * (d.numerator * units) := by
    rw [Nat.mul_assoc, hscale, Nat.mul_left_comm]
  have hbelow : ∀ q, q * 2 ^ (m.exponent - 1076) * d.denominator ≤
      d.numerator * 2 ^ (1076 - m.exponent) ↔
      q * (d.denominator * 2 ^ m.exponent) ≤ 4 * (d.numerator * units) := by
    intro q
    rw [← Nat.mul_le_mul_right_iff hc, hend, hpoint]
  have habove : ∀ q, d.numerator * 2 ^ (1076 - m.exponent) ≤
      q * 2 ^ (m.exponent - 1076) * d.denominator ↔
      4 * (d.numerator * units) ≤ q * (d.denominator * 2 ^ m.exponent) := by
    intro q
    rw [← Nat.mul_le_mul_right_iff hc, hend, hpoint]
  have hlow : (if m.significand = 2 ^ 52 ∧ 0 < m.exponent then 4 * m.significand - 1
      else 4 * m.significand - 2) = m.lowQuarters := rfl
  dsimp only
  rw [hlow]
  -- The ends belong to the interval if the significand is even.
  by_cases heven : m.significand % 2 = 0
  · simp only [heven, beq_self_eq_true, if_true, Bool.and_eq_true, decide_eq_true_eq, true_or,
      and_true, hbelow, habove]
  · have hodd : (m.significand % 2 == 0) = false := beq_false_of_ne heven
    simp only [hodd, Bool.false_eq_true, if_false, Bool.and_eq_true, decide_eq_true_eq, heven,
      false_or, ← Nat.not_le, hbelow, habove]
    omega

end Magnitude

/-! ## The search -/

namespace RoundingInterval

theorem contains_of_pick {I : RoundingInterval} {e : Int} {d : Decimal}
    (h : I.pick? e = some d) : I.contains d = true := by
  unfold pick? at h
  dsimp only at h
  split at h
  · rename_i hlower hupper
    cases h
    split
    · exact hlower
    · exact hupper
  · rename_i hlower _
    cases h
    exact hlower
  · rename_i _ hupper
    cases h
    exact hupper
  · cases h

theorem contains_search {I : RoundingInterval} {finest : Int}
    (h : I.contains (I.below finest) = true) (steps : Nat) (e : Int) :
    I.contains (I.search finest steps e) = true := by
  induction steps generalizing e with
  | zero => exact h
  | succ steps ih =>
      unfold search
      split
      · rename_i d hpick
        exact contains_of_pick hpick
      · exact ih (e - 1)

end RoundingInterval

namespace Magnitude

/-- What is short of a power of two is made up by a power of ten. -/
theorem five_pow_mul (e k : Nat) :
    5 ^ (k - e) * 2 ^ (e - k) * 2 ^ k = 10 ^ (k - e) * 2 ^ e := by
  have hsum : e - k + k = k - e + e := by omega
  calc
    5 ^ (k - e) * 2 ^ (e - k) * 2 ^ k = 5 ^ (k - e) * 2 ^ (e - k + k) := by
      rw [Nat.mul_assoc, ← Nat.pow_add]
    _ = 5 ^ (k - e) * 2 ^ (k - e) * 2 ^ e := by rw [hsum, Nat.pow_add, Nat.mul_assoc]
    _ = 10 ^ (k - e) * 2 ^ e := by rw [← Nat.mul_pow]

/-- On the finest grid the largest decimal below a magnitude is the magnitude. -/
theorem below_finestExponent (m : Magnitude) :
    (m.interval.below m.finestExponent).numerator * 2 ^ 1074 =
      m.significand * ((m.interval.below m.finestExponent).denominator * 2 ^ m.exponent) := by
  rcases m with ⟨s, e⟩
  have hplaces : (-finestExponent ⟨s, e⟩).toNat = 1074 - e := by
    unfold finestExponent
    dsimp only
    omega
  have hwhole : (finestExponent ⟨s, e⟩).toNat = 0 := by
    unfold finestExponent
    dsimp only
    omega
  unfold Decimal.numerator Decimal.denominator RoundingInterval.below interval
  dsimp only
  rw [hplaces, hwhole, Nat.pow_zero, Nat.mul_one, Nat.mul_one]
  have hfive := five_pow_mul e 1074
  rcases exists_common_scale e 1074 with ⟨c, hc, hup, hscale⟩
  have hquarters : 1074 + 2 = 1076 := rfl
  rw [hquarters] at hup hscale
  have hscalepos : 0 < 2 ^ (1076 - e) := Nat.two_pow_pos _
  generalize 2 ^ 1074 = units at *
  generalize 5 ^ (1074 - e) * 2 ^ (e - 1074) = fives at *
  generalize 10 ^ (1074 - e) = tens at *
  generalize 2 ^ (e - 1076) = up at *
  generalize 2 ^ (1076 - e) = scale at *
  -- The quotient is whole: it is the significand on a grid of powers of ten.
  have hexact : 4 * s * up * tens = s * fives * scale := by
    refine Nat.eq_of_mul_eq_mul_right hc ?_
    calc
      4 * s * up * tens * c = 4 * s * (tens * (up * c)) := by ac_rfl
      _ = 4 * s * (fives * units) := by rw [hup, hfive]
      _ = s * fives * (4 * units) := by ac_rfl
      _ = s * fives * scale * c := by rw [← hscale, Nat.mul_assoc (s * fives)]
  rw [hexact, Nat.mul_div_cancel _ hscalepos, Nat.mul_assoc, hfive]

/-- A magnitude other than zero attracts what it is. -/
theorem attracts_self {m : Magnitude} {a b : Nat} (hs : 0 < m.significand) (hb : 0 < b)
    (h : a * 2 ^ 1074 = m.significand * (b * 2 ^ m.exponent)) : m.Attracts a b := by
  have hunit : 0 < b * 2 ^ m.exponent := Nat.mul_pos hb (Nat.two_pow_pos _)
  unfold Attracts
  rw [h]
  generalize b * 2 ^ m.exponent = unit at *
  have hlow : m.lowQuarters * unit < 4 * (m.significand * unit) := by
    rw [← Nat.mul_assoc]
    refine Nat.mul_lt_mul_of_pos_right ?_ hunit
    unfold lowQuarters
    split <;> omega
  have hhigh : 4 * (m.significand * unit) < (4 * m.significand + 2) * unit := by
    rw [← Nat.mul_assoc]
    exact Nat.mul_lt_mul_of_pos_right (by omega) hunit
  exact ⟨Nat.le_of_lt hlow, Nat.le_of_lt hhigh, Or.inr ⟨hlow, hhigh⟩⟩

variable {m : Magnitude}

theorem attracts_shortest (hs : 0 < m.significand) :
    m.Attracts m.shortest.numerator m.shortest.denominator := by
  rw [← contains_interval_iff]
  refine RoundingInterval.contains_search ?_ _ _
  rw [contains_interval_iff]
  exact attracts_self hs (Decimal.denominator_pos _) m.below_finestExponent

theorem roundBits_shortest (hs : 0 < m.significand) (hm : m.Canonical)
    (hfinite : m.toBits < Binary64.infinityBits) : m.shortest.roundBits = m.toBits := by
  rw [Decimal.roundBits_eq]
  exact nearestBits_of_attracts (Decimal.denominator_pos _) hm hfinite (attracts_shortest hs)

/-- A magnitude attracts nothing below its half. -/
theorem le_of_attracts {a b : Nat} (hs : 0 < m.significand) (h : m.Attracts a b) :
    m.significand * (b * 2 ^ m.exponent) ≤ 2 * (a * 2 ^ 1074) := by
  have hlow := h.1
  have hquarters : 2 * m.significand * (b * 2 ^ m.exponent) ≤
      m.lowQuarters * (b * 2 ^ m.exponent) := by
    refine Nat.mul_le_mul_right _ ?_
    unfold lowQuarters
    split <;> omega
  rw [Nat.mul_assoc] at hquarters
  omega

end Magnitude

end ShiftReduce
