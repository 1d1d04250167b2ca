import ShiftReduce.Decimal.Layout
import ShiftReduce.Decimal.Numeral
import ShiftReduce.Proofs.Decimal.Shortest

/-!
# Legible — the layouts of a magnitude are read as that magnitude

A layout spreads the digits of a decimal over a text, with zeros, a point and an exponent where they
are needed.  Reading collects them again.  What is read need not be the same decimal, but it is the
same number, so it is rounded alike.

* `takeWhile_append_of_stop`: a longest run ends where the next character does not go on with it.
* `Numeral.readDecimal?_append`, `Numeral.readDecimal?_point`: reading a text put together of parts.
* `Decimal.spells_positional`, `Decimal.spells_scientific`: the two layouts.
* `Magnitude.spells_compact`: the text of a finite magnitude is read as that magnitude.
* `Numeral.read_of_spells`, `Numeral.exists_bits_of_read`: the doubles that are read.
-/

namespace ShiftReduce

/-! ## Runs of characters -/

/-- The text ends here, or its next character does not go on with a run. -/
def Stops (p : Char → Bool) (rest : List Char) : Prop :=
  ∀ c cs, rest = c :: cs → p c = false

theorem stops_nil (p : Char → Bool) : Stops p [] := by
  intro c cs h
  cases h

theorem stops_cons {p : Char → Bool} {c : Char} (h : p c = false) (cs : List Char) :
    Stops p (c :: cs) := by
  intro c' cs' heq
  cases heq
  exact h

theorem takeWhile_append_of_stop {p : Char → Bool} {run rest : List Char}
    (hrun : ∀ c ∈ run, p c = true) (hrest : Stops p rest) : (run ++ rest).takeWhile p = run := by
  rw [List.takeWhile_append_of_pos hrun]
  cases rest with
  | nil => exact List.append_nil run
  | cons c cs =>
      rw [List.takeWhile_cons_of_neg (by simp [hrest c cs rfl])]
      exact List.append_nil run

theorem dropWhile_append_of_stop {p : Char → Bool} {run rest : List Char}
    (hrun : ∀ c ∈ run, p c = true) (hrest : Stops p rest) : (run ++ rest).dropWhile p = rest := by
  rw [List.dropWhile_append_of_pos hrun]
  cases rest with
  | nil => rfl
  | cons c cs => rw [List.dropWhile_cons_of_neg (by simp [hrest c cs rfl])]

namespace Numeral

/-! ## Digits -/

theorem digitsValue_eq (ds : List Char) : digitsValue ds = Nat.ofDigitChars 10 ds 0 :=
  rfl

theorem digitsValue_toDigits (n : Nat) : digitsValue (Nat.toDigits 10 n) = n :=
  Nat.ofDigitChars_ten_toDigits

theorem digitsValue_append_zeros (ds : List Char) (k : Nat) :
    digitsValue (ds ++ List.replicate k '0') = digitsValue ds * 10 ^ k := by
  rw [digitsValue_eq, Nat.ofDigitChars_append, Nat.ofDigitChars_replicate_zero, Nat.mul_comm]
  rfl

theorem digitsValue_zeros_append (ds : List Char) (k : Nat) :
    digitsValue (List.replicate k '0' ++ ds) = digitsValue ds := by
  rw [digitsValue_eq, Nat.ofDigitChars_append, Nat.ofDigitChars_replicate_zero, Nat.mul_zero]
  rfl

theorem readDigits?_of_digits {ds : List Char} (hne : ds ≠ []) (hds : ∀ c ∈ ds, c.isDigit = true) :
    readDigits? ds = some (digitsValue ds) := by
  have hall : ds.all Char.isDigit = true := List.all_eq_true.2 hds
  cases ds with
  | nil => exact absurd rfl hne
  | cons c cs => simp [readDigits?, hall]

theorem readExponent?_toDigits (n : Nat) :
    readExponent? ('e' :: Nat.toDigits 10 n) = some (n : Int) := by
  have hdigits : ∀ c ∈ Nat.toDigits 10 n, c.isDigit = true := fun c hc =>
    Nat.isDigit_of_mem_toDigits (by decide) (by decide) hc
  have hread := readDigits?_of_digits Nat.toDigits_ne_nil hdigits
  rw [digitsValue_toDigits] at hread
  generalize Nat.toDigits 10 n = ds at *
  simp only [readExponent?, true_or, if_true]
  split
  · exact absurd (hdigits '+' (List.mem_cons_self ..)) (by decide)
  · exact absurd (hdigits '-' (List.mem_cons_self ..)) (by decide)
  · rw [hread]
    rfl

/-! ## Decimals put together of parts -/

def IsTextChar (c : Char) : Prop :=
  c.isDigit = true ∨ c = '.' ∨ c = 'e'

/-- A text that is led by a digit and read as a decimal that is rounded to the magnitude with the
bit pattern `b`. -/
def Spells (cs : List Char) (b : Nat) : Prop :=
  (∃ c rest, cs = c :: rest ∧ c.isDigit = true) ∧ (∀ c ∈ cs, IsTextChar c) ∧
    ∃ d, readDecimal? cs = some d ∧ d.roundBits = b

/-- A whole number with what follows it. -/
theorem readDecimal?_append {whole rest : List Char} {e : Int} (hne : whole ≠ [])
    (hwhole : ∀ c ∈ whole, c.isDigit = true) (hrest : Stops Char.isDigit rest)
    (hpoint : Stops (· == '.') rest) (he : readExponent? rest = some e) :
    readDecimal? (whole ++ rest) = some ⟨digitsValue whole, e⟩ := by
  have hsplit : splitFraction rest = ([], rest) := by
    unfold splitFraction
    split
    · rename_i cs
      exact absurd (hpoint '.' cs rfl) (by decide)
    · rfl
  unfold readDecimal?
  rw [takeWhile_append_of_stop hwhole hrest, dropWhile_append_of_stop hwhole hrest, hsplit]
  cases whole with
  | nil => exact absurd rfl hne
  | cons c cs => simp [he]

/-- A whole number with a fraction and what follows it. -/
theorem readDecimal?_point {whole fraction rest : List Char} {e : Int} (hne : whole ≠ [])
    (hwhole : ∀ c ∈ whole, c.isDigit = true) (hfraction : ∀ c ∈ fraction, c.isDigit = true)
    (hrest : Stops Char.isDigit rest) (he : readExponent? rest = some e) :
    readDecimal? (whole ++ '.' :: (fraction ++ rest)) =
      some ⟨digitsValue (whole ++ fraction), e - fraction.length⟩ := by
  have hpoint : Stops Char.isDigit ('.' :: (fraction ++ rest)) := stops_cons (by decide) _
  have hsplit : splitFraction ('.' :: (fraction ++ rest)) = (fraction, rest) := by
    rw [splitFraction, takeWhile_append_of_stop hfraction hrest, dropWhile_append_of_stop hfraction hrest]
  unfold readDecimal?
  rw [takeWhile_append_of_stop hwhole hpoint, dropWhile_append_of_stop hwhole hpoint, hsplit]
  cases whole with
  | nil => exact absurd rfl hne
  | cons c cs => simp [he]

theorem spells_append {whole rest : List Char} {e : Int} (hne : whole ≠ [])
    (hwhole : ∀ c ∈ whole, c.isDigit = true) (hrest : Stops Char.isDigit rest)
    (hpoint : Stops (· == '.') rest) (htext : ∀ c ∈ rest, IsTextChar c)
    (he : readExponent? rest = some e) :
    Spells (whole ++ rest) (Decimal.roundBits ⟨digitsValue whole, e⟩) := by
  refine ⟨?_, ?_, _, readDecimal?_append hne hwhole hrest hpoint he, rfl⟩
  · rcases List.exists_cons_of_ne_nil hne with ⟨c, cs, rfl⟩
    exact ⟨c, cs ++ rest, rfl, hwhole c (List.mem_cons_self ..)⟩
  · intro c hc
    rcases List.mem_append.1 hc with hc | hc
    · exact Or.inl (hwhole c hc)
    · exact htext c hc

theorem spells_point {whole fraction rest : List Char} {e : Int} (hne : whole ≠ [])
    (hwhole : ∀ c ∈ whole, c.isDigit = true) (hfraction : ∀ c ∈ fraction, c.isDigit = true)
    (hrest : Stops Char.isDigit rest) (htext : ∀ c ∈ rest, IsTextChar c)
    (he : readExponent? rest = some e) :
    Spells (whole ++ '.' :: (fraction ++ rest))
      (Decimal.roundBits ⟨digitsValue (whole ++ fraction), e - fraction.length⟩) := by
  refine ⟨?_, ?_, _, readDecimal?_point hne hwhole hfraction hrest he, rfl⟩
  · rcases List.exists_cons_of_ne_nil hne with ⟨c, cs, rfl⟩
    exact ⟨c, _, rfl, hwhole c (List.mem_cons_self ..)⟩
  · intro c hc
    rcases List.mem_append.1 hc with hc | hc
    · exact Or.inl (hwhole c hc)
    · rcases List.mem_cons.1 hc with rfl | hc
      · exact Or.inr (Or.inl rfl)
      · rcases List.mem_append.1 hc with hc | hc
        · exact Or.inl (hfraction c hc)
        · exact htext c hc

end Numeral

/-! ## Digits of a decimal -/

namespace Decimal

open Numeral

/-- Zeros at the end may be counted by the exponent. -/
theorem roundBits_mul_pow (n k : Nat) (e : Int) :
    roundBits ⟨n * 10 ^ k, e⟩ = roundBits ⟨n, e + k⟩ := by
  rw [roundBits_eq, roundBits_eq]
  refine nearestBits_congr (denominator_pos _) (denominator_pos _) ?_
  unfold numerator denominator
  dsimp only
  -- Both fractions are written with the same power of ten, whatever the signs of the exponents.
  have hpow : k + e.toNat + (-(e + k)).toNat = (e + k).toNat + (-e).toNat := by omega
  calc
    n * 10 ^ k * 10 ^ e.toNat * 10 ^ (-(e + k)).toNat =
        n * 10 ^ (k + e.toNat + (-(e + k)).toNat) := by
      rw [Nat.pow_add, Nat.pow_add, Nat.mul_assoc, Nat.mul_assoc, Nat.mul_assoc]
    _ = n * 10 ^ (e + k).toNat * 10 ^ (-e).toNat := by
      rw [hpow, Nat.pow_add, Nat.mul_assoc]

theorem eq_append_trailing_zeros (cs : List Char) :
    cs = cs.take (cs.length - (cs.reverse.takeWhile (· == '0')).length) ++
      List.replicate (cs.reverse.takeWhile (· == '0')).length '0' := by
  have hzeros : ∀ c ∈ cs.reverse.takeWhile (· == '0'), c = '0' := fun c hc =>
    beq_iff_eq.1 (List.all_eq_true.1 List.all_takeWhile c hc)
  have hreplicate := List.eq_replicate_of_mem hzeros
  have hsplit : cs = (cs.reverse.dropWhile (· == '0')).reverse ++
      (cs.reverse.takeWhile (· == '0')).reverse := by
    rw [← List.reverse_append, List.takeWhile_append_dropWhile, List.reverse_reverse]
  generalize cs.reverse.takeWhile (· == '0') = zeros at *
  generalize (cs.reverse.dropWhile (· == '0')).reverse = front at *
  rw [hreplicate, List.reverse_replicate] at hsplit
  rw [hsplit, List.length_append, List.length_replicate, Nat.add_sub_cancel, List.take_left]

/-- The digits of a decimal other than zero, the zeros at the end left out. -/
theorem exists_trimmed {d : Decimal} (hd : 0 < d.digits) :
    ∃ ds zeros, d.trimmed = (ds, d.exponent + (zeros : Nat)) ∧ ds ≠ [] ∧
      (∀ c ∈ ds, c.isDigit = true) ∧ ds.length + zeros = (Nat.toDigits 10 d.digits).length ∧
      digitsValue ds * 10 ^ zeros = d.digits := by
  have hdigits : ∀ c ∈ Nat.toDigits 10 d.digits, c.isDigit = true := fun c hc =>
    Nat.isDigit_of_mem_toDigits (by decide) (by decide) hc
  have hvalue := digitsValue_toDigits d.digits
  have hsplit := eq_append_trailing_zeros (Nat.toDigits 10 d.digits)
  refine ⟨_, _, rfl, ?_, ?_, ?_, ?_⟩
  · -- Zeros alone would be the digits of zero.
    intro hnil
    rw [hnil, List.nil_append] at hsplit
    rw [hsplit, ← List.append_nil (List.replicate _ _), digitsValue_zeros_append] at hvalue
    exact Nat.ne_of_lt hd hvalue
  · exact fun c hc => hdigits c (List.mem_of_mem_take hc)
  · have hlength := congrArg List.length hsplit
    rw [List.length_append, List.length_replicate] at hlength
    exact hlength.symm
  · rw [← digitsValue_append_zeros, ← hsplit, hvalue]

theorem roundBits_trimmed {d : Decimal} {ds : List Char} {zeros : Nat}
    (h : digitsValue ds * 10 ^ zeros = d.digits) :
    roundBits ⟨digitsValue ds, d.exponent + zeros⟩ = d.roundBits := by
  rw [← roundBits_mul_pow, h]

/-! ## Layouts -/

theorem isDigit_of_mem_replicate {k : Nat} {c : Char} (h : c ∈ List.replicate k '0') :
    c.isDigit = true := by
  rw [List.eq_of_mem_replicate h]
  rfl

/-- All digits stand before the point, with zeros behind them. -/
theorem spells_zeros_behind {ds : List Char} {e : Int} (hne : ds ≠ [])
    (hdigits : ∀ c ∈ ds, c.isDigit = true) (he : 0 ≤ e) :
    Spells (ds ++ List.replicate e.toNat '0') (roundBits ⟨digitsValue ds, e⟩) := by
  have hwhole : ∀ c ∈ ds ++ List.replicate e.toNat '0', c.isDigit = true :=
    List.forall_mem_append.2 ⟨hdigits, fun _ hc => isDigit_of_mem_replicate hc⟩
  have hspells := spells_append (List.append_ne_nil_of_left_ne_nil hne _) hwhole
    (stops_nil _) (stops_nil _) (List.forall_mem_nil _) rfl
  have hexponent : (0 : Int) + (e.toNat : Int) = e := by omega
  rw [List.append_nil, digitsValue_append_zeros, roundBits_mul_pow, hexponent] at hspells
  exact hspells

/-- The point stands behind the first `k` digits. -/
theorem spells_point_among {ds : List Char} {k : Nat} (hne : ds ≠ [])
    (hdigits : ∀ c ∈ ds, c.isDigit = true) (hk : k ≠ 0) :
    Spells (ds.take k ++ '.' :: ds.drop k)
      (roundBits ⟨digitsValue ds, -((ds.length - k : Nat) : Int)⟩) := by
  have htake : ds.take k ≠ [] := by
    rw [ne_eq, List.take_eq_nil_iff, not_or]
    exact ⟨hk, hne⟩
  have hwhole : ∀ c ∈ ds.take k, c.isDigit = true := fun c hc =>
    hdigits c (List.mem_of_mem_take hc)
  have hfraction : ∀ c ∈ ds.drop k, c.isDigit = true := fun c hc =>
    hdigits c (List.mem_of_mem_drop hc)
  have hspells := spells_point htake hwhole hfraction (stops_nil _) (List.forall_mem_nil _) rfl
  rw [List.append_nil, List.take_append_drop, List.length_drop, Int.zero_sub] at hspells
  exact hspells

/-- All digits stand behind the point, with `k` zeros before them. -/
theorem spells_zeros_before {ds : List Char} (hdigits : ∀ c ∈ ds, c.isDigit = true) (k : Nat) :
    Spells ('0' :: '.' :: (List.replicate k '0' ++ ds))
      (roundBits ⟨digitsValue ds, -((k + ds.length : Nat) : Int)⟩) := by
  have hfraction : ∀ c ∈ List.replicate k '0' ++ ds, c.isDigit = true :=
    List.forall_mem_append.2 ⟨fun _ hc => isDigit_of_mem_replicate hc, hdigits⟩
  have hspells := spells_point (List.cons_ne_nil '0' []) (List.forall_mem_singleton.2 rfl)
    hfraction (stops_nil _) (List.forall_mem_nil _) rfl
  -- The zero before the point is one more zero in front of the digits.
  have hvalue : digitsValue (['0'] ++ (List.replicate k '0' ++ ds)) = digitsValue ds := by
    rw [← List.append_assoc]
    exact digitsValue_zeros_append ds (k + 1)
  rw [List.append_nil, hvalue, List.length_append, List.length_replicate, Int.zero_sub] at hspells
  exact hspells

theorem spells_positional {d : Decimal} (hd : 0 < d.digits) :
    Spells d.positional d.roundBits := by
  rcases exists_trimmed hd with ⟨ds, zeros, htrimmed, hne, hdigits, _, hvalue⟩
  rw [← roundBits_trimmed hvalue]
  unfold positional
  rw [htrimmed]
  generalize d.exponent + (zeros : Int) = e
  dsimp only
  split
  · rename_i he
    exact spells_zeros_behind hne hdigits (by omega)
  · split
    · have hspells := spells_point_among (k := ds.length - (-e).toNat) hne hdigits (by omega)
      have he : -((ds.length - (ds.length - (-e).toNat) : Nat) : Int) = e := by omega
      rw [he] at hspells
      exact hspells
    · have hspells := spells_zeros_before hdigits ((-e).toNat - ds.length)
      have he : -(((-e).toNat - ds.length + ds.length : Nat) : Int) = e := by omega
      rw [he] at hspells
      exact hspells

/-- A number not below one has its leading digit at the units or higher. -/
theorem one_le_of_denominator_le {d : Decimal} (h : d.denominator ≤ d.numerator) :
    1 ≤ d.exponent + (Nat.toDigits 10 d.digits).length := by
  have hlt : d.digits < 10 ^ (Nat.toDigits 10 d.digits).length :=
    (Nat.length_toDigits_le_iff (by decide) Nat.length_toDigits_pos).1 (Nat.le_refl _)
  unfold denominator numerator at h
  have hpow : 10 ^ (-d.exponent).toNat <
      10 ^ ((Nat.toDigits 10 d.digits).length + d.exponent.toNat) := by
    rw [Nat.pow_add]
    exact Nat.lt_of_le_of_lt h (Nat.mul_lt_mul_of_pos_right hlt (Nat.pow_pos (by decide)))
  have hexponents := (Nat.pow_lt_pow_iff_right (by decide)).1 hpow
  omega

theorem isTextChar_of_mem_exponent {n : Nat} {c : Char} (h : c ∈ 'e' :: Nat.toDigits 10 n) :
    IsTextChar c := by
  rcases List.mem_cons.1 h with rfl | h
  · exact Or.inr (Or.inr rfl)
  · exact Or.inl (Nat.isDigit_of_mem_toDigits (by decide) (by decide) h)

/-- The layout with an exponent is read as the number it was made of, if that is not below one. -/
theorem spells_scientific {d : Decimal} (hd : 0 < d.digits) (hone : d.denominator ≤ d.numerator) :
    Spells d.scientific d.roundBits := by
  rcases exists_trimmed hd with ⟨ds, zeros, htrimmed, hne, hdigits, hlength, hvalue⟩
  have hpower := one_le_of_denominator_le hone
  rw [← roundBits_trimmed hvalue]
  unfold scientific
  rw [htrimmed]
  -- The exponent has no sign, because the number is not below one.
  have hnonneg : 0 ≤ d.exponent + (zeros : Int) + (ds.length : Int) - 1 := by omega
  generalize d.exponent + (zeros : Int) = e at *
  dsimp only
  have hexponent := readExponent?_toDigits (e + (ds.length : Int) - 1).natAbs
  have hmark : ∀ cs, Stops Char.isDigit ('e' :: cs) := stops_cons (by decide)
  have hmark' : ∀ cs, Stops (· == '.') ('e' :: cs) := stops_cons (by decide)
  rw [Int.natAbs_of_nonneg hnonneg] at hexponent
  rw [if_neg (Int.not_lt.2 hnonneg), List.nil_append]
  cases ds with
  | nil => exact absurd rfl hne
  | cons c cs =>
      rcases List.forall_mem_cons.1 hdigits with ⟨hc, hrest⟩
      have hlead : ∀ x ∈ [c], x.isDigit = true := List.forall_mem_singleton.2 hc
      cases cs with
      | nil =>
          -- A single digit has no point behind it.
          have hspells := spells_append (List.cons_ne_nil c []) hlead (hmark _) (hmark' _)
            (fun _ hx => isTextChar_of_mem_exponent hx) hexponent
          have he : e + (([c].length : Nat) : Int) - 1 = e := by
            rw [List.length_singleton]
            omega
          rw [he] at hspells
          rw [he]
          exact hspells
      | cons c' cs =>
          have hspells := spells_point (List.cons_ne_nil c []) hlead hrest (hmark _)
            (fun _ hx => isTextChar_of_mem_exponent hx) hexponent
          have he : e + (((c :: c' :: cs).length : Nat) : Int) - 1 -
              (((c' :: cs).length : Nat) : Int) = e := by
            rw [List.length_cons]
            omega
          rw [he] at hspells
          exact hspells

end Decimal

namespace Magnitude

open Numeral

variable {b : Nat}

theorem digits_shortest_pos {m : Magnitude} (hs : 0 < m.significand) : 0 < m.shortest.digits := by
  have hle := le_of_attracts hs (attracts_shortest hs)
  refine Nat.pos_of_ne_zero fun hzero => ?_
  unfold Decimal.numerator at hle
  simp only [hzero, Nat.zero_mul, Nat.mul_zero] at hle
  have hpos : 0 < m.significand * (m.shortest.denominator * 2 ^ m.exponent) :=
    Nat.mul_pos hs (Nat.mul_pos (Decimal.denominator_pos _) (Nat.two_pow_pos _))
  omega

/-- What is large enough to be written with an exponent is not below one. -/
theorem denominator_le_of_isAtLeast {m : Magnitude} (hs : 0 < m.significand)
    (h : m.isAtLeast exponentFrom = true) :
    m.shortest.denominator ≤ m.shortest.numerator := by
  have hle := le_of_attracts hs (attracts_shortest hs)
  have hlarge := of_decide_eq_true h
  have hunits : 0 < 2 ^ 1074 := Nat.two_pow_pos 1074
  unfold exponentFrom at hlarge
  generalize 2 ^ 1074 = units at *
  generalize m.shortest.denominator = den at *
  generalize m.shortest.numerator = num at *
  refine Nat.le_of_mul_le_mul_right ?_ hunits
  -- The number is far above one, and its shortest decimal is at least half of it.
  have hden : 2 * (den * units) ≤ 10 ^ 16 * units * den := by
    rw [Nat.mul_comm den, ← Nat.mul_assoc]
    exact Nat.mul_le_mul_right den (Nat.mul_le_mul_right units (by decide))
  have hscaled : 10 ^ 16 * units * den ≤ m.significand * (den * 2 ^ m.exponent) := by
    rw [Nat.mul_comm den, ← Nat.mul_assoc]
    exact Nat.mul_le_mul_right den hlarge
  omega

theorem roundBits_shortest_ofBits (h : b < Binary64.infinityBits) (hs : 0 < (ofBits b).significand) :
    (ofBits b).shortest.roundBits = b := by
  have hbits := toBits_ofBits b
  rw [roundBits_shortest hs (canonical_ofBits b) (by rw [hbits]; exact h), hbits]

/-- The digits of a finite magnitude, with a point where one is needed, are read as that magnitude. -/
theorem spells_positional (h : b < Binary64.infinityBits) : Spells (ofBits b).positional b := by
  unfold positional
  split
  · -- Zero is written as a digit of its own.
    rename_i hzero
    have hexponent : (ofBits b).exponent = 0 := by
      rcases (canonical_ofBits b).2 with he | he
      · exact he
      · omega
    have hb : b = 0 := by
      rw [← toBits_ofBits b, toBits, hzero, hexponent, Nat.zero_mul]
    rw [hb]
    exact spells_append (List.cons_ne_nil '0' []) (List.forall_mem_singleton.2 rfl) (stops_nil _)
      (stops_nil _) (List.forall_mem_nil _) rfl
  · rename_i hs
    have hpos := Nat.pos_of_ne_zero hs
    have hspells := Decimal.spells_positional (digits_shortest_pos hpos)
    rw [roundBits_shortest_ofBits h hpos] at hspells
    exact hspells

/-- Zero is small. -/
theorem significand_pos_of_isAtLeast {m : Magnitude} (h : m.isAtLeast exponentFrom = true) :
    0 < m.significand := by
  refine Nat.pos_of_ne_zero fun hzero => ?_
  have hlarge := of_decide_eq_true h
  rw [hzero, Nat.zero_mul] at hlarge
  have hunits : 0 < exponentFrom * 2 ^ 1074 :=
    Nat.mul_pos (Nat.pow_pos (by decide)) (Nat.two_pow_pos 1074)
  omega

/-- The text of a finite magnitude is read as that magnitude. -/
theorem spells_compact (h : b < Binary64.infinityBits) : Spells (ofBits b).compact b := by
  unfold compact
  split
  · rename_i hlarge
    have hs := significand_pos_of_isAtLeast hlarge
    have hspells := Decimal.spells_scientific (digits_shortest_pos hs)
      (denominator_le_of_isAtLeast hs hlarge)
    rw [roundBits_shortest_ofBits h hs] at hspells
    exact hspells
  · exact spells_positional h

end Magnitude

namespace Numeral

/-! ## Numerals led by a digit -/

theorem read_of_isDigit {c : Char} (hc : c.isDigit = true) (cs : List Char) :
    read (c :: cs) =
      match readUnsigned? false (c :: cs) with
      | some x => .ok x.toFloat
      | none => .error .malformed := by
  unfold read
  split
  · rename_i heq
    cases (List.cons.inj heq).1
    exact absurd hc (by decide)
  · rename_i heq
    cases (List.cons.inj heq).1
    exact absurd hc (by decide)
  · rfl

theorem readUnsigned?_of_spells {cs : List Char} {b : Nat} (h : Spells cs b) (negative : Bool) :
    readUnsigned? negative cs = some (.ofMagnitudeBits negative b) := by
  rcases h with ⟨_, _, d, hread, rfl⟩
  rw [readUnsigned?, hread]

/-- A text that spells a magnitude is read as the double of that magnitude. -/
theorem read_of_spells {cs : List Char} {b : Nat} (h : Spells cs b) :
    read cs = .ok (Binary64.ofMagnitudeBits false b).toFloat := by
  have hread := readUnsigned?_of_spells h false
  rcases h with ⟨⟨c, rest, rfl, hc⟩, _⟩
  rw [read_of_isDigit hc, hread]

/-- A sign in front of it is read with it. -/
theorem read_neg_of_spells {cs : List Char} {b : Nat} (h : Spells cs b) :
    read ('-' :: cs) = .ok (Binary64.ofMagnitudeBits true b).toFloat := by
  simp only [read, readUnsigned?_of_spells h]

/-- The words for what is not finite start with a letter. -/
theorem readWord?_of_isDigit {c : Char} (hc : c.isDigit = true) (negative : Bool)
    (cs : List Char) : readWord? negative (c :: cs) = none := by
  have hbound : c.val ≤ '9'.val := by
    have hc' := hc
    simp only [Char.isDigit, Bool.and_eq_true, decide_eq_true_eq] at hc'
    exact hc'.2
  have hlower : c.toLower = c := by
    refine dif_neg fun h => ?_
    exact absurd (UInt32.le_trans h.1 hbound) (by decide)
  have hword : ∀ w : Char, ∀ ws, w.isDigit = false → (c :: cs).map Char.toLower ≠ w :: ws := by
    intro w ws hw heq
    rw [List.map_cons, hlower] at heq
    rw [(List.cons.inj heq).1, hw] at hc
    cases hc
  have hinf : (c :: cs).map Char.toLower ≠ "inf".toList := hword 'i' _ rfl
  have hinfinity : (c :: cs).map Char.toLower ≠ "infinity".toList := hword 'i' _ rfl
  have hnan : (c :: cs).map Char.toLower ≠ "nan".toList := hword 'n' _ rfl
  simp only [readWord?, hinf, hinfinity, hnan, or_self, if_false]

/-- What starts with a digit is read as a double without a sign. -/
theorem exists_bits_of_read {c : Char} {cs : List Char} {x : Float} (hc : c.isDigit = true)
    (h : read (c :: cs) = .ok x) : ∃ b, x = (Binary64.ofMagnitudeBits false b).toFloat := by
  rw [read_of_isDigit hc, readUnsigned?] at h
  cases hread : readDecimal? (c :: cs) with
  | some d =>
      rw [hread] at h
      exact ⟨d.roundBits, (Except.ok.inj h).symm⟩
  | none =>
      rw [hread, readWord?_of_isDigit hc] at h
      cases h

end Numeral

end ShiftReduce
