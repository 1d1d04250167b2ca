import ShiftReduce.Proofs.Arithmetic.RoundTrip

/-!
# Canonical trees — the trees that reading can give

A tree is canonical if each operand is one that a text can contain, finite numbers only, and each
operation stands where its precedence puts it.  These are the trees whose text is read as an equal
tree.

* `Expr.Shaped`, `Expr.fits_iff`: precedence, said of a node and its two operands only.
* `Lexes.count_minus`, `countP_minus_le_count`: every minus sign of a text that is read is an operator,
  and no operator is without one.
* `parse_text_iff_canonical`: the text of a tree is read as an equal tree if and only if the tree is
  canonical.
-/

namespace ShiftReduce
namespace Arithmetic

/-! ## Operands -/

/-- A finite number without a sign, or a name made of an ASCII letter and of ASCII letters, digits
and points behind it. -/
def Atom.Canonical : Atom → Prop
  | .number value => value.isFinite = true ∧ value.toBits.toNat < 2 ^ 63
  | .var name => ∃ c rest, name.toList = c :: rest ∧ c.isAlpha = true ∧
      ∀ x ∈ rest, x.isAlphanum = true ∨ x = '.'

theorem Atom.canonical_iff (a : Atom) :
    a.Canonical ↔ a.Readable ∧ (Symbol.atom a).isFinite = true := by
  cases a with
  | var name => simp [Canonical, Readable, Symbol.isFinite, isRunChar]
  | number value =>
      constructor
      · rintro ⟨hfinite, hsign⟩
        refine ⟨⟨value.toBits.toNat, ?_⟩, hfinite⟩
        rw [Binary64.isFinite_iff, Nat.mod_eq_of_lt hsign] at hfinite
        rw [Binary64.toFloat_ofMagnitudeBits, Nat.min_eq_left (Nat.le_of_lt hfinite),
          Binary64.signBits_false, Nat.zero_add, UInt64.ofNat_toNat, Float.ofBits_toBits]
      · rintro ⟨⟨b, rfl⟩, hfinite⟩
        refine ⟨hfinite, ?_⟩
        rw [Binary64.toBits_toFloat, Binary64.signBits_false]
        have hle : min b Binary64.infinityBits ≤ Binary64.infinityBits := Nat.min_le_right _ _
        unfold Binary64.infinityBits at *
        omega

/-! ## Shape -/

theorem Operator.precedence_succ_le_iff (op op' : Operator) :
    op.precedence + 1 ≤ op'.precedence ↔
      (op = .add ∨ op = .sub) ∧ (op' = .mul ∨ op' = .div) := by
  cases op <;> cases op' <;> decide

theorem Operator.precedence_le_iff (op op' : Operator) :
    op.precedence ≤ op'.precedence ↔
      ((op = .mul ∨ op = .div) → ¬(op' = .add ∨ op' = .sub)) := by
  cases op <;> cases op' <;> decide

namespace Expr

def operator? : Expr → Option Operator
  | .binary _ op _ => some op
  | _ => none

/-- The right operand of an operation is no operation, except a product or a quotient behind `+` or
`-`, and the left operand of a product or a quotient is no sum and no difference. -/
def Shaped : Expr → Prop
  | .atomic _ => True
  | .binary left op right =>
      left.Shaped ∧ right.Shaped ∧
      (∀ op', right.operator? = some op' →
        (op = .add ∨ op = .sub) ∧ (op' = .mul ∨ op' = .div)) ∧
      (∀ op', left.operator? = some op' → (op = .mul ∨ op = .div) → ¬(op' = .add ∨ op' = .sub))
  | .bracketed inner => inner.Shaped

theorem fits_iff {e : Expr} {n : Nat} :
    e.Fits n ↔ e.Shaped ∧ ∀ op, e.operator? = some op → n ≤ op.precedence := by
  induction e generalizing n with
  | atomic a => simp [Fits, Shaped, operator?]
  | bracketed inner ih =>
      rw [Fits, ih, Shaped]
      simp only [operator?, reduceCtorEq, false_implies, implies_true, and_true,
        and_iff_left_iff_imp]
      exact fun _ op _ => op.one_le_precedence
  | binary left op right ihl ihr =>
      -- The precedence that a parent asks for is the one that the operator has.
      simp only [Fits, Shaped, ihl, ihr, operator?, Option.some.injEq, forall_eq',
        Operator.precedence_succ_le_iff, Operator.precedence_le_iff op]
      tauto

theorem fits_one_iff {e : Expr} : e.Fits 1 ↔ e.Shaped := by
  rw [fits_iff]
  exact and_iff_left fun op _ => op.one_le_precedence

structure Canonical (e : Expr) : Prop where
  operands : ∀ a, Symbol.atom a ∈ e.symbols → a.Canonical
  shaped : e.Shaped

theorem canonical_iff {e : Expr} :
    e.Canonical ↔ (∀ a, Symbol.atom a ∈ e.symbols → a.Readable) ∧ e.Fits 1 ∧ e.Finite := by
  constructor
  · rintro ⟨hoperands, hshaped⟩
    refine ⟨fun a ha => ((a.canonical_iff).1 (hoperands a ha)).1, fits_one_iff.2 hshaped, ?_⟩
    exact fun value hvalue => ((Atom.canonical_iff _).1 (hoperands _ hvalue)).2
  · rintro ⟨hreadable, hfits, hfinite⟩
    refine ⟨fun a ha => a.canonical_iff.2 ⟨hreadable a ha, ?_⟩, fits_one_iff.1 hfits⟩
    exact finite_iff.1 hfinite _ ha

/-! ## Equal trees -/

/-- Equal trees have equal symbols, one by one. -/
theorem forall₂_symbols_of_sameAs {e e' : Expr} (h : e.sameAs e' = true) :
    List.Forall₂ (fun s s' => (s == s') = true) e.symbols e'.symbols := by
  induction e generalizing e' with
  | atomic a =>
      cases e' with
      | atomic b => exact .cons h .nil
      | _ => cases h
  | binary left op right ihl ihr =>
      cases e' with
      | binary left' op' right' =>
          simp only [sameAs, Bool.and_eq_true] at h
          obtain ⟨⟨hop, hl⟩, hr⟩ := h
          exact List.rel_append (ihl hl) (.cons hop (ihr hr))
      | _ => cases h
  | bracketed inner ih =>
      cases e' with
      | bracketed inner' =>
          have hinner : inner.sameAs inner' = true := h
          exact .cons rfl (List.rel_append (ih hinner) (.cons rfl .nil))
      | _ => cases h

theorem fits_of_sameAs {e e' : Expr} {n : Nat} (h : e.sameAs e' = true) (he : e.Fits n) :
    e'.Fits n := by
  induction e generalizing e' n with
  | atomic a =>
      cases e' with
      | atomic b => trivial
      | _ => cases h
  | binary left op right ihl ihr =>
      cases e' with
      | binary left' op' right' =>
          simp only [sameAs, Bool.and_eq_true, beq_iff_eq] at h
          obtain ⟨⟨rfl, hl⟩, hr⟩ := h
          exact ⟨he.1, ihl hl he.2.1, ihr hr he.2.2⟩
      | _ => cases h
  | bracketed inner ih =>
      cases e' with
      | bracketed inner' =>
          have hinner : inner.sameAs inner' = true := h
          have hfits : inner'.Fits 1 := ih hinner he
          exact hfits
      | _ => cases h

/-- Each operand of a tree equals an operand of an equal tree. -/
theorem exists_atom_of_sameAs {e e' : Expr} (h : e'.sameAs e = true) {a : Atom}
    (ha : Symbol.atom a ∈ e.symbols) :
    ∃ a', Symbol.atom a' ∈ e'.symbols ∧ a'.sameAs a = true := by
  obtain ⟨hlength, hpairs⟩ := List.forall₂_iff_get.1 (forall₂_symbols_of_sameAs h)
  obtain ⟨i, hi⟩ := List.mem_iff_get.1 ha
  have hpair := hpairs i (by rw [hlength]; exact i.2) i.2
  have hmem := List.get_mem e'.symbols ⟨i, by rw [hlength]; exact i.2⟩
  rw [hi] at hpair
  cases hs : e'.symbols.get ⟨i, by rw [hlength]; exact i.2⟩ with
  | atom a' =>
      rw [hs] at hpair hmem
      exact ⟨a', hmem, hpair⟩
  | _ =>
      rw [hs] at hpair
      cases hpair

end Expr

/-! ## Minus signs -/

def Symbol.isMinus : Symbol → Bool
  | .operator .sub => true
  | _ => false

theorem Symbol.isMinus_eq_of_beq {s s' : Symbol} (h : (s == s') = true) :
    s.isMinus = s'.isMinus := by
  cases s with
  | operator op =>
      cases s' with
      | operator op' =>
          have hop : op = op' := beq_iff_eq.1 (show (op == op') = true from h)
          rw [hop]
      | _ => cases h
  | _ =>
      cases s' with
      | operator op' => cases h
      | _ => rfl

/-- Equal trees have the same operators, so they have as many minus signs. -/
theorem Expr.countP_isMinus_of_sameAs {e e' : Expr} (h : e.sameAs e' = true) :
    e.symbols.countP Symbol.isMinus = e'.symbols.countP Symbol.isMinus := by
  have hminus := List.rel_filter
    (fun s s' hs => Bool.eq_iff_iff.1 (Symbol.isMinus_eq_of_beq hs)) (forall₂_symbols_of_sameAs h)
  rw [List.countP_eq_length_filter, List.countP_eq_length_filter]
  exact hminus.length_eq

theorem count_minus_blanks (cs : List Char) : (cs.takeWhile isBlank).count '-' = 0 := by
  refine List.count_eq_zero.2 fun hmem => ?_
  have hblank := List.all_eq_true.1 List.all_takeWhile _ hmem
  exact absurd hblank (by decide)

theorem count_minus_run {c : Char} {run : List Char} (hc : c.isAlphanum = true)
    (hrun : ∀ x ∈ run, isRunChar x = true) : (c :: run).count '-' = 0 := by
  refine List.count_eq_zero.2 fun hmem => ?_
  rcases List.mem_cons.1 hmem with rfl | hmem
  · exact absurd hc (by decide)
  · exact absurd (hrun _ hmem) (by decide)

/-- A lexeme has a minus sign in it only if it is one. -/
theorem Lexeme.Classified.count_minus {cs : List Char} {s : Symbol} (h : Classified cs s) :
    cs.count '-' = if s.isMinus then 1 else 0 := by
  cases h with
  | name hc hrun => exact count_minus_run (by simp [Char.isAlphanum, hc]) hrun
  | numeral hc hrun => exact count_minus_run (by simp [Char.isAlphanum, hc]) hrun
  | bracket b => cases b <;> rfl
  | operator op => cases op <;> rfl

/-- Every minus sign of a text is an operator. -/
theorem Lexes.count_minus {cs : List Char} {ss : List Symbol} (h : Lexes cs ss) :
    cs.count '-' = ss.countP Symbol.isMinus := by
  induction h with
  | @done cs hskip =>
      have hsplit := List.takeWhile_append_dropWhile (p := isBlank) (l := cs)
      rw [← hsplit, hskip, List.append_nil, count_minus_blanks, List.countP_nil]
  | @lexeme cs c rest s ss hskip hclassify htail ih =>
      have hsplit := List.takeWhile_append_dropWhile (p := isBlank) (l := cs)
      rw [← hsplit, hskip, List.count_append, count_minus_blanks, ← Lexeme.split_append c rest,
        List.count_append, (Lexeme.classified_of_classify hclassify).count_minus, ih,
        List.countP_cons, Nat.zero_add, Nat.add_comm]

/-- No symbol has fewer minus signs in its text than it is. -/
theorem Symbol.minus_le_count (s : Symbol) :
    (if s.isMinus then 1 else 0) ≤ s.text.toList.count '-' := by
  cases s with
  | operator op => cases op <;> decide
  | _ => exact Nat.zero_le _

theorem countP_minus_le_count (ss : List Symbol) :
    ss.countP Symbol.isMinus ≤ (ss.flatMap fun s => s.text.toList).count '-' := by
  induction ss with
  | nil => exact Nat.le_refl 0
  | cons s ss ih =>
      rw [List.countP_cons, List.flatMap_cons, List.count_append, Nat.add_comm]
      exact Nat.add_le_add s.minus_le_count ih

theorem Expr.toList_spelling (e : Expr) :
    e.spelling.toList = e.symbols.flatMap fun s => s.text.toList := by
  rw [← text_eq_spelling, text_eq_join, String.toList_join, List.flatMap_map]

/-- Where all minus signs are operators, no operand has one. -/
theorem not_mem_text_of_count {ss : List Symbol}
    (h : (ss.flatMap fun s => s.text.toList).count '-' = ss.countP Symbol.isMinus) :
    ∀ a, Symbol.atom a ∈ ss → '-' ∉ a.text.toList := by
  induction ss with
  | nil => exact fun a ha => absurd ha List.not_mem_nil
  | cons s ss ih =>
      rw [List.countP_cons, List.flatMap_cons, List.count_append] at h
      have hhead := s.minus_le_count
      have htail := countP_minus_le_count ss
      intro a ha
      rcases List.mem_cons.1 ha with rfl | ha
      · have hnone : (if (Symbol.atom a).isMinus then 1 else 0) = 0 := rfl
        have hzero : (Symbol.atom a).text.toList.count '-' = 0 := by omega
        exact List.count_eq_zero.1 hzero
      · exact ih (by omega) a ha

/-! ## Texts of trees -/

/-- The text of negative zero has a minus sign in it. -/
theorem mem_text_neg_zero : '-' ∈ (Atom.number (-0)).text.toList := by
  decide +kernel

theorem readable_zero : (Atom.number 0).Readable :=
  ⟨0, rfl⟩

/-- An operand that equals a readable one and has no minus sign is readable. -/
theorem Atom.readable_of_sameAs {a a' : Atom} (hreadable : a'.Readable)
    (hsame : a'.sameAs a = true) (hminus : '-' ∉ a.text.toList) : a.Readable := by
  cases a' with
  | var name' =>
      cases a with
      | number value => cases hsame
      | var name =>
          have hname : name' = name := beq_iff_eq.1 (show (name' == name) = true from hsame)
          exact hname ▸ hreadable
  | number value' =>
      cases a with
      | var name => cases hsame
      | number value =>
          rcases (Float.beq_iff_ne_nan_and_eq.1 (show (value' == value) = true from hsame)).2.2 with
            rfl | ⟨_, rfl⟩ | ⟨_, rfl⟩
          · exact hreadable
          · exact absurd mem_text_neg_zero hminus
          · exact readable_zero

/-- The operands of a tree whose text is read as an equal tree are readable. -/
theorem readable_of_parse_text {e e' : Expr} (hparse : parse e.text = some e')
    (hsame : e'.sameAs e = true) : ∀ a, Symbol.atom a ∈ e.symbols → a.Readable := by
  have hlexes := (parse_eq_some_iff.1 hparse).1
  -- All minus signs of the text are operators of the one tree, and so of the other.
  have hminus := hlexes.count_minus
  rw [Expr.text_eq_spelling, Expr.toList_spelling, Expr.countP_isMinus_of_sameAs hsame] at hminus
  intro a ha
  obtain ⟨a', ha', hequal⟩ := Expr.exists_atom_of_sameAs hsame ha
  exact Atom.readable_of_sameAs (hlexes.readable a' ha') hequal
    (not_mem_text_of_count hminus a ha)

/-- The text of a tree is read as an equal tree if and only if the tree is canonical. -/
theorem parse_text_iff_canonical (e : Expr) :
    (parse e.text == some e) = true ↔ e.Canonical := by
  rw [Expr.canonical_iff]
  constructor
  · intro h
    cases hparse : parse e.text with
    | none =>
        rw [hparse] at h
        cases h
    | some e' =>
        rw [hparse] at h
        have hbeq : (e' == e) = true := h
        have hsame : e'.sameAs e = true := by rw [← Expr.beq_eq_sameAs, hbeq]
        have hreadable := readable_of_parse_text hparse hsame
        have hfits := Expr.fits_of_sameAs hsame (parse_eq_some_iff.1 hparse).2
        refine ⟨hreadable, hfits, e.reread_beq_iff.1 ?_⟩
        rw [parse_text_of_readable hreadable hfits] at hparse
        rw [Option.some.inj hparse, hbeq]
  · rintro ⟨hreadable, hfits, hfinite⟩
    have hparse := parse_text_of_readable hreadable hfits
    have hbeq := e.reread_beq_iff.2 hfinite
    rw [hparse]
    exact hbeq

end Arithmetic
end ShiftReduce
