import ShiftReduce.Proofs.Arithmetic.Juxtaposition
import ShiftReduce.Proofs.Decimal.Double

/-!
# Round trip — the text of a tree is read as that tree

The text of a tree that was read has the lexemes of the tree again: no operand runs into the next
one, and every finite number is written with digits that are read as the same double.  An infinite
number is the exception.  It is written as a word, and a word is a variable.

* `Atom.reread`, `Expr.reread`: a tree with its infinite numbers turned into variables.
* `lexes_spelling`, `parse_text_of_readable`: what the text of a tree is read as.
* `reread_beq_iff`: this is an equal tree if and only if all its numbers are finite.
* `parse_text_round_trip`: the round trip, and what evaluation makes of it.
-/

namespace ShiftReduce
namespace Arithmetic

/-! ## Operands -/

theorem toList_compactText_of_lt {b : Nat} (h : b < Binary64.infinityBits) :
    (compactText (Binary64.ofMagnitudeBits false b).toFloat).toList =
      (Magnitude.ofBits b).compact := by
  have htext : ∀ layout m, (Binary64.finite false m).text layout = layout m := fun _ _ => rfl
  rw [compactText, String.toList_ofList, Binary64.ofFloat_toFloat, Binary64.ofMagnitudeBits,
    if_pos h, htext]

theorem toList_compactText_of_le {b : Nat} (h : Binary64.infinityBits ≤ b) :
    (compactText (Binary64.ofMagnitudeBits false b).toFloat).toList = ['i', 'n', 'f'] := by
  rw [compactText, String.toList_ofList, Binary64.ofFloat_toFloat, Binary64.ofMagnitudeBits,
    if_neg (Nat.not_lt.2 h)]
  rfl

theorem isAlpha_of_isDigit {c : Char} (h : c.isDigit = true) : c.isAlpha = false := by
  rw [Char.isDigit_iff_toNat] at h
  rw [Bool.eq_false_iff, ne_eq, isAlpha_iff_toNat]
  simp only [Char.reduceToNat] at h ⊢
  omega

theorem isRunChar_of_isTextChar {c : Char} (h : Numeral.IsTextChar c) : isRunChar c = true := by
  rcases h with h | rfl | rfl
  · simp [isRunChar, Char.isAlphanum, h]
  · rfl
  · rfl

namespace Atom

def reread : Atom → Atom
  | .number value => if value.isFinite then .number value else .var "inf"
  | .var name => .var name

theorem exists_run {a : Atom} (h : a.Readable) :
    ∃ c run, a.text.toList = c :: run ∧ c.isAlphanum = true ∧
      (∀ x ∈ run, isRunChar x = true) ∧
      Lexeme.classify (c :: run) = some (.atom a.reread) := by
  cases a with
  | var name =>
      rcases h with ⟨c, run, hname, hc, hrun⟩
      refine ⟨c, run, hname, by simp [Char.isAlphanum, hc], hrun, ?_⟩
      rw [Lexeme.classify, if_pos hc, ← hname, String.ofList_toList]
      rfl
  | number value =>
      rcases h with ⟨b, rfl⟩
      have hfinite := Binary64.isFinite_toFloat false b
      -- A finite number has digits for its text; an infinite one has a word, which is a name.
      by_cases hb : b < Binary64.infinityBits
      · have hspells := Magnitude.spells_compact hb
        have htext := toList_compactText_of_lt hb
        have hread := Numeral.read_of_spells hspells
        rcases hspells with ⟨⟨c, run, hcompact, hc⟩, hchars, _⟩
        rw [hcompact] at htext hread hchars
        refine ⟨c, run, htext, by simp [Char.isAlphanum, hc], ?_, ?_⟩
        · exact fun x hx => isRunChar_of_isTextChar (hchars x (List.mem_cons_of_mem c hx))
        · rw [Lexeme.classify, if_neg (by simp [isAlpha_of_isDigit hc]), if_pos hc, hread, reread,
            if_pos (hfinite.2 hb)]
          rfl
      · refine ⟨'i', ['n', 'f'], toList_compactText_of_le (Nat.le_of_not_lt hb), rfl,
          List.forall_mem_cons.2 ⟨rfl, List.forall_mem_singleton.2 rfl⟩, ?_⟩
        rw [reread, if_neg fun h => hb (hfinite.1 h)]
        rfl

end Atom

/-! ## Trees -/

def Symbol.isFinite : Symbol → Bool
  | .atom (.number value) => value.isFinite
  | _ => true

namespace Expr

def reread : Expr → Expr
  | .atomic a => .atomic a.reread
  | .binary left op right => .binary left.reread op right.reread
  | .bracketed inner => .bracketed inner.reread

theorem fits_reread {e : Expr} {n : Nat} (h : e.Fits n) : e.reread.Fits n := by
  induction e generalizing n with
  | atomic a => trivial
  | binary left op right ihl ihr => exact ⟨h.1, ihl h.2.1, ihr h.2.2⟩
  | bracketed inner ih => exact ih h

/-- The text of a tree has the symbols of the tree that it is read as. -/
theorem lexes_spelling {e : Expr} (h : ∀ a, Symbol.atom a ∈ e.symbols → a.Readable) :
    Lexes e.spelling.toList e.reread.symbols := by
  induction e with
  | atomic a =>
      rcases Atom.exists_run (h a (List.mem_singleton.2 rfl)) with
        ⟨c, run, htext, hc, hrun, hclassify⟩
      have hwhole := lexes_run hc hrun hclassify (stops_nil _) (.done rfl)
      rw [List.append_nil] at hwhole
      rw [spelling, htext]
      exact hwhole
  | binary left op right ihl ihr =>
      have hleft : ∀ a, Symbol.atom a ∈ left.symbols → a.Readable := fun a ha =>
        h a (List.mem_append_left _ ha)
      have hright : ∀ a, Symbol.atom a ∈ right.symbols → a.Readable := fun a ha =>
        h a (List.mem_append_right _ (List.mem_cons_of_mem _ ha))
      have hwhole := (ihl hleft).binary op (ihr hright)
      rw [spelling, String.toList_append, String.toList_append, Operator.text,
        String.toList_singleton, List.append_assoc]
      exact hwhole
  | bracketed inner ih =>
      have hinner : ∀ a, Symbol.atom a ∈ inner.symbols → a.Readable := fun a ha =>
        h a (List.mem_cons_of_mem _ (List.mem_append_left _ ha))
      have hwhole := (ih hinner).bracketed
      rw [spelling, String.toList_append, String.toList_append, Bracket.text, Bracket.text,
        String.toList_singleton, String.toList_singleton, List.append_assoc]
      exact hwhole

def Finite (e : Expr) : Prop :=
  ∀ value, Symbol.number value ∈ e.symbols → value.isFinite = true

theorem finite_iff {e : Expr} : e.Finite ↔ ∀ s ∈ e.symbols, s.isFinite = true := by
  constructor
  · intro h s hs
    unfold Symbol.isFinite
    split
    · exact h _ hs
    · rfl
  · exact fun h value hvalue => h _ hvalue

instance (e : Expr) : Decidable e.Finite :=
  decidable_of_iff _ finite_iff.symm

theorem finite_binary_iff {left right : Expr} {op : Operator} :
    (binary left op right).Finite ↔ left.Finite ∧ right.Finite := by
  simp [Finite, symbols, Symbol.number, or_imp, forall_and]

theorem finite_bracketed_iff {inner : Expr} : (bracketed inner).Finite ↔ inner.Finite := by
  simp [Finite, symbols, Symbol.number]

theorem reread_of_finite {e : Expr} (h : e.Finite) : e.reread = e := by
  induction e with
  | atomic a =>
      cases a with
      | number value =>
          have hvalue := h value (List.mem_singleton.2 rfl)
          rw [reread, Atom.reread, if_pos hvalue]
      | var name => rfl
  | binary left op right ihl ihr =>
      rcases finite_binary_iff.1 h with ⟨hl, hr⟩
      rw [reread, ihl hl, ihr hr]
  | bracketed inner ih => rw [reread, ih (finite_bracketed_iff.1 h)]

theorem reread_beq_iff (e : Expr) : (e.reread == e) = true ↔ e.Finite := by
  rw [beq_eq_sameAs]
  induction e with
  | atomic a =>
      cases a with
      | number value =>
          have hatom : (atomic (.number value)).Finite ↔ value.isFinite = true := by
            simp [Finite, symbols, Symbol.number]
          rw [hatom, reread, Atom.reread, sameAs]
          by_cases hvalue : value.isFinite = true
          · rw [if_pos hvalue]
            exact iff_of_true (Binary64.beq_self_of_isFinite hvalue) hvalue
          · rw [if_neg hvalue]
            exact iff_of_false Bool.false_ne_true hvalue
      | var name => simp [reread, Atom.reread, sameAs, Atom.sameAs, Finite, symbols, Symbol.number]
  | binary left op right ihl ihr =>
      rw [finite_binary_iff, reread, sameAs, Bool.and_eq_true, Bool.and_eq_true, ihl, ihr]
      simp
  | bracketed inner ih => rw [finite_bracketed_iff, reread, sameAs, ih]

end Expr

/-- A tree of readable operands that respects precedence is read again, with its infinite numbers
turned into variables. -/
theorem parse_text_of_readable {e : Expr} (hreadable : ∀ a, Symbol.atom a ∈ e.symbols → a.Readable)
    (hfits : e.Fits 1) : parse e.text = some e.reread := by
  rw [parse_eq_some_iff, Expr.text_eq_spelling]
  exact ⟨Expr.lexes_spelling hreadable, Expr.fits_reread hfits⟩

theorem parse_text {text : String} {e : Expr} (h : parse text = some e) :
    parse e.text = some e.reread := by
  rw [parse_eq_some_iff] at h
  exact parse_text_of_readable h.1.readable h.2

/-- The text of a tree that was read is read as an equal tree if and only if all numbers are finite;
then it is the same tree and has the same value. -/
theorem parse_text_round_trip (text : String) (e : Expr) (h : parse text = some e) :
    ∃ e', parse e.text = some e' ∧ ((e' == e) = true ↔ e.Finite) ∧
      (e.Finite → e' = e ∧ ∀ E, evaluate e.text E = evaluate text E) := by
  refine ⟨e.reread, parse_text h, e.reread_beq_iff, ?_⟩
  intro hfinite
  have hsame := Expr.reread_of_finite hfinite
  refine ⟨hsame, fun E => ?_⟩
  have hagain := parse_text h
  rw [hsame] at hagain
  rw [evaluate_of_parse hagain, evaluate_of_parse h]

/-- The witness reads the largest finite double. -/
theorem largest_numeral_round_trip :
    ∃ e, parse "0.1 * (1.7976931348623157e308/x)" = some e ∧ parse e.text = some e := by
  have hfinite : (parse "0.1 * (1.7976931348623157e308/x)").any
      (fun e => decide e.Finite) = true := by
    decide +kernel
  rcases (Option.any_eq_true _ _).1 hfinite with ⟨e, he, hvalues⟩
  rcases parse_text_round_trip _ e he with ⟨e', hparse, _, hsame⟩
  rw [(hsame (of_decide_eq_true hvalues)).1] at hparse
  exact ⟨e, he, hparse⟩

/-- `1e999` is read as infinity, and the text of infinity as a variable. -/
theorem infinite_numeral_becomes_variable :
    parse "1e999" = some (.atomic (.number (Binary64.infinite false).toFloat)) ∧
    Expr.text (.atomic (.number (Binary64.infinite false).toFloat)) = "inf" ∧
    parse "inf" = some (.atomic (.var "inf")) ∧
    ((Expr.atomic (.var "inf") == .atomic (.number (Binary64.infinite false).toFloat)) =
      false) := by
  refine ⟨rfl, by decide +kernel, rfl, ?_⟩
  rw [Expr.beq_eq_sameAs]
  rfl

end Arithmetic
end ShiftReduce
