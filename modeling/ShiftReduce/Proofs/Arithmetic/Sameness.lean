import ShiftReduce.Arithmetic.Expr.Equality
import ShiftReduce.Proofs.Arithmetic.Lexing
import ShiftReduce.Proofs.Decimal.Double

/-!
# Sameness — when trees are equal

Trees are compared pair by pair, with the pairs still to be compared in a list.  The comparison
decides whether the trees have one shape, with the same operators, the same names and equal numbers
in the same places.  What is not a number equals nothing, so that a tree need not equal its copy;
one that was read from a text always does.

* `Expr.Same`: sameness of trees, by their constructors.
* `Expr.beq_iff_same`: the comparison decides it.
* `Expr.same_self_iff`: a tree is the same as itself if its numbers are.
* `Expr.beq_compares_trees`: all of this together.
-/

namespace ShiftReduce

namespace Binary64

variable {x y z : Float}

theorem Equal.symm (h : Equal x y) : Equal y x :=
  (beq_iff_equal y x).1 (BEq.symm ((beq_iff_equal x y).2 h))

theorem Equal.trans (h : Equal x y) (h' : Equal y z) : Equal x z :=
  (beq_iff_equal x z).1 (BEq.trans ((beq_iff_equal x y).2 h) ((beq_iff_equal y z).2 h'))

end Binary64

namespace Arithmetic
namespace Expr

/-- Trees of one shape, with the same operators and names and equal numbers. -/
inductive Same : Expr → Expr → Prop
  | number {x y : Float} (h : Binary64.Equal x y) :
      Same (.atomic (.number x)) (.atomic (.number y))
  | var (name : String) : Same (.atomic (.var name)) (.atomic (.var name))
  | binary {l l' r r' : Expr} (op : Operator) (hl : Same l l') (hr : Same r r') :
      Same (.binary l op r) (.binary l' op r')
  | bracketed {e e' : Expr} (h : Same e e') : Same (.bracketed e) (.bracketed e')

/-! ## What the comparison decides -/

theorem Same.of_sameAs {e e' : Expr} (h : e.sameAs e' = true) : Same e e' := by
  induction e generalizing e' with
  | atomic a =>
      cases e' with
      | atomic b =>
          cases a <;> cases b
          case number.number x y => exact .number ((Binary64.beq_iff_equal x y).1 h)
          case var.var n n' => exact beq_iff_eq.1 (show (n == n') = true from h) ▸ .var n
          all_goals cases h
      | _ => cases h
  | binary l op r ihl ihr =>
      cases e' with
      | binary l' op' r' =>
          simp only [sameAs, Bool.and_eq_true, beq_iff_eq] at h
          obtain ⟨⟨rfl, hl⟩, hr⟩ := h
          exact .binary op (ihl hl) (ihr hr)
      | _ => cases h
  | bracketed e ih =>
      cases e' with
      | bracketed e' => exact .bracketed (ih h)
      | _ => cases h

theorem Same.sameAs {e e' : Expr} (h : Same e e') : e.sameAs e' = true := by
  induction h with
  | number h => exact (Binary64.beq_iff_equal _ _).2 h
  | var name => exact beq_self_eq_true name
  | binary op _ _ ihl ihr => simp [Expr.sameAs, ihl, ihr]
  | bracketed _ ih => exact ih

theorem beq_iff_same (e e' : Expr) : (e == e') = true ↔ Same e e' := by
  rw [beq_eq_sameAs]
  exact ⟨Same.of_sameAs, Same.sameAs⟩

/-! ## Trees and their copies -/

theorem Same.symm {e e' : Expr} (h : Same e e') : Same e' e := by
  induction h with
  | number h => exact .number h.symm
  | var name => exact .var name
  | binary op _ _ ihl ihr => exact .binary op ihl ihr
  | bracketed _ ih => exact .bracketed ih

theorem Same.trans {e e' e'' : Expr} (h : Same e e') (h' : Same e' e'') : Same e e'' := by
  induction h generalizing e'' with
  | number h =>
      cases h' with
      | number h' => exact .number (h.trans h')
  | var name =>
      cases h' with
      | var => exact .var name
  | binary op _ _ ihl ihr =>
      cases h' with
      | binary _ hl hr => exact .binary op (ihl hl) (ihr hr)
  | bracketed _ ih =>
      cases h' with
      | bracketed h' => exact .bracketed (ih h')

theorem same_self_iff (e : Expr) :
    Same e e ↔ ∀ x, Symbol.number x ∈ e.symbols → x.isNaN = false := by
  constructor
  · intro h x hx
    induction e with
    | atomic a =>
        obtain rfl : Atom.number x = a := by simpa [symbols, Symbol.number] using hx
        cases h with
        | number h => exact h.1
    | binary l op r ihl ihr =>
        cases h with
        | binary _ hl hr =>
            simp only [symbols, Symbol.number, List.mem_append, List.mem_cons, reduceCtorEq,
              false_or] at hx
            exact hx.elim (ihl hl) (ihr hr)
    | bracketed e ih =>
        cases h with
        | bracketed h => exact ih h (by simpa [symbols, Symbol.number] using hx)
  · intro h
    induction e with
    | atomic a =>
        cases a with
        | number x =>
            exact .number ((Binary64.equal_self_iff x).2 (h x (List.mem_singleton_self _)))
        | var name => exact .var name
    | binary l op r ihl ihr =>
        exact .binary op (ihl fun x hx => h x (by simp [symbols, hx]))
          (ihr fun x hx => h x (by simp [symbols, hx]))
    | bracketed e ih => exact .bracketed (ih fun x hx => h x (by simp [symbols, hx]))

/-- No numeral is read as what is not a number. -/
theorem isNaN_of_parse {text : String} {e : Expr} (h : parse text = some e) (x : Float)
    (hx : Symbol.number x ∈ e.symbols) : x.isNaN = false := by
  obtain ⟨b, rfl⟩ := (parse_eq_some_iff.1 h).1.readable (.number x) hx
  exact Binary64.isNaN_toFloat false b

/-- Comparison goes by shape, operators, names and double equality; a tree equals its copy unless it
has a number that is none, and no tree that was read has such a number. -/
theorem beq_compares_trees :
    (∀ e e' : Expr, (e == e') = true ↔ Same e e') ∧
      (∀ e e' : Expr, (e == e') = (e' == e)) ∧
      (∀ e e' e'' : Expr, (e == e') = true → (e' == e'') = true → (e == e'') = true) ∧
      (∀ e : Expr, (e == e.copy) = true ↔
        ¬ ∃ x, Symbol.number x ∈ e.symbols ∧ x.isNaN = true) ∧
      ∀ (text : String) (e : Expr), parse text = some e → (e == e.copy) = true := by
  refine ⟨beq_iff_same, fun e e' => ?_, fun e e' e'' h h' => ?_, fun e => ?_, fun text e h => ?_⟩
  · rw [Bool.eq_iff_iff, beq_iff_same, beq_iff_same]
    exact ⟨Same.symm, Same.symm⟩
  · rw [beq_iff_same] at h h' ⊢
    exact h.trans h'
  · rw [copy_eq, beq_iff_same, same_self_iff]
    simp only [not_exists, not_and, Bool.not_eq_true]
  · rw [copy_eq, beq_iff_same, same_self_iff]
    exact isNaN_of_parse h

/-- The witness reads infinity, compares both zeros, and compares the double that is not a number
with its copy. -/
theorem copies_of_numbers :
    (∃ e, parse "(1e999 - x)/0.5" = some e ∧ (e == e.copy) = true) ∧
      (bracketed (atomic (.number 0)) == bracketed (atomic (.number (-0)))) = true ∧
      (bracketed (atomic (.number 0)) == bracketed (atomic (.number 0))) = true ∧
      ((bracketed (atomic (.number Float.nan)) ==
        (bracketed (atomic (.number Float.nan))).copy) = true ↔ False) := by
  obtain ⟨hsame, hsymm, htrans, hcopy, hparse⟩ := beq_compares_trees
  obtain ⟨e, he⟩ : ∃ e, parse "(1e999 - x)/0.5" = some e :=
    Option.isSome_iff_exists.1 (by decide +kernel)
  have hzeros : (bracketed (atomic (.number 0)) == bracketed (atomic (.number (-0)))) = true :=
    (hsame _ _).2 (.bracketed (.number ⟨by decide, by decide, .inr ⟨.inl rfl, .inr rfl⟩⟩))
  refine ⟨⟨e, he, hparse _ e he⟩, hzeros, htrans _ _ _ hzeros ((hsymm _ _).symm.trans hzeros), ?_⟩
  rw [hcopy, iff_false, not_not]
  exact ⟨Float.nan, by simp [symbols, Symbol.number], by decide⟩

end Expr
end Arithmetic
end ShiftReduce
