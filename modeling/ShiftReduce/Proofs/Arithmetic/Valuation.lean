import ShiftReduce.Proofs.Arithmetic.Phrase

/-!
# Valuation — the value of a tree

The value of a tree is that of its operators, applied to the values of their operands, if all of its
variables are bound.  If not, the first that is unbound, as the tree is written, is the reason why there
is none.  Nothing else that an environment binds matters, and no order in which it does.

* `Expr.denote`: the value of a tree whose variables have values, operator by operator.
* `Expr.eval_eq`: evaluation looks for the first unbound variable, and gives the value if there is none.
* `Expr.eval_congr`: environments with the same variables bound to the same values.
* `Expr.eval_reads_text`: all of this together.
-/

namespace ShiftReduce
namespace Arithmetic

/-! ## Unbound variables -/

namespace Environment

/-- The values of the variables; one that is unbound is given some value. -/
def value (E : Environment) (name : String) : Float :=
  (E.find? name).getD 0

theorem find?_eq_value {E : Environment} {name : String} (h : E.contains name = true) :
    E.find? name = some (E.value name) := by
  obtain ⟨v, hv⟩ := Option.isSome_iff_exists.1 h
  rw [value, hv, Option.getD_some]

end Environment

namespace Symbol

def unbound? (E : Environment) : Symbol → Option String
  | .atom (.var name) => if E.contains name then none else some name
  | _ => none

variable {E : Environment} {s : Symbol}

theorem unbound?_eq_some_iff {name : String} :
    s.unbound? E = some name ↔ s = .var name ∧ E.contains name = false := by
  constructor
  · intro h
    unfold unbound? at h
    split at h
    · split at h
      · cases h
      · rename_i hnot
        cases h
        exact ⟨rfl, by simpa using hnot⟩
    · cases h
  · rintro ⟨rfl, hnot⟩
    simp [var, unbound?, hnot]

theorem unbound?_eq_none_iff :
    s.unbound? E = none ↔ ∀ name, s = .var name → E.contains name = true := by
  constructor
  · rintro h name rfl
    cases hcontains : E.contains name with
    | true => rfl
    | false => cases h.symm.trans (unbound?_eq_some_iff.2 ⟨rfl, hcontains⟩)
  · intro h
    rw [Option.eq_none_iff_forall_ne_some]
    intro name hsome
    obtain ⟨rfl, hnot⟩ := unbound?_eq_some_iff.1 hsome
    cases hnot.symm.trans (h name rfl)

end Symbol

/-! ## Values -/

namespace Expr

/-- The value of a tree whose variables have the values `ρ`. -/
def denote (ρ : String → Float) : Expr → Float
  | .atomic (.number value) => value
  | .atomic (.var name) => ρ name
  | .binary left .add right => left.denote ρ + right.denote ρ
  | .binary left .sub right => left.denote ρ - right.denote ρ
  | .binary left .mul right => left.denote ρ * right.denote ρ
  | .binary left .div right => left.denote ρ / right.denote ρ
  | .bracketed inner => inner.denote ρ

theorem denote_binary (ρ : String → Float) (left : Expr) (op : Operator) (right : Expr) :
    (binary left op right).denote ρ = op.apply (left.denote ρ) (right.denote ρ) := by
  cases op <;> rfl

variable {e : Expr} {E E' : Environment}

/-- The first unbound variable is what evaluation fails with; if there is none, it succeeds. -/
theorem eval_eq (E : Environment) (e : Expr) :
    e.eval E = match e.symbols.findSome? (Symbol.unbound? E) with
      | some name => .error (.unbound name)
      | none => .ok (e.denote E.value) := by
  induction e with
  | atomic a =>
      rw [eval_atomic]
      cases a with
      | number value => rfl
      | var name =>
          cases hfind : E.find? name <;>
            simp [Atom.eval, Environment.get, symbols, Symbol.unbound?, Environment.contains, denote,
              Environment.value, hfind]
  | binary left op right ihl ihr =>
      -- What is unbound on the left comes before what is unbound on the right.
      have hoperator : (Symbol.operator op).unbound? E = none := rfl
      rw [eval_binary, ihl, ihr, denote_binary, symbols, List.findSome?_append, List.findSome?_cons,
        hoperator]
      cases left.symbols.findSome? (Symbol.unbound? E) with
      | some name => rfl
      | none => cases right.symbols.findSome? (Symbol.unbound? E) <;> rfl
  | bracketed inner ih =>
      have hbracket : ∀ b, (Symbol.bracket b).unbound? E = none := fun _ => rfl
      simp only [eval_bracketed, ih, symbols, List.findSome?_cons, List.findSome?_append, hbracket,
        List.findSome?_nil, Option.or_none, denote]

theorem eval_eq_unbound_iff {name : String} :
    e.eval E = .error (.unbound name) ↔
      e.symbols.findSome? (Symbol.unbound? E) = some name := by
  rw [eval_eq]
  cases e.symbols.findSome? (Symbol.unbound? E) <;> simp

/-- Evaluation fails on no more than a variable of the tree. -/
theorem exists_unbound {err : EvalError} (h : e.eval E = .error err) :
    ∃ name, err = .unbound name ∧ Symbol.var name ∈ e.symbols := by
  rw [eval_eq] at h
  cases hfirst : e.symbols.findSome? (Symbol.unbound? E) with
  | none =>
      rw [hfirst] at h
      cases h
  | some name =>
      rw [hfirst] at h
      obtain ⟨s, hs, hname⟩ := List.exists_of_findSome?_eq_some hfirst
      obtain ⟨rfl, -⟩ := Symbol.unbound?_eq_some_iff.1 hname
      exact ⟨name, (Except.error.inj h).symm, hs⟩

theorem eval_of_bound (h : ∀ name, Symbol.var name ∈ e.symbols → E.contains name = true) :
    e.eval E = .ok (e.denote E.value) := by
  have hnone : e.symbols.findSome? (Symbol.unbound? E) = none :=
    List.findSome?_eq_none_iff.2 fun s hs =>
      Symbol.unbound?_eq_none_iff.2 fun name hname => h name (hname ▸ hs)
  rw [eval_eq, hnone]

/-- Only the variables of a tree are looked up. -/
theorem eval_congr (h : ∀ name, Symbol.var name ∈ e.symbols → E.find? name = E'.find? name) :
    e.eval E = e.eval E' := by
  induction e with
  | atomic a =>
      rw [eval_atomic, eval_atomic]
      cases a with
      | number value => rfl
      | var name =>
          have hfind := h name (List.mem_singleton_self _)
          simp only [Atom.eval, Environment.get, hfind]
  | binary left op right ihl ihr =>
      have hleft : left.eval E = left.eval E' :=
        ihl fun name hname => h name (List.mem_append_left _ hname)
      have hright : right.eval E = right.eval E' :=
        ihr fun name hname => h name (List.mem_append_right _ (List.mem_cons_of_mem _ hname))
      rw [eval_binary, eval_binary, hleft, hright]
  | bracketed inner ih =>
      rw [eval_bracketed, eval_bracketed]
      exact ih fun name hname => h name (List.mem_cons_of_mem _ (List.mem_append_left _ hname))

/-- Evaluation fails on the first unbound variable of the text and on nothing else; only the
variables of the tree matter. -/
theorem eval_reads_text (e : Expr) (E : Environment) :
    e.text = String.join (e.symbols.map Symbol.text) ∧
    (∀ name, e.eval E = .error (.unbound name) ↔
      ∃ before behind, e.symbols = before ++ .var name :: behind ∧ E.contains name = false ∧
        ∀ name', .var name' ∈ before → E.contains name' = true) ∧
    ((∀ name, .var name ∈ e.symbols → E.contains name = true) →
      ∃ ρ, (∀ name, .var name ∈ e.symbols → E.find? name = some (ρ name)) ∧
        e.eval E = .ok (e.denote ρ)) ∧
    (∀ text, e.eval E ≠ .error (.notEvaluable text)) ∧
    ∀ E' : Environment, (∀ name, .var name ∈ e.symbols → E.find? name = E'.find? name) →
      e.eval E = e.eval E' := by
  refine ⟨e.text_eq_join, fun name => ?_, fun h => ?_, fun text h => ?_, fun E' h => eval_congr h⟩
  · rw [eval_eq_unbound_iff, List.findSome?_eq_some_iff]
    constructor
    · rintro ⟨before, s, behind, hsymbols, hname, hbefore⟩
      obtain ⟨rfl, hnot⟩ := Symbol.unbound?_eq_some_iff.1 hname
      exact ⟨before, behind, hsymbols, hnot, fun name' hname' =>
        Symbol.unbound?_eq_none_iff.1 (hbefore _ hname') name' rfl⟩
    · rintro ⟨before, behind, hsymbols, hnot, hbefore⟩
      exact ⟨before, .var name, behind, hsymbols, Symbol.unbound?_eq_some_iff.2 ⟨rfl, hnot⟩,
        fun s hs => Symbol.unbound?_eq_none_iff.2 fun name' hs' => hbefore name' (hs' ▸ hs)⟩
  · exact ⟨E.value, fun name hname => Environment.find?_eq_value (h name hname), eval_of_bound h⟩
  · obtain ⟨name, herr, -⟩ := exists_unbound h
    cases herr

def halfDifference : Expr :=
  .binary (.bracketed (.binary (.atomic (.var "a")) .sub (.atomic (.var "b")))) .div
    (.atomic (.number 2))

/-- The witness evaluates `(a-b)/2` where `a` is `6` and `b` is `2`, with other bindings around these
or with none, and then where only the left variable is unbound. -/
theorem value_of_halfDifference :
    (∀ name, .var name ∈ halfDifference.symbols →
      (Environment.ofList [("a", 6), ("b", 2)]).contains name = true) ∧
    halfDifference.eval (.ofList [("a", 6), ("b", 2)]) = .ok 2 ∧
    (∀ name, .var name ∈ halfDifference.symbols →
      (Environment.ofList [("a", 6), ("b", 2)]).find? name =
        (Environment.ofList [("x", 1), ("b", 2), ("a", 6)]).find? name) ∧
    halfDifference.eval (.ofList [("x", 1), ("b", 2), ("a", 6)]) = .ok 2 ∧
    halfDifference.eval (.ofList [("b", 2)]) = .error (.unbound "a") := by
  have hnames : ∀ name, .var name ∈ halfDifference.symbols → name = "a" ∨ name = "b" := by
    intro name hname
    simpa [halfDifference, symbols, Symbol.var] using hname
  have hbound : ∀ name, .var name ∈ halfDifference.symbols →
      (Environment.ofList [("a", 6), ("b", 2)]).contains name = true := by
    intro name hname
    rcases hnames name hname with rfl | rfl <;> rfl
  have hsame : ∀ name, .var name ∈ halfDifference.symbols →
      (Environment.ofList [("a", 6), ("b", 2)]).find? name =
        (Environment.ofList [("x", 1), ("b", 2), ("a", 6)]).find? name := by
    intro name hname
    rcases hnames name hname with rfl | rfl <;> rfl
  obtain ⟨-, -, hvalue, -, hcongr⟩ := eval_reads_text halfDifference (.ofList [("a", 6), ("b", 2)])
  have htwo : halfDifference.eval (.ofList [("a", 6), ("b", 2)]) = .ok 2 := by
    obtain ⟨ρ, hρ, heval⟩ := hvalue hbound
    have ha : 6 = ρ "a" := Option.some.inj (hρ "a" (by simp [halfDifference, symbols, Symbol.var]))
    have hb : 2 = ρ "b" := Option.some.inj (hρ "b" (by simp [halfDifference, symbols, Symbol.var]))
    have hdenote : halfDifference.denote ρ = (ρ "a" - ρ "b") / 2 := rfl
    rw [heval, hdenote, ← ha, ← hb]
    rfl
  refine ⟨hbound, htwo, hsame, (hcongr _ hsame).symm.trans htwo, ?_⟩
  refine ((eval_reads_text halfDifference (.ofList [("b", 2)])).2.1 "a").2
    ⟨[.bracket .opening], _, rfl, rfl, ?_⟩
  intro name hname
  simp [Symbol.var] at hname

end Expr

end Arithmetic
end ShiftReduce
