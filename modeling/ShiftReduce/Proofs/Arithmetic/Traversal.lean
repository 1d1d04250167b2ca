import ShiftReduce.Arithmetic.Expr.Fold

/-!
# Traversal — the calls of a fold, one after the other

What a fold does at a node may fail, and may depend on all calls before it, by way of a memory that
the calls share.  The fold with its pending work in a list makes the calls of the traversal by
recursion, in the same order and with the same arguments: first those of the left operand, then
those of the right one, then the one of the node.  The first call that fails is the last one.

* `Expr.traverse`: the traversal by recursion, with its calls, its result and the memory it leaves.
* `Algebra.recorded`: the same algebra with its calls written down.
* `Expr.foldM_recorded`, `Expr.foldM_traverse`: the fold by recursion against the traversal.
* `Expr.last_call_decides`: all calls but the last one succeed, and that one has the result.
* `Expr.fold_makes_calls_of_traversal`: the fold with its pending work in a list against both.
-/

namespace ShiftReduce
namespace Arithmetic

/-- Computations that share a memory and can fail; a failure keeps the memory. -/
abbrev Fallible (σ ε : Type) :=
  ExceptT ε (StateM σ)

inductive Algebra.Call (α : Type)
  | leaf (atom : Atom)
  | binary (x : α) (op : Operator) (y : α)
  | bracketed (x : α)

/-- What a traversal does: its calls in order, its result, and the memory that it leaves. -/
structure Traversal (σ ε α : Type) where
  calls : List (Algebra.Call α)
  result : Except ε α
  memory : σ

variable {σ ε α : Type}

namespace Fallible

variable {β : Type}

def outcome (x : Fallible σ ε α) (s : σ) : Except ε α × σ :=
  x.run.run s

/-- The computation of a call, with the call written behind those before it. -/
def noting (c : Algebra.Call β) (x : Fallible σ ε α) : Fallible (σ × List (Algebra.Call β)) ε α :=
  ExceptT.mk fun (s, before) => ((outcome x s).1, (outcome x s).2, before ++ [c])

@[simp] theorem outcome_noting (c : Algebra.Call β) (x : Fallible σ ε α) (s : σ)
    (before : List (Algebra.Call β)) :
    outcome (noting c x) (s, before) = ((outcome x s).1, (outcome x s).2, before ++ [c]) :=
  rfl

/-- A computation goes on only behind one that has not failed. -/
theorem outcome_bind (x : Fallible σ ε α) (f : α → Fallible σ ε β) (s : σ) :
    outcome (x >>= f) s = match outcome x s with
      | (.ok a, s') => outcome (f a) s'
      | (.error err, s') => (.error err, s') := by
  change (x.run >>= ExceptT.bindCont f).run s = _
  rw [StateT.run_bind]
  change ((ExceptT.bindCont f (outcome x s).1).run (outcome x s).2 : Except ε β × σ) = _
  rcases outcome x s with ⟨_ | a, s'⟩ <;> rfl

theorem outcome_map (f : α → β) (x : Fallible σ ε α) (s : σ) :
    outcome (f <$> x) s = ((outcome x s).1.map f, (outcome x s).2) := by
  rw [map_eq_pure_bind, outcome_bind]
  rcases outcome x s with ⟨_ | a, s'⟩ <;> rfl

end Fallible

open Fallible

def Algebra.Call.perform (A : Algebra (Fallible σ ε) α) : Algebra.Call α → Fallible σ ε α
  | .leaf a => A.leaf a
  | .binary x op y => A.binary x op y
  | .bracketed x => A.bracketed x

/-- Calls that succeed, one after the other, and lead from a memory to another. -/
inductive Algebra.Succeed (A : Algebra (Fallible σ ε) α) : List (Algebra.Call α) → σ → σ → Prop
  | nil (s : σ) : A.Succeed [] s s
  | cons {c : Algebra.Call α} {cs : List (Algebra.Call α)} {x : α} {s s₁ s' : σ}
      (first : outcome (c.perform A) s = (.ok x, s₁)) (rest : A.Succeed cs s₁ s') :
      A.Succeed (c :: cs) s s'

/-- All calls before the last one succeed; the result and the memory are those of the last one. -/
def Algebra.EndsWith (A : Algebra (Fallible σ ε) α) (s : σ) (t : Traversal σ ε α) : Prop :=
  ∃ before c s₁, t.calls = before ++ [c] ∧ A.Succeed before s s₁ ∧
    outcome (c.perform A) s₁ = (t.result, t.memory)

section

variable {A : Algebra (Fallible σ ε) α} {cs cs' : List (Algebra.Call α)} {t : Traversal σ ε α}
  {s s₁ s' : σ}

theorem Algebra.Succeed.append (h : A.Succeed cs s s₁) (h' : A.Succeed cs' s₁ s') :
    A.Succeed (cs ++ cs') s s' := by
  induction h with
  | nil => exact h'
  | cons first _ ih => exact .cons first (ih h')

/-- Where there is a value in the end, no call has failed. -/
theorem Algebra.EndsWith.succeed {x : α} (h : A.EndsWith s t) (hx : t.result = .ok x) :
    A.Succeed t.calls s t.memory := by
  obtain ⟨before, c, s₁, hcalls, hbefore, hlast⟩ := h
  rw [hx] at hlast
  exact hcalls ▸ hbefore.append (.cons hlast (.nil _))

theorem Algebra.EndsWith.behind (h : A.EndsWith s₁ t) (hcs : A.Succeed cs s s₁) :
    A.EndsWith s ⟨cs ++ t.calls, t.result, t.memory⟩ := by
  obtain ⟨before, c, s₂, hcalls, hbefore, hlast⟩ := h
  exact ⟨cs ++ before, c, s₂, by rw [hcalls, List.append_assoc], hcs.append hbefore, hlast⟩

end

def Algebra.recorded (A : Algebra (Fallible σ ε) α) :
    Algebra (Fallible (σ × List (Algebra.Call α)) ε) α where
  leaf a := noting (.leaf a) (A.leaf a)
  binary x op y := noting (.binary x op y) (A.binary x op y)
  bracketed x := noting (.bracketed x) (A.bracketed x)

namespace Expr

/-- Traverses a tree by recursion: the left operand, the right operand, then the node itself.
Nothing is called behind a call that fails. -/
def traverse (A : Algebra (Fallible σ ε) α) : Expr → σ → Traversal σ ε α
  | .atomic a, s => ⟨[.leaf a], (outcome (A.leaf a) s).1, (outcome (A.leaf a) s).2⟩
  | .binary left op right, s =>
      let l := left.traverse A s
      match l.result with
      | .error err => ⟨l.calls, .error err, l.memory⟩
      | .ok x =>
          let r := right.traverse A l.memory
          match r.result with
          | .error err => ⟨l.calls ++ r.calls, .error err, r.memory⟩
          | .ok y =>
              let z := outcome (A.binary x op y) r.memory
              ⟨l.calls ++ r.calls ++ [.binary x op y], z.1, z.2⟩
  | .bracketed inner, s =>
      let i := inner.traverse A s
      match i.result with
      | .error err => ⟨i.calls, .error err, i.memory⟩
      | .ok x =>
          let z := outcome (A.bracketed x) i.memory
          ⟨i.calls ++ [.bracketed x], z.1, z.2⟩

variable (A : Algebra (Fallible σ ε) α) (e : Expr) (s : σ)

theorem foldM_traverse :
    outcome (e.foldM A) s = ((e.traverse A s).result, (e.traverse A s).memory) := by
  induction e generalizing s with
  | atomic a => rfl
  | binary left op right ihl ihr =>
      rw [foldM, outcome_bind, ihl, traverse]
      cases (left.traverse A s).result with
      | error err => rfl
      | ok x =>
          simp only [outcome_bind, ihr]
          cases (right.traverse A (left.traverse A s).memory).result <;> rfl
  | bracketed inner ih =>
      rw [foldM, outcome_bind, ih, traverse]
      cases (inner.traverse A s).result <;> rfl

theorem foldM_recorded (before : List (Algebra.Call α)) :
    outcome (e.foldM A.recorded) (s, before) =
      ((e.traverse A s).result, (e.traverse A s).memory, before ++ (e.traverse A s).calls) := by
  induction e generalizing s before with
  | atomic a => rfl
  | binary left op right ihl ihr =>
      rw [foldM, outcome_bind, ihl, traverse]
      cases (left.traverse A s).result with
      | error err => rfl
      | ok x =>
          simp only [outcome_bind, ihr]
          cases (right.traverse A (left.traverse A s).memory).result with
          | error err => simp only [List.append_assoc]
          | ok y => simp only [Algebra.recorded, outcome_noting, List.append_assoc]
  | bracketed inner ih =>
      rw [foldM, outcome_bind, ih, traverse]
      cases (inner.traverse A s).result with
      | error err => rfl
      | ok x => simp only [Algebra.recorded, outcome_noting, List.append_assoc]

theorem last_call_decides : A.EndsWith s (e.traverse A s) := by
  induction e generalizing s with
  | atomic a => exact ⟨[], .leaf a, s, rfl, .nil s, rfl⟩
  | binary left op right ihl ihr =>
      have hleft := ihl s
      rw [traverse]
      cases hl : (left.traverse A s).result with
      | error err =>
          dsimp only
          rw [← hl]
          exact hleft
      | ok x =>
          -- The left operand has a value, so its last call has succeeded as well.
          have hdone := hleft.succeed hl
          have hright := ihr (left.traverse A s).memory
          dsimp only
          cases hr : (right.traverse A (left.traverse A s).memory).result with
          | error err => simpa only [hr] using hright.behind hdone
          | ok y => exact ⟨_, .binary x op y, _, rfl, hdone.append (hright.succeed hr), rfl⟩
  | bracketed inner ih =>
      have hinner := ih s
      rw [traverse]
      cases hi : (inner.traverse A s).result with
      | error err =>
          dsimp only
          rw [← hi]
          exact hinner
      | ok x => exact ⟨_, .bracketed x, _, rfl, hinner.succeed hi, rfl⟩

/-- The fold makes the calls of the traversal by recursion, in its order, up to the first that
fails, whatever the algebra remembers; so copying changes nothing. -/
theorem fold_makes_calls_of_traversal (e : Expr) :
    (∀ {σ ε α : Type} (A : Algebra (Fallible σ ε) α) (s : σ) (before : List (Algebra.Call α)),
      outcome (e.fold? A.recorded) (s, before) =
          ((e.traverse A s).result.map some, (e.traverse A s).memory,
            before ++ (e.traverse A s).calls) ∧
        outcome (e.fold? A) s = ((e.traverse A s).result.map some, (e.traverse A s).memory) ∧
        (outcome (e.fold? A) s).1 ≠ .ok none ∧
        A.EndsWith s (e.traverse A s)) ∧
      (∀ {ε α : Type} (A : Algebra (Except ε) α), e.fold A = e.foldM A) ∧
      e.copy = e := by
  refine ⟨fun A s before => ?_, fun A => fold_eq A e, copy_eq e⟩
  have hfold : outcome (e.fold? A) s =
      ((e.traverse A s).result.map some, (e.traverse A s).memory) := by
    rw [fold?_eq, outcome_map, foldM_traverse]
  refine ⟨by rw [fold?_eq, outcome_map, foldM_recorded], hfold, ?_, last_call_decides A e s⟩
  rw [hfold]
  cases (e.traverse A s).result <;> simp [Except.map]

/-- Gives each call its number, and fails when the numbers are used up. -/
def numbering (limit : Nat) : Algebra (Fallible Nat Nat) Nat where
  leaf _ := ExceptT.mk fun n => (if n < limit then .ok n else .error n, n + 1)
  binary _ _ _ := ExceptT.mk fun n => (if n < limit then .ok n else .error n, n + 1)
  bracketed _ := ExceptT.mk fun n => (if n < limit then .ok n else .error n, n + 1)

/-- The witness numbers the calls of `(a-b)/c`, once all of them and once only two. -/
theorem calls_of_quotient :
    let a := Atom.var "a"
    let b := Atom.var "b"
    let c := Atom.var "c"
    let e := binary (bracketed (binary (atomic a) .sub (atomic b))) .div (atomic c)
    outcome (e.fold? (numbering 9).recorded) (0, []) = (.ok (some 5), 6,
        [.leaf a, .leaf b, .binary 0 .sub 1, .bracketed 2, .leaf c, .binary 3 .div 4]) ∧
      outcome (e.fold? (numbering 2).recorded) (0, []) =
        (.error 2, 3, [.leaf a, .leaf b, .binary 0 .sub 1]) ∧
      (outcome (e.fold? (numbering 9)) 0).1 ≠ .ok none ∧
      e.copy = e := by
  intro a b c e
  obtain ⟨hfold, -, hcopy⟩ := fold_makes_calls_of_traversal e
  obtain ⟨hall, -, hvalue, -⟩ := hfold (numbering 9) 0 []
  obtain ⟨htwo, -⟩ := hfold (numbering 2) 0 []
  exact ⟨hall, htwo, hvalue, hcopy⟩

end Expr

end Arithmetic
end ShiftReduce
