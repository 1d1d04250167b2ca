import ShiftReduce.Arithmetic.Expr.Basic

/-!
# Folds — one value for a tree, from the leaves up

An algebra says what to do at each kind of node.  What it does may have effects, such as failing or
counting, and these happen from left to right, a node after its operands.

* `Expr.foldM`: the fold by recursion.
* `Expr.walk`: the fold with its pending work and its finished values in two lists; `none` marks a
  node that finds too few values.
* `Expr.walk_enter`, `Expr.fold?_eq`: the two agree, so no node ever finds too few.
* `Expr.copy_eq`: folding with the constructors gives the tree back.
-/

namespace ShiftReduce
namespace Arithmetic

/-- What a fold does at each kind of node. -/
structure Algebra (m : Type → Type) (α : Type) where
  leaf : Atom → m α
  binary : α → Operator → α → m α
  bracketed : α → m α

/-- A node still to be entered, or one whose operands are done. -/
inductive Visit
  | enter (e : Expr)
  | leave (e : Expr)

namespace Visit

def weight : Visit → Nat
  | .enter e => 2 * e.size
  | .leave _ => 1

end Visit

namespace Expr

variable {m : Type → Type} [Monad m] {α : Type}

def foldM (A : Algebra m α) : Expr → m α
  | .atomic a => A.leaf a
  | .binary left op right => do
      let x ← left.foldM A
      let y ← right.foldM A
      A.binary x op y
  | .bracketed inner => do
      let x ← inner.foldM A
      A.bracketed x

/-- Works off a list of visits; finished values are in the second list, the latest first. -/
def walk (A : Algebra m α) : List Visit → List α → m (Option α)
  | [], values => pure values.head?
  | .enter (.atomic a) :: work, values => do
      let x ← A.leaf a
      walk A work (x :: values)
  | .enter (.binary left op right) :: work, values =>
      walk A (.enter left :: .enter right :: .leave (.binary left op right) :: work) values
  | .enter (.bracketed inner) :: work, values =>
      walk A (.enter inner :: .leave (.bracketed inner) :: work) values
  | .leave (.binary _ op _) :: work, y :: x :: values => do
      let z ← A.binary x op y
      walk A work (z :: values)
  | .leave (.binary _ _ _) :: _, _ => pure none
  | .leave (.bracketed _) :: work, x :: values => do
      let y ← A.bracketed x
      walk A work (y :: values)
  | .leave (.bracketed _) :: _, [] => pure none
  | .leave (.atomic _) :: work, values => walk A work values
termination_by work => load Visit.weight work
decreasing_by
  all_goals
    simp only [load_cons, Visit.weight, size]
    omega

def fold? (A : Algebra m α) (e : Expr) : m (Option α) :=
  walk A [.enter e] []

variable [LawfulMonad m]

/-- Entering a tree computes its fold and goes on with the value on top. -/
theorem walk_enter (A : Algebra m α) (e : Expr) (work : List Visit) (values : List α) :
    walk A (.enter e :: work) values = e.foldM A >>= fun x => walk A work (x :: values) := by
  induction e generalizing work values with
  | atomic a => rw [walk, foldM]
  | binary left op right ihl ihr =>
      rw [walk, ihl]
      simp only [ihr, foldM, bind_assoc]
      simp only [walk]
  | bracketed inner ih =>
      rw [walk, ih]
      simp only [foldM, bind_assoc]
      simp only [walk]

theorem fold?_eq (A : Algebra m α) (e : Expr) : e.fold? A = some <$> e.foldM A := by
  rw [fold?, walk_enter, map_eq_pure_bind]
  simp only [walk, List.head?_cons]

/-- Folds a tree with an algebra that may fail; the first failure ends the fold. -/
def fold {ε : Type} (A : Algebra (Except ε) α) (e : Expr) : Except ε α :=
  match h : e.fold? A with
  | .error err => .error err
  | .ok (some x) => .ok x
  | .ok none => absurd h (by rw [fold?_eq]; cases e.foldM A <;> simp [Functor.map, Except.map])

theorem fold_eq {ε : Type} (A : Algebra (Except ε) α) (e : Expr) : e.fold A = e.foldM A := by
  have h := fold?_eq A e
  unfold fold
  split <;> rename_i hfold <;> rw [hfold] at h <;> cases hrec : e.foldM A <;>
    simp_all [Functor.map, Except.map]

/-! ## Copies -/

def construction : Algebra (Except Empty) Expr where
  leaf a := .ok (.atomic a)
  binary left op right := .ok (.binary left op right)
  bracketed inner := .ok (.bracketed inner)

def copy (e : Expr) : Expr :=
  match e.fold construction with
  | .ok e => e

theorem copy_eq (e : Expr) : e.copy = e := by
  have h : e.foldM construction = .ok e := by
    induction e with
    | atomic a => rfl
    | binary left op right ihl ihr => rw [foldM, ihl, ihr]; rfl
    | bracketed inner ih => rw [foldM, ih]; rfl
  unfold copy
  split
  rename_i hfold
  rw [fold_eq, h] at hfold
  exact (Except.ok.inj hfold).symm

end Expr

end Arithmetic
end ShiftReduce
