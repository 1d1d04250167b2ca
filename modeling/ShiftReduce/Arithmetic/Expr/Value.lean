import ShiftReduce.Arithmetic.Environment
import ShiftReduce.Arithmetic.Expr.Fold

/-!
# Values of expressions — evaluation in an environment

Operands are evaluated from left to right and the first unbound variable ends the evaluation.

* `Expr.eval_binary`: both operands come before the operator, the left one first.
-/

namespace ShiftReduce
namespace Arithmetic

namespace Atom

def eval (E : Environment) : Atom → Except EvalError Float
  | .number value => .ok value
  | .var name => E.get name

end Atom

/-- What evaluation does at each kind of node; brackets change nothing. -/
def evaluation (E : Environment) : Algebra (Except EvalError) Float where
  leaf := Atom.eval E
  binary x op y := .ok (op.apply x y)
  bracketed x := .ok x

namespace Expr

def eval (E : Environment) (e : Expr) : Except EvalError Float :=
  e.fold (evaluation E)

theorem eval_atomic (E : Environment) (a : Atom) : (atomic a).eval E = a.eval E := by
  simp only [eval, fold_eq, foldM, evaluation]

theorem eval_binary (E : Environment) (left : Expr) (op : Operator) (right : Expr) :
    (binary left op right).eval E = do
      let x ← left.eval E
      let y ← right.eval E
      return op.apply x y := by
  simp only [eval, fold_eq, foldM]
  rfl

theorem eval_bracketed (E : Environment) (inner : Expr) :
    (bracketed inner).eval E = inner.eval E := by
  simp only [eval, fold_eq, foldM]
  cases inner.foldM (evaluation E) <;> rfl

end Expr

end Arithmetic
end ShiftReduce
