import ShiftReduce.Arithmetic.Operator
import ShiftReduce.Load

/-!
# Expressions — trees of arithmetic text

Brackets are nodes of their own, so a tree is written back the way it was read.  Trees can be as
deep as the text is long; what walks them keeps its pending work in a list, and `size` shows that it
ends.
-/

namespace ShiftReduce
namespace Arithmetic

inductive Atom
  | number (value : Float)
  | var (name : String)

inductive Expr
  | atomic (atom : Atom)
  | binary (left : Expr) (op : Operator) (right : Expr)
  | bracketed (inner : Expr)

namespace Expr

def size : Expr → Nat
  | .atomic _ => 1
  | .binary left _ right => left.size + right.size + 1
  | .bracketed inner => inner.size + 1

end Expr

end Arithmetic
end ShiftReduce
