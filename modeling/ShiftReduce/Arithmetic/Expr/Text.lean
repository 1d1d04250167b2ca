import ShiftReduce.Arithmetic.Expr.Basic
import ShiftReduce.Decimal.Layout

/-!
# Expression text — a tree written back

The text of a tree is the texts of its marks and operands from left to right, with nothing between
them.

* `Expr.spelling`: the text by recursion.
* `Expr.text_eq_spelling`: writing piece by piece gives the same text.
-/

namespace ShiftReduce
namespace Arithmetic

namespace Atom

def text : Atom → String
  | .number value => compactText value
  | .var name => name

end Atom

inductive Piece
  | node (e : Expr)
  | operator (op : Operator)
  | bracket (b : Bracket)

namespace Piece

def weight : Piece → Nat
  | .node e => 3 * e.size
  | _ => 1

end Piece

namespace Expr

def write : List Piece → String → String
  | [], text => text
  | .node (.atomic a) :: work, text => write work (text ++ a.text)
  | .node (.binary left op right) :: work, text =>
      write (.node left :: .operator op :: .node right :: work) text
  | .node (.bracketed inner) :: work, text =>
      write (.bracket .opening :: .node inner :: .bracket .closing :: work) text
  | .operator op :: work, text => write work (text ++ op.text)
  | .bracket b :: work, text => write work (text ++ b.text)
termination_by work => load Piece.weight work
decreasing_by
  all_goals
    simp only [load_cons, Piece.weight, size]
    omega

def text (e : Expr) : String :=
  write [.node e] ""

/-- The text of a tree, put together from the texts of its parts. -/
def spelling : Expr → String
  | .atomic a => a.text
  | .binary left op right => left.spelling ++ op.text ++ right.spelling
  | .bracketed inner => Bracket.opening.text ++ inner.spelling ++ Bracket.closing.text

/-- Writing a node appends its spelling. -/
theorem write_node (e : Expr) (work : List Piece) (text : String) :
    write (.node e :: work) text = write work (text ++ e.spelling) := by
  induction e generalizing work text with
  | atomic a => rw [write, spelling]
  | binary left op right ihl ihr =>
      rw [write, ihl, write, ihr, spelling, String.append_assoc, String.append_assoc]
      simp only [String.append_assoc]
  | bracketed inner ih =>
      rw [write, write, ih, write, spelling]
      simp only [String.append_assoc]

theorem text_eq_spelling (e : Expr) : e.text = e.spelling := by
  rw [text, write_node, write, String.empty_append]

theorem text_atomic (a : Atom) : (atomic a).text = a.text := by
  rw [text_eq_spelling, spelling]

theorem text_binary (left : Expr) (op : Operator) (right : Expr) :
    (binary left op right).text = left.text ++ op.text ++ right.text := by
  simp only [text_eq_spelling, spelling]

theorem text_bracketed (inner : Expr) :
    (bracketed inner).text = Bracket.opening.text ++ inner.text ++ Bracket.closing.text := by
  simp only [text_eq_spelling, spelling]

end Expr

end Arithmetic
end ShiftReduce
