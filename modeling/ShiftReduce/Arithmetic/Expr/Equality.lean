import ShiftReduce.Arithmetic.Expr.Basic

/-!
# Equality of expressions — same shape, equal operands

Numbers are compared as doubles are: zero equals negative zero, and what is not a number equals
nothing, so a tree need not equal itself.

* `Expr.agree`: compares the pairs of a list, children joining the list.
* `Expr.sameAs`: the comparison by recursion; `Expr.beq_eq_sameAs` relates the two.
-/

namespace ShiftReduce
namespace Arithmetic

namespace Atom

def sameAs : Atom → Atom → Bool
  | .number x, .number y => x == y
  | .var x, .var y => x == y
  | _, _ => false

end Atom

namespace Expr

/-- Whether the trees of every pair in a list are equal. -/
def agree : List (Expr × Expr) → Bool
  | [] => true
  | (.atomic a, .atomic b) :: work => a.sameAs b && agree work
  | (.binary l op r, .binary l' op' r') :: work =>
      op == op' && agree ((l, l') :: (r, r') :: work)
  | (.bracketed e, .bracketed e') :: work => agree ((e, e') :: work)
  | _ => false
termination_by work => load (fun p => p.1.size) work
decreasing_by
  all_goals
    simp only [load_cons, size]
    omega

instance : BEq Expr where
  beq e e' := agree [(e, e')]

def sameAs : Expr → Expr → Bool
  | .atomic a, .atomic b => a.sameAs b
  | .binary l op r, .binary l' op' r' => op == op' && l.sameAs l' && r.sameAs r'
  | .bracketed e, .bracketed e' => e.sameAs e'
  | _, _ => false

theorem agree_cons (e e' : Expr) (work : List (Expr × Expr)) :
    agree ((e, e') :: work) = (e.sameAs e' && agree work) := by
  induction e generalizing e' work with
  | atomic a => cases e' <;> simp [agree, sameAs]
  | binary l op r ihl ihr =>
      cases e' with
      | binary l' op' r' => rw [agree, ihl, ihr, sameAs, Bool.and_assoc, Bool.and_assoc]
      | _ => simp [agree, sameAs]
  | bracketed e ih =>
      cases e' with
      | bracketed e' => rw [agree, ih, sameAs]
      | _ => simp [agree, sameAs]

theorem beq_eq_sameAs (e e' : Expr) : (e == e') = e.sameAs e' := by
  simp only [BEq.beq, agree_cons, agree, Bool.and_true]

end Expr

end Arithmetic
end ShiftReduce
