import ShiftReduce.Arithmetic.Table

/-!
# The grammar of arithmetic text — the table with its reductions

A reduction builds a tree node from a right-hand side of the right shape and refuses any other.

* `Production.build?`: the left-hand side, where there is one.
* `grammar`: the grammar.
* `shrinking`: terminals weigh 3, expressions 2 and the root 1, so every reduction makes its
  right-hand side lighter and every run over a finite source ends.
-/

namespace ShiftReduce
namespace Arithmetic

namespace Production

/-- The left-hand side that a right-hand side of the right shape is reduced to. -/
def build? : Production → List Symbol → Option Symbol
  | .root, [.expression e] => some (.root e)
  | .number, [.atom (.number value)] => some (.expression (.atomic (.number value)))
  | .var, [.atom (.var name)] => some (.expression (.atomic (.var name)))
  | .binary, [.expression left, .operator op, .expression right] =>
      some (.expression (.binary left op right))
  | .bracketed, [.bracket .opening, .expression inner, .bracket .closing] =>
      some (.expression (.bracketed inner))
  | _, _ => none

def reduce (p : Production) (rhs : List Symbol) : Reduction Symbol Unit :=
  match p.build? rhs with
  | some lhs =>
      { product := .ok lhs
        context := ()
        notes := [⟨.trace, fun _ => p.label ++ " => " ++ lhs.text⟩] }
  | none =>
      { product := .error (.ofFault (.shapeMismatch p.label (rhs.map fun s => s.kind.name)))
        context := () }

end Production

def grammar : Grammar State Production Symbol Kind Unit where
  start := .start
  action := State.action
  size := Production.size
  label := Production.label
  reduce p rhs _ := p.reduce rhs

namespace Symbol

/-- What a symbol weighs on the stack: the less, the further it has been reduced. -/
def weight : Symbol → Nat
  | .root _ => 1
  | .expression _ => 2
  | _ => 3

end Symbol

theorem weight_lt_of_build? {p : Production} {rhs : List Symbol} {s : Symbol}
    (h : p.build? rhs = some s) : s.weight < load Symbol.weight rhs := by
  unfold Production.build? at h
  split at h <;> cases h <;> simp [Symbol.weight]

theorem action_endMark_ne_shift (state target : State) :
    state.action .endMark ≠ .shift target := by
  cases state <;> simp [State.action, State.operand, State.operator]

def shrinking : grammar.Shrinking where
  weight := Symbol.weight
  unit := 4
  weight_lt s := by
    cases s <;> simp [Symbol.weight]
  product_lt p rhs _ s h := by
    simp only [grammar, Production.reduce] at h
    split at h
    · rename_i lhs hbuild
      cases h
      exact weight_lt_of_build? hbuild
    · cases h
  end_not_shifted state s target h := by
    cases s <;> simp [GrammarSymbol.isEnd, Symbol.isEnd] at h
    exact action_endMark_ne_shift state target

end Arithmetic
end ShiftReduce
