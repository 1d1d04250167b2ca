import ShiftReduce.Arithmetic.Symbol
import ShiftReduce.Grammar.Basic

/-!
# The table — sixteen states for arithmetic text

The states serve the grammar

```
Axiom      -> Expression
Expression -> number | variable | ( Expression ) | Expression op Expression
```

A state in which an operand is due shifts a number, a variable or an opening bracket.  After an
operand on the right of an operator, a tighter operator is shifted and everything else reduces, so
`*` and `/` bind tighter than `+` and `-` and operators of equal precedence associate to the left.
A state that follows a whole operand reduces whatever comes next; whether the lookahead fits is
found out in the state that is exposed.

* `State.all`, `State.mem_all`: the sixteen states.
* `State.action`: the table.
-/

namespace ShiftReduce
namespace Arithmetic

/-- The states of the table, named for what has just been read. -/
inductive State
  | start
  | /-- A whole expression at the top level. -/ top
  | /-- An operator; an operand is due. -/ after (op : Operator)
  | /-- An operand on the right of an operator. -/ rhs (op : Operator)
  | number
  | var
  | /-- An opening bracket; an operand is due. -/ opened
  | /-- A whole expression inside brackets. -/ inner
  | closed
  | accepted
  deriving DecidableEq, Repr

namespace State

def all : List State :=
  [.start, .top, .after .add, .after .sub, .after .mul, .after .div, .rhs .add, .rhs .sub,
    .rhs .mul, .rhs .div, .number, .var, .opened, .inner, .closed, .accepted]

theorem mem_all (s : State) : s ∈ all := by
  cases s with
  | after op => cases op <;> decide
  | rhs op => cases op <;> decide
  | _ => decide

def name : State → String
  | .start => "Start"
  | .top => "Top"
  | .after .add => "AfterAdd"
  | .after .sub => "AfterSub"
  | .after .mul => "AfterMul"
  | .after .div => "AfterDiv"
  | .rhs .add => "AddRhs"
  | .rhs .sub => "SubRhs"
  | .rhs .mul => "MulRhs"
  | .rhs .div => "DivRhs"
  | .number => "Number"
  | .var => "Variable"
  | .opened => "Open"
  | .inner => "Inner"
  | .closed => "Close"
  | .accepted => "Accept"

instance : ToString State := ⟨name⟩

end State

inductive Production
  | root
  | number
  | var
  | binary
  | bracketed
  deriving DecidableEq, Repr

namespace Production

def size : Production → Nat
  | .root | .number | .var => 1
  | .binary | .bracketed => 3

def label : Production → String
  | .root => "Axiom -> Expression"
  | .number => "Expression -> number"
  | .var => "Expression -> variable"
  | .binary => "Expression -> Expression op Expression"
  | .bracketed => "Expression -> ( Expression )"

end Production

namespace State

/-- Where an operand is due: a whole expression leads to `goto`. -/
def operand (goto : State) : Kind → Action State Production
  | .number => .shift .number
  | .var => .shift .var
  | .bracket .opening => .shift .opened
  | .expression => .shift goto
  | _ => .error

/-- Where an operator may follow. -/
def operator : Kind → Action State Production
  | .operator op => .shift (.after op)
  | _ => .error

/-- The action in a state for a lookahead, or for a nonterminal that was just built. -/
def action : State → Kind → Action State Production
  | .start, .root => .shift .accepted
  | .start, k => operand .top k
  | .top, .endMark => .reduce .root
  | .top, k => operator k
  | .after op, k => operand (.rhs op) k
  -- Only a tighter operator takes over the right operand.
  | .rhs op, .operator op' =>
      if op.precedence < op'.precedence then .shift (.after op') else .reduce .binary
  | .rhs _, _ => .reduce .binary
  -- A whole operand is reduced whatever follows it.
  | .number, _ => .reduce .number
  | .var, _ => .reduce .var
  | .opened, k => operand .inner k
  | .inner, .bracket .closing => .shift .closed
  | .inner, k => operator k
  | .closed, _ => .reduce .bracketed
  | .accepted, _ => .accept

end State

end Arithmetic
end ShiftReduce
