import ShiftReduce.Arithmetic.Expr.Equality
import ShiftReduce.Arithmetic.Expr.Text
import ShiftReduce.Arithmetic.Expr.Value
import ShiftReduce.Token

/-!
# Symbols — what can sit on the parse stack

Terminals are operands, brackets, operators and the end marker.  Nonterminals are expressions and
the root, which is a whole expression.

* `Kind.all`: the kinds in a fixed order.
* `Symbol.isTerminal_eq`: the kind decides whether a symbol is a terminal.
-/

namespace ShiftReduce
namespace Arithmetic

inductive Kind
  | endMark
  | number
  | var
  | bracket (b : Bracket)
  | operator (op : Operator)
  | expression
  | root
  deriving DecidableEq, Repr

namespace Kind

def all : List Kind :=
  [.endMark, .number, .var, .bracket .opening, .bracket .closing, .operator .add, .operator .sub,
    .operator .mul, .operator .div, .expression, .root]

theorem mem_all (k : Kind) : k ∈ all := by
  cases k with
  | bracket b => cases b <;> decide
  | operator op => cases op <;> decide
  | _ => decide

def isTerminal : Kind → Bool
  | .expression | .root => false
  | _ => true

def name : Kind → String
  | .endMark => "End"
  | .number => "Number"
  | .var => "Variable"
  | .bracket .opening => "OpenBracket"
  | .bracket .closing => "CloseBracket"
  | .operator .add => "Add"
  | .operator .sub => "Sub"
  | .operator .mul => "Mul"
  | .operator .div => "Div"
  | .expression => "Expression"
  | .root => "Axiom"

instance : ToString Kind := ⟨name⟩

end Kind

inductive Symbol
  | endMark
  | atom (a : Atom)
  | bracket (b : Bracket)
  | operator (op : Operator)
  | expression (e : Expr)
  | root (e : Expr)

namespace Symbol

def number (value : Float) : Symbol :=
  .atom (.number value)

def var (name : String) : Symbol :=
  .atom (.var name)

def kind : Symbol → Kind
  | .endMark => .endMark
  | .atom (.number _) => .number
  | .atom (.var _) => .var
  | .bracket b => .bracket b
  | .operator op => .operator op
  | .expression _ => .expression
  | .root _ => .root

def isTerminal : Symbol → Bool
  | .expression _ | .root _ => false
  | _ => true

def isEnd : Symbol → Bool
  | .endMark => true
  | _ => false

theorem isTerminal_eq (s : Symbol) : s.isTerminal = s.kind.isTerminal := by
  cases s with
  | atom a => cases a <;> rfl
  | _ => rfl

def text : Symbol → String
  | .endMark => "$"
  | .atom a => a.text
  | .bracket b => b.text
  | .operator op => op.text
  | .expression e | .root e => e.text

def eval (E : Environment) : Symbol → Except EvalError Float
  | .atom a => a.eval E
  | .expression e | .root e => e.eval E
  | s => .error (.notEvaluable s.text)

def copy : Symbol → Symbol
  | .expression e => .expression e.copy
  | .root e => .root e.copy
  | s => s

def root? : Symbol → Option Expr
  | .root e => some e
  | _ => none

def sameAs : Symbol → Symbol → Bool
  | .endMark, .endMark => true
  | .atom a, .atom b => a.sameAs b
  | .bracket b, .bracket b' => b == b'
  | .operator op, .operator op' => op == op'
  | .expression e, .expression e' => e == e'
  | .root e, .root e' => e == e'
  | _, _ => false

instance : BEq Symbol := ⟨sameAs⟩

instance : GrammarSymbol Symbol Kind where
  kind := kind
  isTerminal := isTerminal
  isEnd := isEnd
  text := text

end Symbol

end Arithmetic
end ShiftReduce
