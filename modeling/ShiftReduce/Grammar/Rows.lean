import ShiftReduce.Grammar.Basic

/-!
# Grammars given by rows — states, kinds and symbols by name

A table is a list of rows; the first row that fits a state and a kind decides.  A production either
builds a nonterminal whose text shows what it was built from, or always fails with a message.

* `Pattern.fits`: a pattern fits a kind by its name or, with a wildcard, any kind.
* `Rows.grammar`: the grammar of a start state, rows and productions.
-/

namespace ShiftReduce

structure NamedSymbol where
  kind : String
  text : String
  isTerminal : Bool
  isEnd : Bool := false
  deriving DecidableEq, Repr

instance : GrammarSymbol NamedSymbol String where
  kind := NamedSymbol.kind
  isTerminal := NamedSymbol.isTerminal
  isEnd := NamedSymbol.isEnd
  text := NamedSymbol.text

inductive Build
  | /-- Builds a symbol of this kind, which may wrongly claim to be a terminal. -/
    symbol (kind : String) (isTerminal : Bool)
  | /-- Fails with this message. -/
    failure (message : String)
  deriving DecidableEq, Repr

structure NamedProduction where
  label : String
  size : Nat
  build : Build
  deriving DecidableEq, Repr

namespace NamedProduction

/-- The reduction of a production: texts of the right-hand side go, separated by blanks, between
the brackets of the new symbol's text. -/
def reduce (p : NamedProduction) (rhs : List NamedSymbol) : Except Diagnostic NamedSymbol :=
  match p.build with
  | .failure message => .error (.internal message)
  | .symbol kind isTerminal =>
      .ok {
        kind := kind
        text := kind ++ "(" ++ String.intercalate " " (rhs.map NamedSymbol.text) ++ ")"
        isTerminal := isTerminal }

end NamedProduction

inductive Pattern
  | anyKind
  | kind (name : String)
  deriving DecidableEq, Repr

namespace Pattern

def fits (p : Pattern) (k : String) : Bool :=
  match p with
  | .anyKind => true
  | .kind name => name == k

end Pattern

structure Rule where
  state : String
  pattern : Pattern
  action : Action String NamedProduction
  deriving DecidableEq, Repr

structure Rows where
  start : String
  rules : List Rule

namespace Rows

/-- The action of the first row that fits; an error if none does. -/
def action (R : Rows) (state kind : String) : Action String NamedProduction :=
  match R.rules.find? fun r => r.state == state && r.pattern.fits kind with
  | some r => r.action
  | none => .error

def grammar (R : Rows) : Grammar String NamedProduction NamedSymbol String Unit where
  start := R.start
  action := R.action
  size := NamedProduction.size
  label := NamedProduction.label
  reduce p rhs _ := { product := p.reduce rhs, context := () }

end Rows

end ShiftReduce
