import ShiftReduce.Text.Span

/-!
# Diagnostics — what can go wrong while tokens are read and arranged

A diagnostic has a kind, a message and, where one is known, a span.  The kind alone decides whether
a run may go on after it.

* `DiagnosticKind.isFatal`: only an unexpected token can be survived.
* `Fault`: the ways in which a table, its reductions and a token source can contradict each other.
-/

namespace ShiftReduce

inductive DiagnosticKind
  | /-- The token source cannot classify its input. -/ tokenize
  | /-- A token has no place in the current state. -/ unexpectedSymbol
  | /-- The end marker arrived while more input was needed. -/ unexpectedEnd
  | /-- The token source ran dry before the run was over. -/ streamExhausted
  | /-- Table, reductions and source contradict each other. -/ internal
  deriving DecidableEq, Repr

namespace DiagnosticKind

def isFatal : DiagnosticKind → Bool
  | .unexpectedSymbol => false
  | _ => true

def heading : DiagnosticKind → String
  | .tokenize => "tokenize error"
  | .unexpectedSymbol => "syntax error"
  | .unexpectedEnd => "syntax error"
  | .streamExhausted => "stream exhausted"
  | .internal => "internal parser error"

end DiagnosticKind

/-! ## Faults -/

/-- A contradiction between a table, its reductions and a token source.  States, kinds and
production labels appear by their names. -/
inductive Fault
  | emptyStateStack
  | nonterminalLookahead (kind : String)
  | lostLookahead
  | stackUnderflow (label : String)
  | acceptDepth (symbols : Nat)
  | terminalProduct (kind : String)
  | missingGoto (state kind : String)
  | shapeMismatch (label : String) (kinds : List String)
  deriving DecidableEq, Repr

namespace Fault

def message : Fault → String
  | .emptyStateStack => "empty state stack"
  | .nonterminalLookahead kind => s!"token source produced nonterminal {kind}"
  | .lostLookahead => "token source lost its lookahead"
  | .stackUnderflow label => s!"stack underflow reducing {label}"
  | .acceptDepth symbols => s!"accept with {symbols} symbols on the stack"
  | .terminalProduct kind => s!"reduction produced terminal {kind}"
  | .missingGoto state kind => s!"no goto from {state} on {kind}"
  | .shapeMismatch label kinds =>
      "cannot reduce " ++ label ++ " from [" ++ String.intercalate ", " kinds ++ "]"

end Fault

/-! ## Diagnostics -/

structure Diagnostic where
  kind : DiagnosticKind
  message : String
  span : Option Span
  deriving DecidableEq, Repr

namespace Diagnostic

def tokenize (lexeme : String) (span : Option Span) : Diagnostic :=
  ⟨.tokenize, s!"unrecognized input '{lexeme}'", span⟩

def unexpected (found : String) (span : Option Span) : Diagnostic :=
  ⟨.unexpectedSymbol, s!"unexpected token '{found}'", span⟩

/-- The end marker where more input was needed; it cannot be skipped. -/
def unexpectedEnd (span : Option Span) : Diagnostic :=
  ⟨.unexpectedEnd, "unexpected end of input", span⟩

def streamExhausted (span : Option Span) : Diagnostic :=
  ⟨.streamExhausted, "no further symbols to interpret", span⟩

/-- A contradiction described in free words; it points nowhere. -/
def internal (message : String) : Diagnostic :=
  ⟨.internal, message, none⟩

def ofFault (f : Fault) : Diagnostic :=
  internal f.message

def isFatal (d : Diagnostic) : Bool :=
  d.kind.isFatal

instance : ToString Diagnostic where
  toString d :=
    d.kind.heading ++ ": " ++ d.message ++
      match d.span with
      | some s => " at " ++ toString s
      | none => ""

end Diagnostic

end ShiftReduce
