import ShiftReduce.Text.Span

/-!
# Grammar symbols and tokens

A symbol type is whatever can sit on a parse stack: terminals that come from a source, and
nonterminals that reductions build.  A token is a symbol with the span that it covers.
-/

namespace ShiftReduce

/-- What a run needs to know of a symbol: its kind, which is all a table looks at, whether it is a
terminal, whether it marks the end of the input, and its text for diagnostics. -/
class GrammarSymbol (Symbol : Type) (Kind : outParam Type) where
  kind : Symbol → Kind
  isTerminal : Symbol → Bool
  isEnd : Symbol → Bool
  text : Symbol → String

structure Token (Symbol : Type) where
  symbol : Symbol
  span : Option Span := none
  deriving DecidableEq, Repr

namespace Token

variable {Symbol : Type}

def mergeSpan (t : Token Symbol) (span : Option Span) : Token Symbol :=
  { t with span := Span.merge? t.span span }

/-- The span that covers all of a list of tokens, those without a span left out. -/
def coveringSpan (ts : List (Token Symbol)) : Option Span :=
  ts.foldl (fun s t => Span.merge? s t.span) none

end Token

end ShiftReduce
