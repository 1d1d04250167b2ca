import ShiftReduce.Diagnostic
import ShiftReduce.Journal
import ShiftReduce.Token

/-!
# Token sources — a lazily pulled sequence with one token of lookahead

A run never reads characters.  It looks at the next token with `peek`, as often as it likes, and
takes it with `consume` once the token is shifted or given up.

* `TokenSource`: the two operations and the counters of a source.
* `FiniteSource`: sources with a size that every consumed token makes smaller, the end marker
  apart; runs over them can be shown to end.
-/

namespace ShiftReduce

structure SourceStats where
  /-- Characters read. -/
  chars : Nat := 0
  /-- Tokens classified, the end marker included. -/
  tokens : Nat := 0
  deriving DecidableEq, Repr, Inhabited

abbrev Answer (Symbol : Type) : Type :=
  Except Diagnostic (Option (Token Symbol))

/-- An answer with the source as it is afterwards and the notes made on the way. -/
structure Pull (Source Symbol : Type) where
  answer : Answer Symbol
  source : Source
  notes : List Note := []

/-- A sequence of tokens that can be looked at before it is taken. -/
class TokenSource (Source : Type) (Symbol : outParam Type) where
  /-- Reports the next token without removing it; nothing means that none is left. -/
  peek : Source → Pull Source Symbol
  /-- Removes and returns the token that `peek` reports. -/
  consume : Source → Pull Source Symbol
  /-- The counters so far. -/
  stats : Source → SourceStats

/-- A source with a size that looking never enlarges and that taking a token other than the end
marker makes smaller. -/
class FiniteSource (Source : Type) {Symbol Kind : outParam Type} [GrammarSymbol Symbol Kind]
    [TokenSource Source Symbol] where
  size : Source → Nat
  size_peek_le : ∀ s : Source, size (TokenSource.peek s).source ≤ size s
  size_consume_lt : ∀ (s : Source) (t : Token Symbol),
    (TokenSource.peek s).answer = .ok (some t) → GrammarSymbol.isEnd t.symbol = false →
      size (TokenSource.consume (TokenSource.peek s).source).source <
        size (TokenSource.peek s).source

end ShiftReduce
