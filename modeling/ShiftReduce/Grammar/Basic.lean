import ShiftReduce.Diagnostic
import ShiftReduce.Journal
import ShiftReduce.Load
import ShiftReduce.Token

/-!
# Grammars — an action table and the reductions that go with it

The table is fixed.  What a reduction builds may depend on a context that is threaded through the
reductions of a run and of later runs; most grammars have none and take `Unit`.

* `Action`: one cell of a table.
* `Grammar`: start state, table, productions and their reductions.
* `Grammar.Shrinking`: symbol weights by which every reduction makes its right-hand side lighter.
-/

namespace ShiftReduce

/-- One cell of an action table.  For a nonterminal that a reduction has just built, `shift` says
where to go on; no input is read then. -/
inductive Action (State Production : Type)
  | error
  | accept
  | shift (target : State)
  | reduce (production : Production)
  deriving DecidableEq, Repr

/-- What a reduction leaves: the left-hand side or a diagnostic, the context for the next
reduction, and the notes made on the way. -/
structure Reduction (Symbol Context : Type) where
  product : Except Diagnostic Symbol
  context : Context
  notes : List Note := []

/-- A fixed table and its reductions.  `reduce` is given the right-hand side in source order. -/
structure Grammar (State Production Symbol Kind Context : Type) where
  start : State
  action : State → Kind → Action State Production
  /-- The number of symbols on the right-hand side. -/
  size : Production → Nat
  label : Production → String
  reduce : Production → List Symbol → Context → Reduction Symbol Context

namespace Grammar

variable {State Production Symbol Kind Context : Type} [GrammarSymbol Symbol Kind]

/-- Weights below `unit` such that every symbol that a reduction builds is lighter than its
right-hand side, in a table that never shifts an end marker.  With such weights each step of a run
over a finite source makes input and stack lighter together. -/
structure Shrinking (G : Grammar State Production Symbol Kind Context) where
  weight : Symbol → Nat
  unit : Nat
  weight_lt : ∀ s, weight s < unit
  product_lt : ∀ p rhs c s, (G.reduce p rhs c).product = .ok s → weight s < load weight rhs
  end_not_shifted : ∀ (state : State) (s : Symbol) (target : State),
    GrammarSymbol.isEnd s = true → G.action state (GrammarSymbol.kind s) ≠ .shift target

end Grammar

end ShiftReduce
