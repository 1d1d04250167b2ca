import ShiftReduce.Machine.Event
import ShiftReduce.Source.Basic

/-!
# The machine — two stacks, one lookahead, one step at a time

A machine keeps a stack of states and a stack of tokens, tops first.  While a run is on, the state
stack holds the start state and above it one state for each stacked token.  A step examines the
lookahead, asks the table, and shifts, reduces, accepts or reports an error.

* `Machine`: everything that a run changes.
* `Machine.step`: one round of the loop, which goes on with a machine or halts with a result.
-/

namespace ShiftReduce

/-- What to do with a token for which the table has no action. -/
inductive ErrorMode
  | /-- Report the token, throw it away and go on. -/ resync
  | /-- Stop at the first such token. -/ abort
  deriving DecidableEq, Repr, Inhabited

structure RunStats where
  /-- Lookaheads examined. -/
  tokens : Nat := 0
  shifts : Nat := 0
  reductions : Nat := 0
  /-- States entered on a nonterminal that was just built. -/
  gotos : Nat := 0
  /-- Unexpected tokens thrown away. -/
  discarded : Nat := 0
  deriving DecidableEq, Repr, Inhabited

namespace RunStats

def addToken (s : RunStats) : RunStats :=
  { s with tokens := s.tokens + 1 }

def addShift (s : RunStats) : RunStats :=
  { s with shifts := s.shifts + 1 }

def addReduction (s : RunStats) : RunStats :=
  { s with reductions := s.reductions + 1 }

def addGoto (s : RunStats) : RunStats :=
  { s with gotos := s.gotos + 1 }

def addDiscarded (s : RunStats) : RunStats :=
  { s with discarded := s.discarded + 1 }

end RunStats

/-- The state of a run.  Stacks have their tops first; diagnostics and events have the newest
first. -/
structure Machine (State Production Symbol Kind Context Source : Type) where
  source : Source
  context : Context
  states : List State := []
  tokens : List (Token Symbol) := []
  diagnostics : List Diagnostic := []
  stats : RunStats := {}
  events : List (Event State Production Symbol Kind) := []

/-- How a step ends: with a machine to go on with, or with the result of the run. -/
inductive Step (State Production Symbol Kind Context Source : Type)
  | next (M : Machine State Production Symbol Kind Context Source)
  | halt (result : Except Diagnostic Symbol)
      (M : Machine State Production Symbol Kind Context Source)

namespace Machine

variable {State Production Symbol Kind Context Source : Type}
  (M : Machine State Production Symbol Kind Context Source)

/-! ## Small changes -/

def record (e : Event State Production Symbol Kind) :
    Machine State Production Symbol Kind Context Source :=
  { M with events := e :: M.events }

def recordNotes (notes : List Note) : Machine State Production Symbol Kind Context Source :=
  { M with events := (notes.map Event.noted).reverse ++ M.events }

def tally (f : RunStats → RunStats) : Machine State Production Symbol Kind Context Source :=
  { M with stats := f M.stats }

def push (token : Token Symbol) (state : State) :
    Machine State Production Symbol Kind Context Source :=
  { M with tokens := token :: M.tokens, states := state :: M.states }

def pop (n : Nat) : Machine State Production Symbol Kind Context Source :=
  { M with tokens := M.tokens.drop n, states := M.states.drop n }

/-- Adds a diagnostic that the run survives. -/
def report (d : Diagnostic) : Machine State Production Symbol Kind Context Source :=
  { M with diagnostics := d :: M.diagnostics }

/-- Makes the machine ready for a run that starts in the state `start`; source and context stay. -/
def reset (start : State) : Machine State Production Symbol Kind Context Source :=
  { source := M.source, context := M.context, states := [start] }

def fail (d : Diagnostic) : Step State Production Symbol Kind Context Source :=
  .halt (.error d) M

def fault (f : Fault) : Step State Production Symbol Kind Context Source :=
  M.fail (.ofFault f)

def absorb (pull : Pull Source Symbol) : Machine State Production Symbol Kind Context Source :=
  { M.recordNotes pull.notes with source := pull.source }

/-! ## Work on the stacks -/

/-- Ends the run with the only stacked symbol. -/
def accept : Step State Production Symbol Kind Context Source :=
  let M := M.record .accepted
  match M.tokens with
  | [token] => .halt (.ok token.symbol) { M with tokens := [] }
  | tokens => M.fault (.acceptDepth tokens.length)

section Stacks

variable [GrammarSymbol Symbol Kind] [ToString State] [ToString Kind]
  (G : Grammar State Production Symbol Kind Context)

/-- Pushes a nonterminal that was just built and enters the state to which it leads. -/
def goto (token : Token Symbol) : Step State Production Symbol Kind Context Source :=
  let kind := GrammarSymbol.kind token.symbol
  match M.states with
  | [] => M.fault .emptyStateStack
  | state :: _ =>
      if GrammarSymbol.isTerminal token.symbol then
        M.fault (.terminalProduct (toString kind))
      else
        -- Anything but a shift is a hole in the table.
        match G.action state kind with
        | .shift target =>
            .next (((M.record (.advanced kind target)).push token target).tally .addGoto)
        | _ => M.fault (.missingGoto (toString state) (toString kind))

/-- Pops the right-hand side of `p`, builds its left-hand side, gives it the span that covers what
was popped, and enters the state to which it leads. -/
def reduce (p : Production) : Step State Production Symbol Kind Context Source :=
  let n := G.size p
  let rhs := (M.tokens.take n).reverse
  -- A state has to be left over for the left-hand side to lead on from.
  if rhs.length < n ∨ (M.states.drop n).isEmpty then
    M.fault (.stackUnderflow (G.label p))
  else
    let M := M.record (.reduced p)
    let result := G.reduce p (rhs.map Token.symbol) M.context
    -- The right-hand side is gone even if the reduction fails.
    let M := { (M.pop n).recordNotes result.notes with context := result.context }
    match result.product with
    | .error d => M.fail d
    | .ok symbol => (M.tally .addReduction).goto G ⟨symbol, Token.coveringSpan rhs⟩

end Stacks

/-! ## Work on the source -/

variable [TokenSource Source Symbol]

def peek : Answer Symbol × Machine State Production Symbol Kind Context Source :=
  let pull := TokenSource.peek M.source
  (pull.answer, M.absorb pull)

def consume : Answer Symbol × Machine State Production Symbol Kind Context Source :=
  let pull := TokenSource.consume M.source
  (pull.answer, M.absorb pull)

/-- Moves the lookahead to the stack and enters `target`.  What is pushed is what the source hands
over, which for a faithful source is the lookahead. -/
def shift (lookahead : Token Symbol) (target : State) :
    Step State Production Symbol Kind Context Source :=
  match (M.record (.shifted lookahead target)).consume with
  | (.error d, M) => M.fail d
  | (.ok none, M) => M.fault .lostLookahead
  | (.ok (some token), M) => .next ((M.push token target).tally .addShift)

variable [GrammarSymbol Symbol Kind]

/-- Reports the lookahead, whose span is `span`, and throws it away if the mode and its kind allow
it.  The source is asked for the lookahead once more. -/
def reject (mode : ErrorMode) (state : State) (span : Option Span) :
    Step State Production Symbol Kind Context Source :=
  match M.peek with
  | (.error d, M) => M.fail d
  | (.ok none, M) => M.fail (.streamExhausted span)
  | (.ok (some token), M) =>
      if GrammarSymbol.isEnd token.symbol then
        M.fail (.unexpectedEnd span)
      else
        let error := Diagnostic.unexpected (GrammarSymbol.text token.symbol) span
        match mode with
        | .abort => M.fail error
        | .resync =>
            match ((M.record (.discarded token error state)).report error).consume with
            | (.error d, M) => M.fail d
            -- A source that has lost the token meanwhile is left to the next step.
            | (.ok _, M) => .next (M.tally .addDiscarded)

/-! ## One step -/

variable [ToString State] [ToString Kind] (G : Grammar State Production Symbol Kind Context)

def examine (mode : ErrorMode) (state : State) (token : Token Symbol) :
    Step State Production Symbol Kind Context Source :=
  let M := (M.record (.examined M.states M.tokens token)).tally .addToken
  match G.action state (GrammarSymbol.kind token.symbol) with
  | .shift target => M.shift token target
  | .reduce p => M.reduce G p
  | .accept => M.accept
  | .error => M.reject mode state token.span

/-- One round: the top state and the lookahead decide what to do. -/
def step (mode : ErrorMode) : Step State Production Symbol Kind Context Source :=
  match M.states with
  | [] => M.fault .emptyStateStack
  | state :: _ =>
      match M.peek with
      | (.error d, M) => M.fail d
      | (.ok none, M) =>
          M.fail (.streamExhausted (M.tokens.head?.bind Token.span))
      | (.ok (some token), M) =>
          if GrammarSymbol.isTerminal token.symbol then
            M.examine G mode state token
          else
            M.fault (.nonterminalLookahead (toString (GrammarSymbol.kind token.symbol)))

end Machine

end ShiftReduce
