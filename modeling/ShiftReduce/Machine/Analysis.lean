import ShiftReduce.Machine.Run

/-!
# Analyses — what a whole run reports

An analysis resets the machine, runs it, and sums up: how the run ended, every diagnostic in order,
the counters and the events.  It leaves a machine with empty stacks over the rest of the source, on
which the next analysis can be made.

* `Outcome`: accepted without a diagnostic, recovered after some, or failed.
* `Machine.analyze`: the analysis of a run that is known to end; `Machine.analyzeWithin` is the one
  for arbitrary grammars.
-/

namespace ShiftReduce

inductive Outcome (Symbol : Type)
  | /-- Accepted without any diagnostic. -/ accepted (symbol : Symbol)
  | /-- Accepted, but only after tokens were thrown away. -/ recovered (symbol : Symbol)
  | /-- Stopped by a diagnostic; no tree is left. -/ failed (error : Diagnostic)
  deriving DecidableEq, Repr

/-- The report on a run.  Diagnostics and events are in the order in which they arose; the
diagnostic that stopped the run, if any, is the last. -/
structure Analysis (State Production Symbol Kind : Type) where
  outcome : Outcome Symbol
  diagnostics : List Diagnostic
  stats : RunStats
  events : List (Event State Production Symbol Kind)

namespace Analysis

variable {State Production Symbol Kind : Type} (A : Analysis State Production Symbol Kind)

/-- The symbol of a run that was accepted without any diagnostic. -/
def result? : Option Symbol :=
  match A.outcome with
  | .accepted s => some s
  | _ => none

def isAccepted : Bool :=
  match A.outcome with
  | .accepted _ => true
  | _ => false

def recovered? : Option Symbol :=
  match A.outcome with
  | .recovered s => some s
  | _ => none

def fatal? : Option Diagnostic :=
  match A.outcome with
  | .failed d => some d
  | _ => none

def shifted : List (Token Symbol) :=
  A.events.filterMap Event.shifted?

def discarded : List (Token Symbol) :=
  A.events.filterMap Event.discarded?

end Analysis

namespace Machine

variable {State Production Symbol Kind Context Source : Type}

def ofSource (source : Source) (context : Context) :
    Machine State Production Symbol Kind Context Source :=
  { source := source, context := context }

/-- Empties stacks, diagnostics and events; source, context and counters stay. -/
def clear (M : Machine State Production Symbol Kind Context Source) :
    Machine State Production Symbol Kind Context Source :=
  { source := M.source, context := M.context, stats := M.stats }

def conclude (r : Result State Production Symbol Kind Context Source) :
    Analysis State Production Symbol Kind × Machine State Production Symbol Kind Context Source :=
  match r with
  | (.ok s, M) =>
      let outcome : Outcome Symbol :=
        if M.diagnostics.isEmpty then .accepted s else .recovered s
      (⟨outcome, M.diagnostics.reverse, M.stats, M.events.reverse⟩, M.clear)
  | (.error d, M) =>
      let M := (M.record (.terminated d)).report d
      (⟨.failed d, M.diagnostics.reverse, M.stats, M.events.reverse⟩, M.clear)

variable [TokenSource Source Symbol] [GrammarSymbol Symbol Kind] [ToString State] [ToString Kind]

def analyzeWithin (G : Grammar State Production Symbol Kind Context) (mode : ErrorMode)
    (fuel : Nat) (M : Machine State Production Symbol Kind Context Source) :
    Option (Analysis State Production Symbol Kind ×
      Machine State Production Symbol Kind Context Source) :=
  (runWithin G mode fuel (M.reset G.start)).map conclude

def analyze [FiniteSource Source] {G : Grammar State Production Symbol Kind Context}
    (W : G.Shrinking) (mode : ErrorMode)
    (M : Machine State Production Symbol Kind Context Source) :
    Analysis State Production Symbol Kind × Machine State Production Symbol Kind Context Source :=
  conclude (run W mode (M.reset G.start))

/-- The two kinds of analysis agree wherever both answer. -/
theorem eq_analyze_of_analyzeWithin [FiniteSource Source]
    {G : Grammar State Production Symbol Kind Context} (W : G.Shrinking) {mode : ErrorMode}
    {fuel : Nat} {M : Machine State Production Symbol Kind Context Source}
    {r : Analysis State Production Symbol Kind ×
      Machine State Production Symbol Kind Context Source}
    (h : analyzeWithin G mode fuel M = some r) : r = analyze W mode M := by
  obtain ⟨result, hrun, rfl⟩ := Option.map_eq_some_iff.1 h
  rw [analyze, eq_run_of_runWithin W hrun]

end Machine

end ShiftReduce
