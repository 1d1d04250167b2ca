import ShiftReduce.Arithmetic.Grammar
import ShiftReduce.Arithmetic.Scanner
import ShiftReduce.Machine.Analysis

/-!
# Sessions — reading and evaluating arithmetic text

A session keeps a machine over a text.  Every analysis goes on where the one before it stopped; the
grammar shrinks and the text is finite, so each of them ends.

* `Session.analyze`: everything that is known about a run.
* `parse`: the tree of a text that raises no diagnostic.
* `evaluate`: the value of such a text, or why it has none.
-/

namespace ShiftReduce
namespace Arithmetic

abbrev Automaton (Source : Type) : Type :=
  Machine State Production Symbol Kind Unit Source

abbrev Report : Type :=
  Analysis State Production Symbol Kind

namespace Automaton

variable {Source : Type} [TokenSource Source Symbol] [FiniteSource Source]

def ofSource (source : Source) : Automaton Source :=
  Machine.ofSource source ()

def analyze (mode : ErrorMode) (M : Automaton Source) : Report × Automaton Source :=
  Machine.analyze shrinking mode M

end Automaton

namespace Report

def verdict (A : Report) : Note :=
  ⟨.debug, fun _ =>
    match A.outcome with
    | .accepted s => s!"accepted '{s.text}'"
    | .recovered s => s!"recovered '{s.text}' after {A.diagnostics.length} error(s)"
    | .failed d => s!"failed: {d}"⟩

def notes (A : Report) : List Note :=
  A.events.map (Event.note grammar)

/-- The tree of a run that was accepted without any diagnostic. -/
def tree? (A : Report) : Option Expr :=
  A.result?.bind Symbol.root?

end Report

structure Session where
  mode : ErrorMode
  machine : Automaton Scanner

namespace Session

def ofString (text : String) (mode : ErrorMode) : Session :=
  ⟨mode, .ofSource (.ofString text)⟩

/-- Analyzes the rest of the text and closes the journal with a verdict. -/
def analyze (S : Session) : Report × Session :=
  let (A, M) := S.machine.analyze S.mode
  ({ A with events := A.events ++ [.noted (Report.verdict A)] }, { S with machine := M })

def scannerStats (S : Session) : SourceStats :=
  S.machine.source.stats

def runStats (S : Session) : RunStats :=
  S.machine.stats

end Session

def report (text : String) (mode : ErrorMode) : Report :=
  (Session.ofString text mode).analyze.1

def parse (text : String) : Option Expr :=
  (report text .resync).tree?

/-- The value of a text.  What stops the reading comes first, then anything that had to be thrown
away, then what evaluation fails with. -/
def evaluate (text : String) (E : Environment) : Except Failure Float :=
  let A := report text .resync
  match A.outcome with
  | .failed d => .error (.parse d)
  | .recovered _ => .error (.invalidExpression A.diagnostics)
  | .accepted s =>
      match s.root? with
      | none => .error (.invalidExpression A.diagnostics)
      | some e => (e.eval E).mapError .eval

end Arithmetic
end ShiftReduce
