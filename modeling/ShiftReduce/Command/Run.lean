import ShiftReduce.Arithmetic.Session
import ShiftReduce.Command.Options

/-!
# Running a command — from a request to what is shown

* `Options.run`: evaluates an expression and shows the value, the diagnostics and the counters.
* `run`: the effect of a list of arguments.
-/

namespace ShiftReduce
namespace Command

open Arithmetic

structure Effect where
  status : Nat
  output : String
  errors : String
  deriving DecidableEq, Repr

def unlines (lines : List String) : String :=
  String.join (lines.map (· ++ "\n"))

def scannerLine (s : SourceStats) : String :=
  "LexerStats \x7b chars: " ++ toString s.chars ++ ", tokens: " ++ toString s.tokens ++ " \x7d"

def runLine (s : RunStats) : String :=
  "ParserStats \x7b tokens: " ++ toString s.tokens ++ ", shifts: " ++ toString s.shifts ++
    ", reductions: " ++ toString s.reductions ++ ", gotos: " ++ toString s.gotos ++
    ", discarded: " ++ toString s.discarded ++ " \x7d"

/-- The line that ends a command which failed: what was tried, what went wrong and the causes. -/
def errorLine (messages : List String) : String :=
  "error: " ++ String.intercalate ": " messages

def Options.run (o : Options) : Effect :=
  match Environment.ofArguments o.bindings with
  | .error failure =>
      let line := errorLine ("invalid bindings" :: failure.message :: failure.causes)
      ⟨1, "", unlines [line]⟩
  | .ok E =>
      let mode : ErrorMode := if o.abort then .abort else .resync
      let (A, S) := (Session.ofString o.expression mode).analyze
      let diagnostics := A.diagnostics.map fun d => s!"[Error] {d}"
      let counters := if o.stats then [scannerLine S.scannerStats, runLine S.runStats] else []
      let lines := diagnostics ++ counters
      match A.tree? with
      | none => ⟨1, unlines ["Invalid arithmetic expression!"], unlines lines⟩
      | some e =>
          match e.eval E with
          | .error failure =>
              let line := errorLine [s!"cannot evaluate '{e.text}'", failure.message]
              ⟨1, "", unlines (lines ++ [line])⟩
          | .ok value => ⟨0, unlines [e.text ++ " = " ++ positionalText value], unlines lines⟩

def usage : String :=
  "Usage: lr1 [OPTIONS] <EXPRESSION> [NAME VALUE]..."

def optionLines : List String :=
  ["Options:",
    "      --abort    Stop at the first unexpected token instead of discarding it",
    "      --stats    Print lexer and parser counters to stderr",
    "  -h, --help     Print help",
    "  -V, --version  Print version"]

def run (args : List String) : Effect :=
  match Request.ofArguments args with
  | .run o => o.run
  | .version => ⟨0, unlines ["lr1-calc 0.1.0"], ""⟩
  | .help => ⟨0, unlines (usage :: "" :: optionLines), ""⟩
  | .misuse =>
      ⟨2, "", unlines ["error: invalid arguments", "", usage, "",
        "For more information, try '--help'."]⟩

end Command
end ShiftReduce
