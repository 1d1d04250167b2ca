/-!
# Journal — leveled remarks on a run

A note carries its text as a function, so that recording one costs nothing until it is read.

* `Level.admits`: which notes are shown when a given level is asked for.
-/

namespace ShiftReduce

inductive Level
  | warn
  | debug
  | trace
  deriving DecidableEq, Repr

namespace Level

def name : Level → String
  | .warn => "WARN"
  | .debug => "DEBUG"
  | .trace => "TRACE"

def depth : Level → Nat
  | .warn => 0
  | .debug => 1
  | .trace => 2

/-- Whether notes of level `l` are shown when `threshold` is asked for. -/
def admits (threshold l : Level) : Bool :=
  l.depth ≤ threshold.depth

end Level

/-- A remark: its level and its text, the latter computed when it is asked for. -/
structure Note where
  level : Level
  text : Unit → String

namespace Note

def line (n : Note) : String :=
  n.level.name ++ " " ++ n.text ()

end Note

end ShiftReduce
