import ShiftReduce.Command.Run

/-!
# The command line
-/

def main (args : List String) : IO UInt32 := do
  let effect := ShiftReduce.Command.run args
  IO.print effect.output
  IO.eprint effect.errors
  return effect.status.toUInt32
