/-!
# Options — what the arguments of a command ask for

The arguments are an expression and then names with values.  Flags may stand before the first name,
on either side of the expression.  From the first name on every argument belongs to the bindings,
whatever it looks like; so does, after the expression, an unknown argument that begins with a
hyphen.  A lone `--` before the first name makes everything behind it positional.

* `Request.ofArguments`: reads the arguments from the left; what is found first decides.
-/

namespace ShiftReduce
namespace Command

structure Options where
  /-- Stop at the first unexpected token. -/
  abort : Bool
  /-- Show the counters. -/
  stats : Bool
  expression : String
  bindings : List String
  deriving DecidableEq, Repr

inductive Request
  | run (options : Options)
  | help
  | version
  | /-- The arguments make no sense. -/ misuse
  deriving DecidableEq, Repr

inductive Flag
  | abort
  | stats
  | help
  | version
  deriving DecidableEq, Repr

namespace Flag

def ofLongName? (name : List Char) : Option Flag :=
  if name = "abort".toList then some .abort
  else if name = "stats".toList then some .stats
  else if name = "help".toList then some .help
  else if name = "version".toList then some .version
  else none

def ofLetter? : Char → Option Flag
  | 'h' => some .help
  | 'V' => some .version
  | _ => none

end Flag

/-- The shapes of an argument that stands before the first name. -/
inductive Shape
  | /-- A lone `--`. -/ separator
  | /-- A flag without a value. -/ flag (f : Flag)
  | /-- A flag that was given a value. -/ flagWithValue
  | /-- Letters behind one hyphen, the first of them a flag and another unknown. -/
    mixed (f : Flag)
  | /-- Any other argument that begins with a hyphen. -/ unknown
  | plain
  deriving DecidableEq, Repr

namespace Shape

def ofArgument (arg : String) : Shape :=
  match arg.toList with
  | '-' :: '-' :: [] => .separator
  | '-' :: '-' :: rest =>
      let name := rest.takeWhile (· != '=')
      match Flag.ofLongName? name with
      | none => .unknown
      | some f => if name.length < rest.length then .flagWithValue else .flag f
  | '-' :: letter :: letters =>
      match Flag.ofLetter? letter with
      | none => .unknown
      | some f =>
          if letters.all fun c => (Flag.ofLetter? c).isSome then .flag f else .mixed f
  | _ => .plain

end Shape

structure Reading where
  abort : Bool := false
  stats : Bool := false
  expression : Option String := none

namespace Reading

/-- The request when `bindings` is all that is left. -/
def finish (r : Reading) (bindings : List String) : Request :=
  match r.expression with
  | none => .misuse
  | some e => .run ⟨r.abort, r.stats, e, bindings⟩

def positional (r : Reading) (args : List String) : Request :=
  match r.expression, args with
  | none, e :: rest => { r with expression := some e }.finish rest
  | _, args => r.finish args

def read (r : Reading) : List String → Request
  | [] => r.finish []
  | arg :: rest =>
      match Shape.ofArgument arg with
      | .separator => r.positional rest
      | .flag .abort => if r.abort then .misuse else read { r with abort := true } rest
      | .flag .stats => if r.stats then .misuse else read { r with stats := true } rest
      | .flag .help => .help
      | .flag .version => .version
      | .flagWithValue => .misuse
      -- In front of the expression the letters are read one by one, behind it they are a name.
      | .mixed f =>
          if r.expression.isSome then r.finish (arg :: rest)
          else if f = .help then .help
          else .version
      | .unknown => if r.expression.isSome then r.finish (arg :: rest) else .misuse
      | .plain =>
          match r.expression with
          | none => read { r with expression := some arg } rest
          | some _ => r.finish (arg :: rest)

end Reading

namespace Request

def ofArguments (args : List String) : Request :=
  Reading.read {} args

end Request

end Command
end ShiftReduce
