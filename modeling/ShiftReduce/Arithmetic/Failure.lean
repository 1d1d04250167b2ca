import ShiftReduce.Decimal.Numeral
import ShiftReduce.Diagnostic

/-!
# Failures — why an expression has no value

* `EvalError`: what the evaluation of a tree can fail with.
* `Failure`: that, what reading can fail with, and faults in the arguments that bind variables.
* `Failure.causes`: the messages of the errors behind a failure.
-/

namespace ShiftReduce
namespace Arithmetic

inductive EvalError
  | /-- A variable has no binding. -/ unbound (name : String)
  | /-- A bracket, a bare operator or the end marker was asked for a value. -/
    notEvaluable (text : String)
  deriving DecidableEq, Repr

namespace EvalError

def message : EvalError → String
  | .unbound name => s!"unbound variable '{name}'"
  | .notEvaluable text => s!"symbol '{text}' has no value"

end EvalError

/-- Why the way from arguments and text to a value was not completed. -/
inductive Failure
  | /-- A diagnostic stopped the reading. -/ parse (error : Diagnostic)
  | /-- The tree has no value. -/ eval (error : EvalError)
  | /-- A tree was recovered, but not all of the text went into it. -/
    invalidExpression (diagnostics : List Diagnostic)
  | /-- The last name has no value. -/ missingValue (name : String)
  | /-- The value given for a name is not a numeral. -/
    invalidValue (name : String) (error : NumeralError)
  deriving DecidableEq, Repr

namespace Failure

def message : Failure → String
  | .parse error => s!"parse error: {error}"
  | .eval error => s!"evaluation error: {error.message}"
  | .invalidExpression diagnostics =>
      s!"invalid arithmetic expression ({diagnostics.length} error(s))"
  | .missingValue name => s!"no value given for '{name}'"
  | .invalidValue name error => s!"value for '{name}' is not a number: {error.message}"

def causes : Failure → List String
  | .parse error => [toString error]
  | .eval error => [error.message]
  | .invalidExpression _ => []
  | .missingValue _ => []
  | .invalidValue _ error => [error.message]

end Failure

end Arithmetic
end ShiftReduce
