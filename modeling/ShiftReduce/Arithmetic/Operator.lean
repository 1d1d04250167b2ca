/-!
# Operators and brackets — the marks of arithmetic text

* `Operator.ofChar?_eq_some_iff`: each operator has exactly one character.
* `Operator.precedence`: multiplication and division bind tighter than addition and subtraction.
-/

namespace ShiftReduce
namespace Arithmetic

inductive Operator
  | add
  | sub
  | mul
  | div
  deriving DecidableEq, Repr

namespace Operator

def ofChar? : Char → Option Operator
  | '+' => some .add
  | '-' => some .sub
  | '*' => some .mul
  | '/' => some .div
  | _ => none

def toChar : Operator → Char
  | .add => '+'
  | .sub => '-'
  | .mul => '*'
  | .div => '/'

def text (op : Operator) : String :=
  String.singleton op.toChar

def precedence : Operator → Nat
  | .add | .sub => 1
  | .mul | .div => 2

/-- Double arithmetic; a division by zero gives an infinity or no number. -/
def apply : Operator → Float → Float → Float
  | .add, x, y => x + y
  | .sub, x, y => x - y
  | .mul, x, y => x * y
  | .div, x, y => x / y

theorem ofChar?_eq_some_iff {c : Char} {op : Operator} : ofChar? c = some op ↔ c = op.toChar := by
  constructor
  · intro h
    unfold ofChar? at h
    split at h <;> cases h <;> rfl
  · rintro rfl
    cases op <;> rfl

end Operator

inductive Bracket
  | opening
  | closing
  deriving DecidableEq, Repr

namespace Bracket

def toChar : Bracket → Char
  | .opening => '('
  | .closing => ')'

def text (b : Bracket) : String :=
  String.singleton b.toChar

end Bracket

end Arithmetic
end ShiftReduce
