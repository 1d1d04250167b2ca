import ShiftReduce.Decimal.Rounding

/-!
# Numerals — reading a double

A numeral is an optional sign and then either digits with an optional point, at least one digit on
one side of it, and an optional exponent, or one of the words `inf`, `infinity` and `nan` in any
mixture of cases.  Its value is the nearest double.

* `Numeral.read`: the double of a numeral, or why there is none.
-/

namespace ShiftReduce

inductive NumeralError
  | empty
  | malformed
  deriving DecidableEq, Repr

namespace NumeralError

def message : NumeralError → String
  | .empty => "cannot parse float from empty string"
  | .malformed => "invalid float literal"

end NumeralError

namespace Numeral

def digitsValue (ds : List Char) : Nat :=
  ds.foldl (fun n c => 10 * n + (c.toNat - '0'.toNat)) 0

def readDigits? (cs : List Char) : Option Nat :=
  if cs.isEmpty || !cs.all Char.isDigit then none else some (digitsValue cs)

/-- Reads an exponent that takes up a whole text; an empty text is the exponent zero. -/
def readExponent? : List Char → Option Int
  | [] => some 0
  | c :: cs =>
      if c = 'e' ∨ c = 'E' then
        match cs with
        | '+' :: ds => (readDigits? ds).map fun n => (n : Int)
        | '-' :: ds => (readDigits? ds).map fun n => -(n : Int)
        | ds => (readDigits? ds).map fun n => (n : Int)
      else
        none

/-- The digits after a point, if one comes first, and what follows them. -/
def splitFraction : List Char → List Char × List Char
  | '.' :: cs => (cs.takeWhile Char.isDigit, cs.dropWhile Char.isDigit)
  | cs => ([], cs)

def readDecimal? (cs : List Char) : Option Decimal :=
  let whole := cs.takeWhile Char.isDigit
  let (fraction, rest) := splitFraction (cs.dropWhile Char.isDigit)
  if whole.isEmpty && fraction.isEmpty then
    none
  else
    -- Reading the fraction as part of the whole number shifts the exponent.
    (readExponent? rest).map fun e => ⟨digitsValue (whole ++ fraction), e - fraction.length⟩

def readWord? (negative : Bool) (cs : List Char) : Option Binary64 :=
  let word := cs.map Char.toLower
  if word = "inf".toList ∨ word = "infinity".toList then some (.infinite negative)
  else if word = "nan".toList then some .nan
  else none

def readUnsigned? (negative : Bool) (cs : List Char) : Option Binary64 :=
  match readDecimal? cs with
  | some d => some (.ofMagnitudeBits negative d.roundBits)
  | none => readWord? negative cs

def read (cs : List Char) : Except NumeralError Float :=
  let result :=
    match cs with
    | '-' :: rest => readUnsigned? true rest
    | '+' :: rest => readUnsigned? false rest
    | rest => readUnsigned? false rest
  match result with
  | some x => .ok x.toFloat
  | none => .error (if cs.isEmpty then .empty else .malformed)

end Numeral

end ShiftReduce
