import ShiftReduce.Decimal.Shortest

/-!
# Layout — the text of a double

A double is written with the fewest digits that read back.  Two layouts are used: the positional
one, which never has an exponent, and the one with an exponent after a single leading digit.

* `positionalText`: `0.0000001`, `10000000000000000000000`, `-0`, `inf`, `NaN`.
* `compactText`: the same, but finite magnitudes from `10 ^ 16` on have an exponent, `1.2e29`.
-/

namespace ShiftReduce

namespace Decimal

/-- The digits of a decimal without trailing zeros, and the power of ten they stand for. -/
def trimmed (d : Decimal) : List Char × Int :=
  let ds := Nat.toDigits 10 d.digits
  let zeros := (ds.reverse.takeWhile (· == '0')).length
  (ds.take (ds.length - zeros), d.exponent + zeros)

/-- Digits with zeros and a point where they are needed. -/
def positional (d : Decimal) : List Char :=
  let (ds, exponent) := d.trimmed
  let places := (-exponent).toNat
  -- `places` digits stand behind the point; the point may lie left of all digits.
  if places = 0 then
    ds ++ List.replicate exponent.toNat '0'
  else if places < ds.length then
    ds.take (ds.length - places) ++ '.' :: ds.drop (ds.length - places)
  else
    '0' :: '.' :: (List.replicate (places - ds.length) '0' ++ ds)

/-- The leading digit, a point and the other digits if there are any, and the exponent of the
leading digit. -/
def scientific (d : Decimal) : List Char :=
  let (ds, exponent) := d.trimmed
  let power := exponent + ds.length - 1
  let sign := if power < 0 then ['-'] else []
  let fraction := if ds.length ≤ 1 then [] else '.' :: ds.drop 1
  ds.take 1 ++ fraction ++ 'e' :: (sign ++ Nat.toDigits 10 power.natAbs)

end Decimal

namespace Magnitude

def positional (m : Magnitude) : List Char :=
  if m.significand = 0 then ['0'] else m.shortest.positional

def exponentFrom : Nat :=
  10 ^ 16

def compact (m : Magnitude) : List Char :=
  if m.isAtLeast exponentFrom then m.shortest.scientific else m.positional

end Magnitude

namespace Binary64

def text (layout : Magnitude → List Char) : Binary64 → List Char
  | .nan => "NaN".toList
  | .infinite negative => (if negative then ['-'] else []) ++ "inf".toList
  | .finite negative m => (if negative then ['-'] else []) ++ layout m

end Binary64

def positionalText (x : Float) : String :=
  .ofList ((Binary64.ofFloat x).text Magnitude.positional)

def compactText (x : Float) : String :=
  .ofList ((Binary64.ofFloat x).text Magnitude.compact)

end ShiftReduce
