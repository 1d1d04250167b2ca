import ShiftReduce.Text.Cursor

/-!
# Places — lines and columns of a text, and the stretches between them

A cursor finds its position character by character.  Here a position is read off the text that lies
in front of it.

* `Position.behind`, `Cursor.stop_advanceAll`: the position behind a text, and that a cursor finds it.
* `Position.behind_take_le`: positions come in the order of the characters.
* `Interval`: a stretch of a text, by the numbers of its characters; `Interval.span`: where it lies.
-/

namespace ShiftReduce

namespace Position

/-- The position behind a text: the number of newlines in it, and the number of characters behind the
last of them. -/
def behind (cs : List Char) : Position :=
  ⟨cs.count '\n', (cs.reverse.takeWhile (· ≠ '\n')).length⟩

theorem behind_concat (cs : List Char) (c : Char) :
    behind (cs ++ [c]) = (behind cs).after c := by
  by_cases hc : c = '\n'
  · simp [behind, after, hc]
  · simp [behind, after, hc]

theorem foldl_after_behind (cs ds : List Char) :
    ds.foldl after (behind cs) = behind (cs ++ ds) := by
  induction ds generalizing cs with
  | nil => rw [List.append_nil, List.foldl_nil]
  | cons d ds ih => rw [List.foldl_cons, ← behind_concat, ih, List.append_assoc, List.singleton_append]

theorem le_after (p : Position) (c : Char) : p ≤ p.after c := by
  unfold after
  split
  · exact .inl (Nat.lt_succ_self _)
  · exact .inr ⟨rfl, Nat.le_succ _⟩

theorem le_foldl_after (p : Position) (cs : List Char) : p ≤ cs.foldl after p := by
  induction cs generalizing p with
  | nil => exact Position.le_refl p
  | cons c cs ih => exact Position.le_trans (p.le_after c) (ih (p.after c))

/-- Whoever reads on in a text gets to no earlier position. -/
theorem behind_take_le (cs : List Char) {m n : Nat} (h : m ≤ n) :
    behind (cs.take m) ≤ behind (cs.take n) := by
  have hsplit : cs.take n = cs.take m ++ (cs.take n).drop m := by
    simpa [List.take_take, Nat.min_eq_left h] using (List.take_append_drop m (cs.take n)).symm
  have hread := le_foldl_after (behind (cs.take m)) ((cs.take n).drop m)
  rwa [foldl_after_behind, ← hsplit] at hread

end Position

namespace Cursor

theorem span_advanceAll (c : Cursor) (cs : List Char) :
    (c.advanceAll cs).span = ⟨c.span.start, cs.foldl Position.after c.span.stop⟩ := by
  induction cs generalizing c with
  | nil => rfl
  | cons d cs ih => rw [advanceAll_cons, ih, List.foldl_cons, advance]

/-- A cursor behind a text that reads on is behind the longer text. -/
theorem stop_advanceAll {c : Cursor} {before : List Char} (h : c.span.stop = .behind before)
    (cs : List Char) : (c.advanceAll cs).span.stop = .behind (before ++ cs) := by
  rw [span_advanceAll, h, Position.foldl_after_behind]

end Cursor

/-- The characters of a text from number `start` up to but not including number `stop`. -/
structure Interval where
  start : Nat
  stop : Nat
  deriving DecidableEq, Repr

namespace Interval

def characters (i : Interval) (text : List Char) : List Char :=
  (text.take i.stop).drop i.start

def span (i : Interval) (text : List Char) : Span :=
  ⟨.behind (text.take i.start), .behind (text.take i.stop)⟩

def following (before piece : List Char) : Interval :=
  ⟨before.length, (before ++ piece).length⟩

variable (before piece rest : List Char)

@[simp] theorem characters_following :
    (following before piece).characters (before ++ piece ++ rest) = piece := by
  rw [characters, following, List.take_left, List.drop_left]

@[simp] theorem span_following :
    (following before piece).span (before ++ piece ++ rest) =
      ⟨.behind before, .behind (before ++ piece)⟩ := by
  have hstart : (before ++ piece ++ rest).take before.length = before := by
    rw [List.append_assoc, List.take_left]
  rw [span, following, List.take_left, hstart]

end Interval

end ShiftReduce
