/-!
# Positions and spans — where a piece of text lies

Positions are 0-based pairs of a line and a column and are ordered lexicographically.  A span is a
half-open range `[start, stop)` of positions.  Nothing forces `start ≤ stop`: a caller may hand in
any pair, and merging is defined on all of them.

* `Position.le_total`, `Position.le_trans`, `Position.le_antisymm`: the order is linear.
* `Span.merge`, `Span.merge?`: the span of a phrase from those of its parts.
-/

namespace ShiftReduce

/-- A place in a text, counted from line 0 and column 0. -/
structure Position where
  line : Nat := 0
  column : Nat := 0
  deriving DecidableEq, Repr, Inhabited

namespace Position

/-! ## The lexicographic order -/

protected def le (a b : Position) : Prop :=
  a.line < b.line ∨ (a.line = b.line ∧ a.column ≤ b.column)

instance : LE Position := ⟨Position.le⟩

instance (a b : Position) : Decidable (a ≤ b) :=
  inferInstanceAs (Decidable (a.line < b.line ∨ (a.line = b.line ∧ a.column ≤ b.column)))

instance : Ord Position where
  compare a b := (compare a.line b.line).then (compare a.column b.column)

theorem le_iff {a b : Position} :
    a ≤ b ↔ a.line < b.line ∨ (a.line = b.line ∧ a.column ≤ b.column) :=
  Iff.rfl

protected theorem le_refl (a : Position) : a ≤ a :=
  Or.inr ⟨rfl, Nat.le_refl _⟩

protected theorem le_trans {a b c : Position} (hab : a ≤ b) (hbc : b ≤ c) : a ≤ c := by
  rw [le_iff] at *
  omega

protected theorem le_total (a b : Position) : a ≤ b ∨ b ≤ a := by
  simp only [le_iff]
  omega

protected theorem le_antisymm {a b : Position} (hab : a ≤ b) (hba : b ≤ a) : a = b := by
  cases a
  cases b
  simp only [le_iff] at hab hba
  simp only [mk.injEq]
  omega

def earlier (a b : Position) : Position :=
  if a ≤ b then a else b

def later (a b : Position) : Position :=
  if b ≤ a then a else b

theorem earlier_comm (a b : Position) : earlier a b = earlier b a := by
  unfold earlier
  split <;> split
  · exact Position.le_antisymm ‹_› ‹_›
  · rfl
  · rfl
  · cases Position.le_total a b <;> contradiction

theorem later_comm (a b : Position) : later a b = later b a := by
  unfold later
  split <;> split
  · exact Position.le_antisymm ‹_› ‹_›
  · rfl
  · rfl
  · cases Position.le_total a b <;> contradiction

end Position

/-- The half-open range `[start, stop)` of a text. -/
structure Span where
  start : Position := {}
  stop : Position := {}
  deriving DecidableEq, Repr, Inhabited

namespace Span

/-! ## Building and merging -/

def empty (p : Position) : Span :=
  ⟨p, p⟩

/-- The least span that covers both: the earlier start and the later stop. -/
def merge (a b : Span) : Span :=
  ⟨a.start.earlier b.start, a.stop.later b.stop⟩

/-- Merging where either span may be missing: a missing one adds nothing. -/
def merge? : Option Span → Option Span → Option Span
  | some a, some b => some (a.merge b)
  | a, none => a
  | none, b => b

def isEmpty (s : Span) : Bool :=
  s.start == s.stop

def lineRange (s : Span) : Nat × Nat :=
  (s.start.line, s.stop.line)

@[simp] theorem merge?_none_right (a : Option Span) : merge? a none = a := by
  cases a <;> rfl

@[simp] theorem merge?_none_left (a : Option Span) : merge? none a = a := by
  cases a <;> rfl

/-! ## Order and text -/

instance : Ord Span where
  compare a b := (compare a.start b.start).then (compare a.stop b.stop)

/-- The short form, as diagnostics show it: `1:2..1:10`. -/
instance : ToString Span where
  toString s := s!"{s.start.line}:{s.start.column}..{s.stop.line}:{s.stop.column}"

/-- The long form, for a sentence: `span 1:2 to 1:10`. -/
def describe (s : Span) : String :=
  s!"span {s.start.line}:{s.start.column} to {s.stop.line}:{s.stop.column}"

end Span

end ShiftReduce
