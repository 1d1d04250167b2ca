import ShiftReduce.Source.Basic

/-!
# Script — a source that misbehaves on cue

Each line of a script is a token with directions for what the source does when it is looked at or
taken.  Scripts stand for sources that fail, forget what they showed, or run dry too early.
-/

namespace ShiftReduce

structure Cue (Symbol : Type) where
  token : Token Symbol
  /-- Looking at the token fails with this diagnostic, every time. -/
  peekError : Option Diagnostic := none
  /-- How many looks show the token before the source pretends to be empty; all, if absent. -/
  looks : Option Nat := none
  /-- Taking the token removes it and fails with this diagnostic. -/
  consumeError : Option Diagnostic := none
  /-- Taking the token removes it and returns nothing. -/
  lost : Bool := false

/-- The cues still to come; their look counts go down as they are looked at. -/
structure Script (Symbol : Type) where
  cues : List (Cue Symbol)

namespace Script

variable {Symbol : Type}

def length (s : Script Symbol) : Nat :=
  s.cues.length

/-- Looks at the first cue.  Its failure comes before its look count. -/
def peek (s : Script Symbol) : Pull (Script Symbol) Symbol :=
  match s.cues with
  | [] => ⟨.ok none, s, []⟩
  | cue :: rest =>
      match cue.peekError, cue.looks with
      | some d, _ => ⟨.error d, s, []⟩
      | none, none => ⟨.ok (some cue.token), s, []⟩
      | none, some 0 => ⟨.ok none, s, []⟩
      | none, some (n + 1) =>
          ⟨.ok (some cue.token), ⟨{ cue with looks := some n } :: rest⟩, []⟩

/-- Takes the first cue.  Its failure comes before its loss. -/
def consume (s : Script Symbol) : Pull (Script Symbol) Symbol :=
  match s.cues with
  | [] => ⟨.ok none, s, []⟩
  | cue :: rest =>
      let answer : Answer Symbol :=
        match cue.consumeError with
        | some d => .error d
        | none => .ok (if cue.lost then none else some cue.token)
      ⟨answer, ⟨rest⟩, []⟩

instance : TokenSource (Script Symbol) Symbol where
  peek := peek
  consume := consume
  stats _ := {}

end Script

end ShiftReduce
