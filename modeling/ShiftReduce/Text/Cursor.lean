import ShiftReduce.Text.Span

/-!
# The cursor — a reading position with the lexeme under it

A cursor counts the characters read so far and carries the span of the lexeme being read.  `begin`
starts a new lexeme where the last one stopped; every `advance` extends it by one character.
-/

namespace ShiftReduce

namespace Position

/-- The position after reading `c`: a newline opens the next line, all else the next column. -/
def after (p : Position) (c : Char) : Position :=
  if c = '\n' then ⟨p.line + 1, 0⟩ else ⟨p.line, p.column + 1⟩

end Position

/-- How far a text has been read, and the span of the lexeme being read. -/
structure Cursor where
  offset : Nat := 0
  span : Span := {}
  deriving DecidableEq, Repr, Inhabited

namespace Cursor

def position (c : Cursor) : Position :=
  c.span.stop

def begin (c : Cursor) : Cursor :=
  { c with span := .empty c.position }

def advance (c : Cursor) (ch : Char) : Cursor :=
  ⟨c.offset + 1, ⟨c.span.start, c.span.stop.after ch⟩⟩

def advanceAll (c : Cursor) (cs : List Char) : Cursor :=
  cs.foldl advance c

@[simp] theorem advanceAll_nil (c : Cursor) : c.advanceAll [] = c :=
  rfl

@[simp] theorem advanceAll_cons (c : Cursor) (ch : Char) (cs : List Char) :
    c.advanceAll (ch :: cs) = (c.advance ch).advanceAll cs :=
  rfl

end Cursor

end ShiftReduce
