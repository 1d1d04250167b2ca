import ShiftReduce.Source.Basic

/-!
# Queue — a source of tokens that are already classified

A queue holds its tokens in order.  It adds no end marker of its own: once it is empty, it answers
with nothing.
-/

namespace ShiftReduce

structure Queue (Symbol : Type) where
  tokens : List (Token Symbol)
  taken : Nat := 0

namespace Queue

variable {Symbol : Type}

def ofList (tokens : List (Token Symbol)) : Queue Symbol :=
  ⟨tokens, 0⟩

def length (q : Queue Symbol) : Nat :=
  q.tokens.length

def isEmpty (q : Queue Symbol) : Bool :=
  q.tokens.isEmpty

def peek (q : Queue Symbol) : Pull (Queue Symbol) Symbol :=
  ⟨.ok q.tokens.head?, q, []⟩

def consume (q : Queue Symbol) : Pull (Queue Symbol) Symbol :=
  match q.tokens with
  | [] => ⟨.ok none, q, []⟩
  | t :: rest => ⟨.ok (some t), ⟨rest, q.taken + 1⟩, []⟩

instance : TokenSource (Queue Symbol) Symbol where
  peek := peek
  consume := consume
  stats q := { tokens := q.taken }

instance {Kind : Type} [GrammarSymbol Symbol Kind] : FiniteSource (Queue Symbol) where
  size := length
  size_peek_le _ := Nat.le_refl _
  size_consume_lt q t h _ := by
    cases q with
    | mk tokens taken =>
        cases tokens with
        | nil => simp [TokenSource.peek, peek] at h
        | cons u rest => simp [TokenSource.peek, TokenSource.consume, peek, consume, length]

end Queue

end ShiftReduce
