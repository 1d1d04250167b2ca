import ShiftReduce.Source.Queue
import ShiftReduce.Source.Script

/-!
# Delivery — what a source hands out when it keeps its word

A source keeps its word if looking at it twice shows the same token and if taking a token gives the
one that was shown.  Such a source is a list of tokens with a last answer, and a run cannot tell
apart two sources with the same list.

* `LawfulSource`: the promise; `TokenSource.Delivers`: the list and the last answer.
* `FaithfulSource`: as much of the promise as concerns the tokens that are shown.
* `HonestSource`: still less, that no other token is handed over than the one that was shown.
* `TokenSource.Delivers.congr`: only the head and the tail of a source matter.
-/

namespace ShiftReduce

open TokenSource

/-- A source that shows the same token until it is taken, and hands over the token it showed. -/
class LawfulSource (Source : Type) {Symbol : outParam Type} [TokenSource Source Symbol] :
    Prop where
  answer_peek_peek : ∀ s : Source, (peek (peek s).source).answer = (peek s).answer
  source_peek_peek : ∀ s : Source, (peek (peek s).source).source = (peek s).source
  answer_consume_peek : ∀ s : Source, (consume (peek s).source).answer = (peek s).answer

namespace TokenSource

variable {Source Symbol : Type} [TokenSource Source Symbol]

def head (s : Source) : Answer Symbol :=
  (peek s).answer

def tail (s : Source) : Source :=
  (consume (peek s).source).source

/-- The source hands out a list of tokens and then shows the answer `last`. -/
def Delivers (s : Source) : List (Token Symbol) → Answer Symbol → Prop
  | [], last => head s = last
  | t :: ts, last => head s = .ok (some t) ∧ Delivers (tail s) ts last

end TokenSource

/-- A source that shows a token again until it is taken, and hands over the token that it showed.
How it fails, and what a look changes inside it, is left to the source. -/
class FaithfulSource (Source : Type) {Symbol : outParam Type} [TokenSource Source Symbol] :
    Prop where
  head_peek_eq : ∀ (s : Source) (t : Token Symbol),
    head s = .ok (some t) → head (peek s).source = .ok (some t)
  consume_peek_eq : ∀ (s : Source) (t : Token Symbol),
    head s = .ok (some t) → (consume (peek s).source).answer = .ok (some t)

instance {Source Symbol : Type} [TokenSource Source Symbol] [LawfulSource Source] :
    FaithfulSource Source where
  head_peek_eq s _ h := (LawfulSource.answer_peek_peek s).trans h
  consume_peek_eq s _ h := (LawfulSource.answer_consume_peek s).trans h

/-- A source that hands over no other token than the one that it showed last.  It may fail to hand over
any. -/
class HonestSource (Source : Type) {Symbol : outParam Type} [TokenSource Source Symbol] :
    Prop where
  eq_of_consume_peek : ∀ (s : Source) (t u : Token Symbol),
    head s = .ok (some t) → (consume (peek s).source).answer = .ok (some u) → u = t

instance {Source Symbol : Type} [TokenSource Source Symbol] [FaithfulSource Source] :
    HonestSource Source where
  eq_of_consume_peek s t u hhead htaken := by
    cases htaken.symm.trans (FaithfulSource.consume_peek_eq s t hhead)
    rfl

namespace TokenSource

variable {Source Symbol : Type} [TokenSource Source Symbol]

theorem Delivers.congr {s s' : Source} {ts : List (Token Symbol)} {last : Answer Symbol}
    (hhead : head s' = head s) (htail : tail s' = tail s) :
    Delivers s ts last → Delivers s' ts last := by
  intro h
  cases ts with
  | nil => exact hhead.trans h
  | cons t ts =>
      rcases h with ⟨ht, hts⟩
      refine ⟨hhead.trans ht, ?_⟩
      rw [htail]
      exact hts

variable [LawfulSource Source]

theorem head_peek (s : Source) : head (peek s).source = head s :=
  LawfulSource.answer_peek_peek s

theorem tail_peek (s : Source) : tail (peek s).source = tail s := by
  unfold tail
  rw [LawfulSource.source_peek_peek]

end TokenSource

namespace Queue

variable {Symbol : Type}

instance : LawfulSource (Queue Symbol) where
  answer_peek_peek _ := rfl
  source_peek_peek _ := rfl
  answer_consume_peek q := by
    cases q with
    | mk tokens taken => cases tokens <;> rfl

theorem delivers (ts : List (Token Symbol)) (t : Token Symbol) (rest : List (Token Symbol))
    (taken : Nat) : Delivers (⟨ts ++ t :: rest, taken⟩ : Queue Symbol) ts (.ok (some t)) := by
  induction ts generalizing taken with
  | nil => rfl
  | cons u ts ih => exact ⟨rfl, ih (taken + 1)⟩

end Queue

namespace Script

variable {Symbol : Type}

theorem exists_cue_of_peek {s : Script Symbol} {t : Token Symbol}
    (h : s.peek.answer = .ok (some t)) :
    ∃ cue rest, s.peek.source.cues = cue :: rest ∧ cue.token = t := by
  unfold peek at h ⊢
  cases hcues : s.cues with
  | nil =>
      rw [hcues] at h
      cases h
  | cons cue rest =>
      rw [hcues] at h
      dsimp only at h ⊢
      split at h
      · cases h
      · cases h
        exact ⟨cue, rest, hcues, rfl⟩
      · cases h
      · cases h
        exact ⟨_, rest, rfl, rfl⟩

theorem eq_of_consume {s : Script Symbol} {cue : Cue Symbol} {rest : List (Cue Symbol)}
    {u : Token Symbol} (hcues : s.cues = cue :: rest) (h : s.consume.answer = .ok (some u)) :
    u = cue.token := by
  unfold consume at h
  rw [hcues] at h
  dsimp only at h
  split at h
  · cases h
  · split at h
    · cases h
    · cases h
      rfl

/-- A script may fail, hide its tokens or lose them, but it makes none up. -/
instance : HonestSource (Script Symbol) where
  eq_of_consume_peek s t u hhead htaken := by
    obtain ⟨cue, rest, hcues, rfl⟩ := exists_cue_of_peek (s := s) hhead
    exact eq_of_consume hcues htaken

end Script

end ShiftReduce
