import Mathlib.Data.List.Forall2
import ShiftReduce.Token

/-!
# Hulls — the least span around many

The hull of spans starts where the first of them starts and ends where the last of them ends,
whichever they are.  Spans can overlap, run backwards or come in any order.  Merging two hulls gives
the hull of all their spans, so spans can be merged a few at a time.

* `Span.IsHull`, `Span.HullOf`: hulls, of spans of which there may be none.
* `Span.HullOf.merge`: the hull of spans in two lists.
* `Token.hullOf_coveringSpan`: the span that covers tokens which cover others themselves.
-/

namespace ShiftReduce

namespace Position

variable (a b : Position)

theorem earlier_eq_or : a.earlier b = a ∨ a.earlier b = b := by
  unfold earlier
  split
  · exact .inl rfl
  · exact .inr rfl

theorem later_eq_or : a.later b = a ∨ a.later b = b := by
  unfold later
  split
  · exact .inl rfl
  · exact .inr rfl

theorem earlier_le_left : a.earlier b ≤ a := by
  unfold earlier
  split
  · exact Position.le_refl a
  · exact (Position.le_total a b).resolve_left ‹_›

theorem earlier_le_right : a.earlier b ≤ b :=
  earlier_comm b a ▸ earlier_le_left b a

theorem le_later_left : a ≤ a.later b := by
  unfold later
  split
  · exact Position.le_refl a
  · exact (Position.le_total b a).resolve_left ‹_›

theorem le_later_right : b ≤ a.later b :=
  later_comm b a ▸ le_later_left b a

end Position

namespace Span

/-- The span starts with the earliest of a list of spans and stops with the latest. -/
structure IsHull (ss : List Span) (hull : Span) : Prop where
  start_mem : ∃ s ∈ ss, s.start = hull.start
  stop_mem : ∃ s ∈ ss, s.stop = hull.stop
  start_le : ∀ s ∈ ss, hull.start ≤ s.start
  le_stop : ∀ s ∈ ss, s.stop ≤ hull.stop

/-- The hull of a list of spans; only the empty list has none. -/
def HullOf (ss : List Span) : Option Span → Prop
  | some hull => IsHull ss hull
  | none => ss = []

variable {ss ss' : List Span} {a b : Span} {o o' : Option Span}

theorem isHull_singleton (s : Span) : IsHull [s] s where
  start_mem := ⟨s, List.mem_singleton_self s, rfl⟩
  stop_mem := ⟨s, List.mem_singleton_self s, rfl⟩
  start_le := List.forall_mem_singleton.2 (Position.le_refl _)
  le_stop := List.forall_mem_singleton.2 (Position.le_refl _)

theorem IsHull.merge (h : IsHull ss a) (h' : IsHull ss' b) : IsHull (ss ++ ss') (a.merge b) := by
  obtain ⟨s, hs, hstart⟩ := h.start_mem
  obtain ⟨s', hs', hstart'⟩ := h'.start_mem
  obtain ⟨u, hu, hstop⟩ := h.stop_mem
  obtain ⟨u', hu', hstop'⟩ := h'.stop_mem
  constructor
  · rcases a.start.earlier_eq_or b.start with heq | heq
    · exact ⟨s, List.mem_append_left _ hs, hstart.trans heq.symm⟩
    · exact ⟨s', List.mem_append_right _ hs', hstart'.trans heq.symm⟩
  · rcases a.stop.later_eq_or b.stop with heq | heq
    · exact ⟨u, List.mem_append_left _ hu, hstop.trans heq.symm⟩
    · exact ⟨u', List.mem_append_right _ hu', hstop'.trans heq.symm⟩
  · exact List.forall_mem_append.2
      ⟨fun s hs => Position.le_trans (Position.earlier_le_left _ _) (h.start_le s hs),
        fun s hs => Position.le_trans (Position.earlier_le_right _ _) (h'.start_le s hs)⟩
  · exact List.forall_mem_append.2
      ⟨fun s hs => Position.le_trans (h.le_stop s hs) (Position.le_later_left _ _),
        fun s hs => Position.le_trans (h'.le_stop s hs) (Position.le_later_right _ _)⟩

theorem HullOf.eq_none_iff (h : HullOf ss o) : o = none ↔ ss = [] := by
  cases o with
  | none => exact iff_of_true rfl h
  | some hull =>
      have hhull : IsHull ss hull := h
      obtain ⟨s, hs, -⟩ := hhull.start_mem
      exact iff_of_false (Option.some_ne_none hull) (List.ne_nil_of_mem hs)

theorem HullOf.merge (h : HullOf ss o) (h' : HullOf ss' o') : HullOf (ss ++ ss') (merge? o o') := by
  cases o with
  | none =>
      obtain rfl : ss = [] := h
      rwa [merge?_none_left, List.nil_append]
  | some a =>
      cases o' with
      | none =>
          obtain rfl : ss' = [] := h'
          rwa [merge?_none_right, List.append_nil]
      | some b => exact IsHull.merge h h'

/-- Where none stops later than the last one, the hull stops with it. -/
theorem HullOf.exists_stop_eq {s : Span} (h : HullOf (ss ++ [s]) o)
    (hlast : ∀ s' ∈ ss, s'.stop ≤ s.stop) : ∃ hull, o = some hull ∧ hull.stop = s.stop := by
  cases o with
  | none => exact absurd (h.eq_none_iff.1 rfl) (List.concat_ne_nil s ss)
  | some hull =>
      have hhull : IsHull (ss ++ [s]) hull := h
      obtain ⟨s', hs', hstop⟩ := hhull.stop_mem
      refine ⟨hull, rfl, Position.le_antisymm ?_ (hhull.le_stop s (by simp))⟩
      rw [← hstop]
      rcases List.mem_append.1 hs' with hmem | hmem
      · exact hlast s' hmem
      · rw [List.mem_singleton.1 hmem]
        exact Position.le_refl _

end Span

namespace Token

variable {Symbol : Type} {ts : List (Token Symbol)} {groups : List (List (Token Symbol))}

def spans (ts : List (Token Symbol)) : List Span :=
  ts.filterMap Token.span

@[simp] theorem spans_append (ts ts' : List (Token Symbol)) :
    spans (ts ++ ts') = spans ts ++ spans ts' :=
  List.filterMap_append

theorem hullOf_spans_singleton (t : Token Symbol) : Span.HullOf (spans [t]) t.span := by
  cases hspan : t.span with
  | none => simp [spans, Span.HullOf, hspan]
  | some s =>
      rw [spans, List.filterMap_cons_some hspan]
      exact Span.isHull_singleton s

/-- The span that covers tokens is the hull of what their own spans are hulls of. -/
theorem hullOf_coveringSpan
    (h : List.Forall₂ (fun group t => Span.HullOf (spans group) t.span) groups ts) :
    Span.HullOf (spans groups.flatten) (coveringSpan ts) := by
  -- Whatever has been merged so far, what is left goes behind it.
  have hfold : ∀ (ss : List Span) (o : Option Span), Span.HullOf ss o →
      Span.HullOf (ss ++ spans groups.flatten)
        (ts.foldl (fun s t => Span.merge? s t.span) o) := by
    induction h with
    | nil =>
        intro ss o ho
        rwa [List.flatten_nil, spans, List.filterMap_nil, List.append_nil]
    | cons hfirst _ ih =>
        intro ss o ho
        rw [List.flatten_cons, spans_append, ← List.append_assoc]
        exact ih _ _ (ho.merge hfirst)
  exact hfold [] none rfl

end Token

end ShiftReduce
