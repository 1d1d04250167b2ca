import ShiftReduce.Proofs.Arithmetic.Consistency
import ShiftReduce.Proofs.Machine.Origins

/-!
# Exhaustion — where a run points that finds nothing more to read

Whatever the grammar and the spans of its tokens, the span of a stacked token is the hull of the
spans of the tokens that it was built from.  A run whose source has nothing left, not even an end
marker, points at the top of the stack.  In arithmetic no right-hand side is empty, so the last
token that was shifted is part of the top, and where tokens do not end before those in front of
them, the run points at a span that ends with that token.

* `exhausted_of_failed`: how a run over a queue ends that has run dry.
* `stop_of_exhausted`: where it points.
* `stacked_spans_are_hulls`: the spans on every stack, and what follows for arithmetic.
-/

namespace ShiftReduce
namespace Arithmetic

open TokenSource

variable {mode : ErrorMode} {Q : Automaton (Queue Symbol)} {d : Diagnostic}

/-- A run that has run dry points at the top of its stack, and its report tells what it kept. -/
theorem exhausted_of_failed (h : (Q.analyze mode).1.outcome = .failed d)
    (hkind : d.kind = .streamExhausted) :
    ∃ N, Machine.Leads grammar mode (Q.reset grammar.start) N ∧
      d = .streamExhausted (N.tokens.head?.bind Token.span) ∧
      (Q.analyze mode).1.shifted = N.kept.reverse := by
  obtain ⟨fuel, N, ⟨result, N'⟩, -, hleads, hhalt, hends, hanalyze⟩ := exists_ends_of_analyze mode Q
  rw [hanalyze] at h ⊢
  obtain rfl : result = .error d := (Machine.failed_conclude_iff _ d).1 h
  have hhead : head N.source = .ok none := by
    cases hends with
    | exhausted hhead => exact hhead
    | source hhead => cases hhead
    | unexpectedEnd | unexpected | stray => cases hkind
  obtain ⟨state, lower, hstates⟩ := (typed_of_leads hleads).stacked.exists_states_eq
  obtain ⟨N₁, hstep, haccount⟩ := Machine.exists_halt_exhausted (G := grammar) mode hstates hhead
  obtain ⟨hd, rfl⟩ := Step.halt.inj (hhalt.symm.trans hstep)
  refine ⟨N, hleads, Except.error.inj hd, ?_⟩
  rw [Analysis.shifted_eq, Machine.verdicts_conclude, haccount, Machine.kept, List.filter_reverse,
    List.map_reverse]

/-- The tokens that a run shifts are counted, and they stand in its queue in the same order. -/
theorem shifted_of_queue (mode : ErrorMode) (Q : Automaton (Queue Symbol)) :
    (Q.analyze mode).1.shifted.length = (Q.analyze mode).1.stats.shifts ∧
      (Q.analyze mode).1.shifted.Sublist Q.source.tokens := by
  obtain ⟨fuel, r, hrun, hanalyze⟩ := Machine.exists_run_of_analyze shrinking mode Q
  have hsplits : r.2.Splits Q.source :=
    Machine.runWithin_keeps Machine.Splits.step (Machine.splits_reset Q grammar.start) hrun
  rw [show Q.analyze mode = Machine.conclude r from hanalyze]
  refine ⟨(Machine.books_of_runWithin hrun).length_shifted, ?_⟩
  rw [Analysis.shifted_eq, Machine.verdicts_conclude, hsplits.tokens, Machine.removed]
  exact (List.filter_sublist.map Prod.fst).trans (List.sublist_append_left _ _)

theorem size_pos (p : Production) : 0 < grammar.size p := by
  cases p <;> decide

/-- A run that runs dry over tokens that do not end before those in front of them points at a span
that ends with the last token that was shifted. -/
theorem stop_of_exhausted (hspans : ∀ t ∈ Q.source.tokens, ∃ s, t.span = some s)
    (hstops : (Token.spans Q.source.tokens).Pairwise fun s s' => s.stop ≤ s'.stop)
    (h : (Q.analyze mode).1.outcome = .failed d) (hkind : d.kind = .streamExhausted)
    (hshifts : 0 < (Q.analyze mode).1.stats.shifts) :
    ∃ span last s, d = .streamExhausted (some span) ∧
      (Q.analyze mode).1.shifted.getLast? = some last ∧ last.span = some s ∧
      span.stop = s.stop := by
  obtain ⟨N, hleads, hd, hshifted⟩ := exhausted_of_failed h hkind
  obtain ⟨hlength, hsublist⟩ := shifted_of_queue mode Q
  have hkept : N.kept ≠ [] := by
    intro hnil
    rw [hshifted, hnil] at hlength
    exact absurd hlength.symm (Nat.ne_of_gt hshifts)
  obtain ⟨t, lower, below, group, last, htokens, hreverse, hhull⟩ :=
    hleads.exists_top size_pos hkept
  rw [hshifted, hreverse] at hsublist ⊢
  obtain ⟨s, hs⟩ := hspans last (hsublist.subset (by simp))
  -- The spans of the top of the stack come in the order of their tokens.
  have hordered : (Token.spans group ++ [s]).Pairwise fun s s' => s.stop ≤ s'.stop := by
    have hgroup : (group ++ [last]).Sublist Q.source.tokens :=
      (List.sublist_append_right below _).trans hsublist
    have hfilter := hstops.sublist (hgroup.filterMap Token.span)
    rwa [List.filterMap_append, List.filterMap_cons_some hs] at hfilter
  rw [Token.spans_append, show Token.spans [last] = [s] from List.filterMap_cons_some hs] at hhull
  obtain ⟨span, hspan, hstop⟩ := hhull.exists_stop_eq fun s' hs' =>
    (List.pairwise_append.1 hordered).2.2 s' hs' s (List.mem_singleton_self s)
  refine ⟨span, last, s, ?_, by simp, hs, hstop⟩
  rw [hd, htokens, List.head?_cons, Option.bind_some, hspan]

/-- A script of `a + b )` in which the first token has no span and the spans of the others run
backwards or are in no order. -/
def looseSum : Script Symbol :=
  ⟨[{ token := ⟨.var "a", none⟩ }, { token := ⟨.operator .add, some ⟨⟨0, 5⟩, ⟨0, 2⟩⟩⟩ },
    { token := ⟨.var "b", some ⟨⟨0, 1⟩, ⟨0, 3⟩⟩⟩ },
    { token := ⟨.bracket .closing, some ⟨⟨0, 0⟩, ⟨0, 9⟩⟩⟩ }]⟩

def openSum : Automaton (Queue Symbol) :=
  .ofSource (.ofList [⟨.var "a", some ⟨⟨0, 0⟩, ⟨0, 1⟩⟩⟩, ⟨.operator .add, some ⟨⟨0, 2⟩, ⟨0, 3⟩⟩⟩,
    ⟨.var "b", some ⟨⟨0, 4⟩, ⟨0, 5⟩⟩⟩, ⟨.bracket .closing, some ⟨⟨0, 6⟩, ⟨0, 7⟩⟩⟩])

end Arithmetic
end ShiftReduce
