import ShiftReduce.Proofs.Arithmetic.OnDemand

/-!
# Progress — how far a session has got in its text

What a scanner answers when it is emptied is known beforehand.  A run takes these answers one by one,
tokens only, by shifting or discarding them.  The answer that it has in front of it when it ends is the
one that decides how it ends, and nothing behind it has been scanned.

* `ReadsOn`, `ReadsOn.entry`: the answers that are taken and those that are left, step by step.
* `Closes`: how a run can end on an answer.
* `HaltsOn`, `exists_haltsOn`: the answers on a text, cut where the analysis ends.
-/

namespace ShiftReduce
namespace Arithmetic

open TokenSource

/-! ## Reading on -/

/-- The machine has taken the answers `taken` of the scanner `start`, and `s` has the others.  None of
those was the end marker.  The machine's own source may have looked at the next one already. -/
structure ReadsOn (start : Scanner) (M : Automaton Scanner) (taken : List Draw) (s : Scanner) :
    Prop where
  pending : s.pending = none
  drain : start.drain = taken ++ s.drain
  answers : taken.map Draw.answer = tokenAnswers M.removed
  inputs : ∀ d ∈ taken, d.isLast = false
  source : M.source = s ∨ M.source = (peek s).source

namespace ReadsOn

variable {start s : Scanner} {M N : Automaton Scanner} {taken : List Draw} {mode : ErrorMode}

theorem head_eq (h : ReadsOn start M taken s) : head M.source = s.draw.answer := by
  have hdraw := Scanner.head_eq_draw h.pending
  rcases h.source with hsource | hsource
  · simpa [hsource] using hdraw
  · simpa [hsource, head_peek] using hdraw

theorem tail_eq (h : ReadsOn start M taken s) : tail M.source = s.consume.source := by
  have hconsume := Scanner.tail_eq_consume h.pending
  rcases h.source with hsource | hsource
  · simpa [hsource] using hconsume
  · simpa [hsource, tail_peek] using hconsume

theorem source_looked (h : ReadsOn start M taken s) : M.looked.source = (peek s).source := by
  rcases h.source with hsource | hsource
  · simp [hsource]
  · simpa [hsource] using LawfulSource.source_peek_peek s

/-- A token that is taken is the next answer. -/
theorem take {t : Token Symbol} {kept : Bool} (h : ReadsOn start M taken s)
    (hhead : head M.source = .ok (some t)) (hend : t.symbol.isEnd = false)
    (haccount : N.account.2 = (t, kept) :: M.account.2) (hsource : N.source = tail M.source) :
    ReadsOn start N (taken ++ [s.draw]) s.consume.source := by
  have hanswer : s.draw.answer = .ok (some t) := h.head_eq.symm.trans hhead
  have hlast : s.draw.isLast = false := by
    simp [Draw.isLast, hanswer, hend]
  have hremoved : N.removed = M.removed ++ [t] := by
    simp [Machine.removed, haccount]
  refine ⟨Scanner.pending_consume s, ?_, ?_, ?_, .inl (hsource.trans h.tail_eq)⟩
  · simpa [Scanner.drain_of_next hlast] using h.drain
  · simp [h.answers, hremoved, hanswer, tokenAnswers]
  · intro d hd
    rcases List.mem_append.1 hd with hd | hd
    · exact h.inputs d hd
    · rwa [List.mem_singleton.1 hd]

theorem entry (h : ReadsOn start M taken s) (hentry : Machine.Entry grammar mode M N) :
    ∃ taken s, ReadsOn start N taken s := by
  cases hentry with
  | idle haccount _ _ hsource =>
      have hremoved : N.removed = M.removed := by
        simp [Machine.removed, haccount]
      refine ⟨taken, s, h.pending, h.drain, h.answers.trans (by simp [hremoved]), h.inputs, ?_⟩
      -- However often the next answer is looked at, the source is the same after the first look.
      rcases hsource with hsource | hsource | hsource
      · simpa [hsource] using h.source
      · exact .inr (hsource.trans h.source_looked)
      · have hagain := congrArg (fun s => (peek s).source) h.source_looked
        exact .inr (hsource.trans (hagain.trans (LawfulSource.source_peek_peek s)))
  | @kept state target t hmeets haction haccount _ _ hsource =>
      have hend : t.symbol.isEnd = false :=
        Bool.eq_false_iff.2 fun hend => shrinking.end_not_shifted state t.symbol target hend haction
      exact ⟨_, _, h.take hmeets.head hend (congrArg Prod.snd haccount) hsource⟩
  | discarded hmeets hend _ haccount _ _ hsource =>
      have htail := hsource.trans (tail_peek M.source)
      exact ⟨_, _, h.take hmeets.head hend (congrArg Prod.snd haccount) htail⟩

end ReadsOn

theorem exists_readsOn_of_leads {mode : ErrorMode} {M N : Automaton Scanner}
    (hpending : M.source.pending = none)
    (h : Machine.Leads grammar mode (M.reset grammar.start) N) :
    ∃ taken s, ReadsOn M.source N taken s := by
  refine h.keeps_always (P := fun K => ∃ taken s, ReadsOn M.source K taken s) ?_ ?_
  · rintro K ⟨taken, s, hK⟩
    exact hK.entry (K.entry_step grammar mode)
  · exact ⟨[], M.source, hpending, rfl, rfl, List.forall_mem_nil _, .inl rfl⟩

/-! ## The last answer -/

/-- How a run can end on the answer that it has in front of it. -/
inductive Closes (mode : ErrorMode) : Answer Symbol → Outcome Symbol → Prop
  | accepted {t : Token Symbol} (e : Expr) (hend : t.symbol.isEnd = true) :
      Closes mode (.ok (some t)) (.accepted (.root e))
  | recovered {t : Token Symbol} (e : Expr) (hend : t.symbol.isEnd = true) :
      Closes mode (.ok (some t)) (.recovered (.root e))
  | unexpectedEnd {t : Token Symbol} (hend : t.symbol.isEnd = true) :
      Closes mode (.ok (some t)) (.failed (.unexpectedEnd t.span))
  | unexpected {t : Token Symbol} (hmode : mode = .abort) (hend : t.symbol.isEnd = false) :
      Closes mode (.ok (some t)) (.failed t.complaint)
  | unclassified (d : Diagnostic) : Closes mode (.error d) (.failed d)

section

variable {mode : ErrorMode} {N N' : Automaton Scanner} {result : Except Diagnostic Symbol}

/-- A scanner neither runs dry nor answers with a nonterminal, so a run over it ends in one of the
other ways. -/
theorem closes_of_ends {answer : Except Diagnostic (Token Symbol)} (hplain : Scanner.Plain answer)
    (hhead : head N.source = answer.map some) (hends : Ends mode N result) :
    Closes mode (answer.map some) (Machine.conclude (result, N')).1.outcome := by
  cases answer with
  | error d =>
      cases hends with
      | source hhead' =>
          cases hhead.symm.trans hhead'
          exact .unclassified d
      | tree _ hhead' | unexpectedEnd hhead' | unexpected _ hhead' | exhausted hhead'
      | stray hhead' => cases hhead.symm.trans hhead'
  | ok t =>
      cases hends with
      | tree e hhead' hend =>
          cases hhead.symm.trans hhead'
          simp only [Machine.conclude]
          split
          · exact .accepted e hend
          · exact .recovered e hend
      | unexpectedEnd hhead' hend =>
          cases hhead.symm.trans hhead'
          exact .unexpectedEnd hend
      | unexpected hmode hhead' hend =>
          cases hhead.symm.trans hhead'
          exact .unexpected hmode hend
      | exhausted hhead' | source hhead' => cases hhead.symm.trans hhead'
      | stray hhead' hterminal =>
          cases hhead.symm.trans hhead'
          cases hterminal.symm.trans hplain

/-- A step that halts has looked at the next answer and taken nothing. -/
theorem source_looked_of_halt (hstates : N.states ≠ []) (h : N.step grammar mode = .halt result N') :
    N'.source = N.looked.source := by
  cases Machine.effect_of_step h with
  | unready hnone => exact absurd hnone hstates
  | shiftFailed hmeets _ htaken => cases htaken.symm.trans hmeets.answer_taken
  | lost hmeets _ htaken => cases htaken.symm.trans hmeets.answer_taken
  | discardFailed hmeets _ _ _ _ htaken => cases htaken.symm.trans (hmeets.answer_dropped _)
  | relookFailed | vanished | ended | aborted => exact LawfulSource.source_peek_peek N.source
  | _ => rfl

end

/-! ## Texts -/

/-- The first analysis of a text takes the answers `taken`, which are tokens, and ends on the answer
`next`, which is the last to be scanned. -/
structure HaltsOn (text : String) (mode : ErrorMode) (taken : List Draw) (next : Draw)
    (rest : List Draw) : Prop where
  drain : (Scanner.ofString text).drain = taken ++ next :: rest
  answers : taken.map Draw.answer = tokenAnswers ((report text mode).verdicts.map Prod.fst)
  inputs : ∀ d ∈ taken, d.isLast = false
  scannerStats : (Session.ofString text mode).analyze.2.scannerStats = next.stats
  closes : Closes mode next.answer (report text mode).outcome

namespace HaltsOn

variable {text : String} {mode : ErrorMode} {taken rest : List Draw} {next : Draw}

theorem length_taken (h : HaltsOn text mode taken next rest) :
    taken.length = (report text mode).verdicts.length := by
  simpa [tokenAnswers] using congrArg List.length h.answers

/-- The end marker is neither shifted nor discarded. -/
theorem isEnd_of_mem_verdicts (h : HaltsOn text mode taken next rest) :
    ∀ v ∈ (report text mode).verdicts, v.1.symbol.isEnd = false := by
  intro v hv
  have hmem : .ok (some v.1) ∈ taken.map Draw.answer := by
    rw [h.answers]
    exact List.mem_map_of_mem (List.mem_map_of_mem hv)
  obtain ⟨d, hd, hanswer⟩ := List.mem_map.1 hmem
  simpa [Draw.isLast, hanswer] using h.inputs d hd

end HaltsOn

/-- The first analysis of a text comes to a last step, in front of an answer that the scanner `s` has not
looked at, and leaves the scanner that has. -/
theorem exists_last_step (text : String) (mode : ErrorMode) :
    ∃ N r taken s,
      Machine.Leads grammar mode
          ((Automaton.ofSource (Scanner.ofString text)).reset grammar.start) N ∧
        N.step grammar mode = .halt r.1 r.2 ∧ Ends mode N r.1 ∧
        (Automaton.ofSource (Scanner.ofString text)).analyze mode = Machine.conclude r ∧
        ReadsOn (Scanner.ofString text) N taken s ∧ r.2.source = (peek s).source := by
  obtain ⟨_, N, r, _, hleads, hhalt, hends, hanalyze⟩ :=
    exists_ends_of_analyze mode (Automaton.ofSource (Scanner.ofString text))
  obtain ⟨taken, s, hreads⟩ := exists_readsOn_of_leads rfl hleads
  obtain ⟨state, lower, hstates⟩ := (typed_of_leads hleads).stacked.exists_states_eq
  have hsource := (source_looked_of_halt (by simp [hstates]) hhalt).trans hreads.source_looked
  exact ⟨N, r, taken, s, hleads, hhalt, hends, hanalyze, hreads, hsource⟩

theorem exists_haltsOn (text : String) (mode : ErrorMode) :
    ∃ taken next rest, HaltsOn text mode taken next rest := by
  obtain ⟨N, ⟨result, N'⟩, taken, s, -, hhalt, hends, hanalyze, hreads, hsource⟩ :=
    exists_last_step text mode
  -- What the run has in front of it is the next answer of a scanner that has not looked at it.
  obtain ⟨rest, hrest⟩ : ∃ rest, s.drain = s.draw :: rest := ⟨_, by rw [Scanner.drain]⟩
  have hdraw : s.draw = ⟨s.scan.answer.map some, s.scan.scanner.stats⟩ := by
    rw [Scanner.draw, Scanner.consume_of_none hreads.pending]
  have hremoved : (report text mode).verdicts.map Prod.fst = N.removed := by
    have hverdicts : (report text mode).verdicts = N'.account.2.reverse := by
      rw [verdicts_report, Automaton.firstReport, hanalyze, Machine.verdicts_conclude]
    rw [hverdicts, (Machine.idle_of_halt hhalt).1, Machine.removed]
  refine ⟨taken, s.draw, rest, ?_, ?_, hreads.inputs, ?_, ?_⟩
  · exact hreads.drain.trans (congrArg (taken ++ ·) hrest)
  · rw [hremoved]
    exact hreads.answers
  · have hleft : (Session.ofString text mode).analyze.2.scannerStats = N'.source.stats := by
      have hmachine : (Session.ofString text mode).analyze.2.machine =
          ((Automaton.ofSource (Scanner.ofString text)).analyze mode).2 := rfl
      rw [Session.scannerStats, hmachine, hanalyze, Machine.source_conclude]
    have hpeek : (peek s).source.stats = s.scan.scanner.stats := by
      change (Scanner.peek s).source.stats = _
      simp only [Scanner.peek, hreads.pending]
    rw [hleft, hsource, hpeek, hdraw]
  · have houtcome : (report text mode).outcome = (Machine.conclude (result, N')).1.outcome :=
      congrArg (fun r => r.1.outcome) hanalyze
    have hhead : head N.source = s.scan.answer.map some := by
      rw [hreads.head_eq, hdraw]
    rw [houtcome, hdraw]
    exact closes_of_ends s.plain_scan hhead hends

end Arithmetic
end ShiftReduce
