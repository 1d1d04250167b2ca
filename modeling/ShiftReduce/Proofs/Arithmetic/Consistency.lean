import ShiftReduce.Proofs.Arithmetic.Lexing
import ShiftReduce.Proofs.Arithmetic.Stacks

/-!
# Consistency — table and reductions never contradict each other

An analysis ends with a tree or for a reason that lies in its source.  The only contradiction that
it can report is a nonterminal that the source hands out, and a text hands out none.

* `Automaton.after`: the machine after analyses one after another.
* `stray_of_internal`, `internal_iff_stray`: the contradictions that a queue can cause.
* `kind_of_failed`: what a text can cause.
* `table_and_reductions_agree`: all of it together.
-/

namespace ShiftReduce
namespace Arithmetic

open TokenSource

variable {Source : Type} [TokenSource Source Symbol] [FaithfulSource Source] {mode : ErrorMode}

/-! ## One analysis after another -/

/-- Every analysis has a last machine, and it ends in one of these ways. -/
theorem exists_ends_of_analyze [FiniteSource Source] (mode : ErrorMode) (M : Automaton Source) :
    ∃ fuel N r, Machine.runWithin grammar mode fuel (M.reset grammar.start) = some r ∧
      Machine.Leads grammar mode (M.reset grammar.start) N ∧
      N.step grammar mode = .halt r.1 r.2 ∧ Ends mode N r.1 ∧
      M.analyze mode = Machine.conclude r := by
  obtain ⟨fuel, r, hrun, hanalyze⟩ := Machine.exists_run_of_analyze shrinking mode M
  obtain ⟨N, hleads, hhalt⟩ := Machine.exists_halt_of_runWithin hrun
  exact ⟨fuel, N, r, hrun, hleads, hhalt, (typed_of_leads hleads).ends_of_halt hhalt, hanalyze⟩

/-- An analysis that succeeds has a last step that accepts, and what it accepts is a root. -/
theorem exists_accept_of_success [FiniteSource Source] {M : Automaton Source} {s : Symbol}
    (h : (M.analyze mode).1.outcome = .accepted s ∨ (M.analyze mode).1.outcome = .recovered s) :
    ∃ e fuel N N', s = .root e ∧
      Machine.runWithin grammar mode fuel (M.reset grammar.start) = some (.ok s, N') ∧
      Machine.Leads grammar mode (M.reset grammar.start) N ∧
      N.step grammar mode = .halt (.ok s) N' ∧ M.analyze mode = Machine.conclude (.ok s, N') := by
  obtain ⟨fuel, N, ⟨result, N'⟩, hrun, hleads, hhalt, hends, hanalyze⟩ :=
    exists_ends_of_analyze mode M
  rw [hanalyze] at h
  obtain rfl : result = .ok s := Machine.ok_of_success (result, N') h
  cases hends with
  | tree e => exact ⟨e, fuel, N, N', rfl, hrun, hleads, hhalt, hanalyze⟩

theorem root_of_success [FiniteSource Source] {M : Automaton Source} {s : Symbol}
    (h : (M.analyze mode).1.outcome = .accepted s ∨ (M.analyze mode).1.outcome = .recovered s) :
    ∃ e, s = .root e := by
  obtain ⟨e, -, -, -, he, -⟩ := exists_accept_of_success h
  exact ⟨e, he⟩

/-- The machine after analyses in the given modes, one after another. -/
def Automaton.after [FiniteSource Source] (modes : List ErrorMode) (M : Automaton Source) :
    Automaton Source :=
  modes.foldl (fun M mode => (M.analyze mode).2) M

theorem source_keeps_after [FiniteSource Source] {P : Source → Prop}
    (hpeek : ∀ s : Source, P s → P (peek s).source)
    (hconsume : ∀ s : Source, P s → P (consume s).source) (modes : List ErrorMode)
    (M : Automaton Source) (h : P M.source) : P (M.after modes).source := by
  induction modes generalizing M with
  | nil => exact h
  | cons mode modes ih =>
      refine ih _ ?_
      obtain ⟨fuel, r, hrun, hanalyze⟩ := Machine.exists_run_of_analyze shrinking mode M
      dsimp only
      rw [show M.analyze mode = Machine.conclude r from hanalyze, Machine.source_conclude]
      exact Machine.runWithin_keeps (P := fun N => P N.source)
        (Machine.source_keeps hpeek hconsume) (show P (M.reset grammar.start).source from h) hrun

/-! ## Queues -/

section Queues

variable {ts : List (Token Symbol)} {Q Q' : Automaton (Queue Symbol)}

theorem tokens_after_suffix (modes : List ErrorMode) (Q : Automaton (Queue Symbol)) :
    (Q.after modes).source.tokens <:+ Q.source.tokens := by
  refine source_keeps_after (P := fun q => q.tokens <:+ Q.source.tokens) (fun _ h => h) ?_ modes Q
    List.suffix_rfl
  intro q h
  change (Queue.consume q).source.tokens <:+ _
  unfold Queue.consume
  split
  · exact h
  · rename_i t rest htokens
    rw [htokens] at h
    exact (List.suffix_cons t rest).trans h

/-- What a run removes are terminals, and no end marker is among them. -/
theorem isInput_of_mem_removed (h : Q.Books grammar) {t : Token Symbol} (ht : t ∈ Q.removed) :
    t.symbol.isTerminal = true ∧ t.symbol.isEnd = false := by
  obtain ⟨⟨t, kept⟩, hv, rfl⟩ := List.mem_map.1 ht
  rw [List.mem_reverse] at hv
  refine ⟨h.terminal _ hv, ?_⟩
  cases kept with
  | false => exact h.not_end _ hv rfl
  | true =>
      -- The table shifts no end marker.
      obtain ⟨state, target, haction⟩ := h.shiftable _ hv rfl
      cases hend : t.symbol.isEnd with
      | false => rfl
      | true => exact absurd haction (shrinking.end_not_shifted state t.symbol target hend)

/-- An analysis that fails on a contradiction has a nonterminal in front of it. -/
theorem stray_of_internal {d : Diagnostic} (h : (Q.analyze mode).1.outcome = .failed d)
    (hkind : d.kind = .internal) :
    ∃ t rest, (Q.analyze mode).2.source.tokens = t :: rest ∧ t.symbol.isTerminal = false ∧
      d = .ofFault (.nonterminalLookahead t.symbol.kind.name) := by
  obtain ⟨_, N, r, _, _, hhalt, hends, hanalyze⟩ := exists_ends_of_analyze mode Q
  rw [hanalyze] at h ⊢
  rw [Machine.source_conclude, Machine.source_of_halt hhalt]
  rw [(Machine.failed_conclude_iff r d).1 h] at hends
  cases hends with
  | unexpectedEnd | unexpected | exhausted => cases hkind
  | source hhead => cases hhead
  | @stray t hhead hterminal =>
      obtain ⟨rest, htokens⟩ := List.head?_eq_some_iff.1 (Except.ok.inj hhead)
      exact ⟨t, rest, htokens, hterminal, rfl⟩

/-- The list has a nonterminal in front of its first end marker. -/
def StrayNonterminal (ts : List (Token Symbol)) : Prop :=
  ∃ before t behind, ts = before ++ t :: behind ∧ t.symbol.isTerminal = false ∧
    ∀ u ∈ before, u.symbol.isEnd = false

/-- What is removed cannot reach beyond the nonterminal, so no end marker is left in front of it. -/
theorem exists_left_of_stray {removed left : List (Token Symbol)}
    (hinput : ∀ u ∈ removed, u.symbol.isTerminal = true)
    (hstray : StrayNonterminal (removed ++ left)) :
    ∃ u rest, left = u :: rest ∧ u.symbol.isEnd = false := by
  obtain ⟨before, t, behind, hsplit, hterminal, hbefore⟩ := hstray
  have hend : t.symbol.isEnd = false := by
    cases h : t.symbol with
    | endMark => rw [h] at hterminal; cases hterminal
    | _ => rfl
  rcases List.append_eq_append_iff.1 hsplit with ⟨middle, rfl, rfl⟩ | ⟨middle, rfl, hleft⟩
  · cases middle with
    | nil => exact ⟨t, behind, rfl, hend⟩
    | cons u middle => exact ⟨u, middle ++ t :: behind, rfl, hbefore u (by simp)⟩
  · cases middle with
    | nil => exact ⟨t, behind, hleft.symm, hend⟩
    | cons u middle =>
        cases (List.cons.inj hleft).1
        have hu := hinput t (by simp)
        rw [hterminal] at hu
        cases hu

/-- An analysis that resynchronizes fails on a contradiction if and only if there is a nonterminal in
front of the first end marker. -/
theorem internal_iff_stray (Q : Automaton (Queue Symbol)) :
    (∃ d, (Q.analyze .resync).1.outcome = .failed d ∧ d.kind = .internal) ↔
      StrayNonterminal Q.source.tokens := by
  obtain ⟨fuel, N, r, hrun, hleads, hhalt, hends, hanalyze⟩ := exists_ends_of_analyze .resync Q
  have hbooks : r.2.Books grammar := Machine.books_of_runWithin hrun
  have hsplits : r.2.Splits Q.source :=
    Machine.runWithin_keeps Machine.Splits.step (Machine.splits_reset Q grammar.start) hrun
  have hinput := fun u hu => isInput_of_mem_removed hbooks (t := u) hu
  constructor
  · rintro ⟨d, hfailed, hkind⟩
    obtain ⟨t, rest, hrest, hterminal, _⟩ := stray_of_internal hfailed hkind
    rw [hanalyze, Machine.source_conclude] at hrest
    refine ⟨r.2.removed, t, rest, ?_, hterminal, fun u hu => (hinput u hu).2⟩
    rw [hsplits.tokens, hrest]
  · intro hstray
    rw [hsplits.tokens] at hstray
    obtain ⟨u, rest, hleft, hend⟩ :=
      exists_left_of_stray (fun u hu => (hinput u hu).1) hstray
    -- The last machine sees a token that is no end marker, and it discards no more.
    have hhead : head N.source = .ok (some u) := by
      rw [Machine.source_of_halt hhalt] at hleft
      change Except.ok N.source.tokens.head? = _
      rw [hleft]
      rfl
    rw [hanalyze]
    generalize hresult : r.1 = result at hends
    cases hends with
    | tree e hhead' hend' => cases hhead.symm.trans hhead'; cases hend.symm.trans hend'
    | unexpectedEnd hhead' hend' => cases hhead.symm.trans hhead'; cases hend.symm.trans hend'
    | unexpected hmode => cases hmode
    | exhausted hhead' | source hhead' => cases hhead.symm.trans hhead'
    | stray hhead' hterminal =>
        exact ⟨_, (Machine.failed_conclude_iff r _).2 hresult, rfl⟩

end Queues

/-! ## Scanners -/

namespace Scanner

/-- What a scanner answers: a terminal, or a diagnostic on what it cannot classify. -/
def Plain : Except Diagnostic (Token Symbol) → Prop
  | .ok t => t.symbol.isTerminal = true
  | .error d => d.kind = .tokenize

/-- An answer that was looked at is plain. -/
def Clean (s : Scanner) : Prop :=
  ∀ answer, s.pending = some answer → Plain answer

theorem plain_scan (s : Scanner) : Plain s.scan.answer := by
  unfold scan
  dsimp only
  split
  · rfl
  · split
    · rfl
    · rename_i symbol hclassify
      exact (Lexeme.classified_of_classify hclassify).isInput.1

theorem pending_scan (s : Scanner) : s.scan.scanner.pending = s.pending := by
  unfold scan
  dsimp only
  split
  · rfl
  · split <;> rfl

theorem Clean.peek {s : Scanner} (h : s.Clean) : Clean (TokenSource.peek s).source := by
  change Clean (Scanner.peek s).source
  unfold Scanner.peek
  split
  · exact h
  · rintro answer ⟨⟩
    exact s.plain_scan

theorem Clean.consume {s : Scanner} (h : s.Clean) : Clean (TokenSource.consume s).source := by
  change Clean (Scanner.consume s).source
  unfold Scanner.consume
  split
  · rintro answer ⟨⟩
  · intro answer hanswer
    rw [pending_scan] at hanswer
    exact h answer hanswer

theorem Clean.exists_head_eq {s : Scanner} (h : s.Clean) :
    ∃ answer, Plain answer ∧ head s = answer.map some := by
  change ∃ answer, Plain answer ∧ (Scanner.peek s).answer = answer.map some
  unfold Scanner.peek
  split
  · rename_i answer hpending
    exact ⟨answer, h answer hpending, rfl⟩
  · exact ⟨_, s.plain_scan, rfl⟩

end Scanner

/-- Over a text only the text or its end can be at fault. -/
theorem kind_of_failed {d : Diagnostic} {S : Automaton Scanner} (hclean : S.source.Clean)
    (h : (S.analyze mode).1.outcome = .failed d) :
    d.kind ≠ .internal ∧ d.kind ≠ .streamExhausted := by
  obtain ⟨fuel, N, r, hrun, hleads, hhalt, hends, hanalyze⟩ := exists_ends_of_analyze mode S
  have hN : N.source.Clean := hleads.keeps_always (P := fun K => K.source.Clean)
    (Machine.source_keeps (fun _ h => Scanner.Clean.peek h) fun _ h => Scanner.Clean.consume h)
    hclean
  obtain ⟨answer, hplain, hhead⟩ := hN.exists_head_eq
  rw [hanalyze] at h
  rw [(Machine.failed_conclude_iff r d).1 h] at hends
  cases hends with
  | unexpectedEnd | unexpected => exact ⟨DiagnosticKind.noConfusion, DiagnosticKind.noConfusion⟩
  | exhausted hhead' =>
      cases answer <;> cases hhead.symm.trans hhead'
  | source hhead' =>
      cases answer with
      | ok t => cases hhead.symm.trans hhead'
      | error d' =>
          cases hhead.symm.trans hhead'
          rw [show d.kind = .tokenize from hplain]
          exact ⟨DiagnosticKind.noConfusion, DiagnosticKind.noConfusion⟩
  | stray hhead' hterminal =>
      cases answer with
      | ok t =>
          cases hhead.symm.trans hhead'
          cases hterminal.symm.trans hplain
      | error d' => cases hhead.symm.trans hhead'

/-! ## Agreement -/

/-- However many analyses came before, the table only asks for what its reductions can do, unless an
analysis stops at a nonterminal that was put into its input. -/
theorem table_and_reductions_agree :
    (∀ (ts : List (Token Symbol)) (modes : List ErrorMode) (mode : ErrorMode),
      let Q := (Automaton.ofSource (Queue.ofList ts)).after modes
      (∀ N, Machine.Leads grammar mode (Q.reset grammar.start) N → Coherent N) ∧
      (∀ d, (Q.analyze mode).1.outcome = .failed d → d.kind = .internal →
        ∃ before t rest, ts = before ++ t :: rest ∧
          (Q.analyze mode).2.source.tokens = t :: rest ∧ t.symbol.isTerminal = false ∧
          d = .ofFault (.nonterminalLookahead t.symbol.kind.name)) ∧
      ∀ s, ((Q.analyze mode).1.outcome = .accepted s ∨ (Q.analyze mode).1.outcome = .recovered s) →
        ∃ e, s = .root e) ∧
    (∀ ts : List (Token Symbol),
      (∃ d, ((Automaton.ofSource (Queue.ofList ts)).analyze .resync).1.outcome = .failed d ∧
        d.kind = .internal) ↔ StrayNonterminal ts) ∧
    ∀ (cs : List Char) (modes : List ErrorMode) (mode : ErrorMode) (d : Diagnostic),
      (((Automaton.ofSource (Scanner.ofList cs)).after modes).analyze mode).1.outcome = .failed d →
        d.kind ≠ .internal ∧ d.kind ≠ .streamExhausted := by
  refine ⟨fun ts modes mode => ⟨?_, ?_, ?_⟩, fun ts => internal_iff_stray _, ?_⟩
  · exact fun N hleads => (typed_of_leads hleads).coherent
  · intro d hfailed hkind
    obtain ⟨t, rest, hrest, hterminal, hd⟩ := stray_of_internal hfailed hkind
    -- What is left now was left before, and so on back to the whole list.
    obtain ⟨before, hbefore⟩ := tokens_after_suffix (modes ++ [mode])
      (Automaton.ofSource (Queue.ofList ts))
    rw [Automaton.after, List.foldl_append] at hbefore
    refine ⟨before, t, rest, ?_, hrest, hterminal, hd⟩
    rw [← hrest]
    exact hbefore.symm
  · exact fun s hsuccess => root_of_success hsuccess
  · intro cs modes mode d hfailed
    refine kind_of_failed ?_ hfailed
    exact source_keeps_after (P := Scanner.Clean) (fun _ h => h.peek) (fun _ h => h.consume) modes
      (Automaton.ofSource (Scanner.ofList cs)) (fun _ h => nomatch h)

/-- The witness reads `a )` and then an expression, which a source must not hand out. -/
theorem agreement_on_stray_expression :
    StrayNonterminal [⟨.var "a", none⟩, ⟨.bracket .closing, none⟩,
      ⟨.expression (.atomic (.var "b")), none⟩, ⟨.endMark, none⟩] ∧
    ∃ d, ((Automaton.ofSource (Queue.ofList [⟨.var "a", none⟩, ⟨.bracket .closing, none⟩,
        ⟨.expression (.atomic (.var "b")), none⟩, ⟨.endMark, none⟩])).analyze .resync).1.outcome =
          .failed d ∧ d.kind = .internal := by
  have hstray : StrayNonterminal [⟨.var "a", none⟩, ⟨.bracket .closing, none⟩,
      ⟨.expression (.atomic (.var "b")), none⟩, ⟨.endMark, none⟩] :=
    ⟨[⟨.var "a", none⟩, ⟨.bracket .closing, none⟩], _, _, rfl, rfl, by simp; decide⟩
  exact ⟨hstray, (table_and_reductions_agree.2.1 _).2 hstray⟩

end Arithmetic
end ShiftReduce
