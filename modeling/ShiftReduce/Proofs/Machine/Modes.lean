import ShiftReduce.Arithmetic.Grammar
import ShiftReduce.Proofs.Machine.Shape

/-!
# Modes — a run that aborts is a run that resynchronizes, cut at its first discard

The mode matters in one place: at a token for which the table has no action and which is no end
marker.  Up to the first such token the two modes take the same steps over a faithful source.  There
the one halts with a report on the token, and the other goes on with the same report in its
diagnostics.

* `Machine.step_modes`: a step is the same in both modes, or it is the one where they part.
* `Machine.runWithin_abort`, `Machine.CutAt`: the same of runs and of their reports.
* `Machine.abort_cuts_resync`: what an analysis in one mode tells of the analysis in the other.
-/

namespace ShiftReduce

open TokenSource

variable {State Production Symbol Kind Context Source : Type}

namespace Machine

variable [TokenSource Source Symbol] [GrammarSymbol Symbol Kind] [ToString State] [ToString Kind]
  {G : Grammar State Production Symbol Kind Context}
  {M N N' : Machine State Production Symbol Kind Context Source}

/-! ## Where the modes part -/

/-- The lookahead is the token `t`, and in either mode it has to be reported: a run that aborts halts
here, and a run that resynchronizes goes on without `t`. -/
structure Parts (G : Grammar State Production Symbol Kind Context)
    (M : Machine State Production Symbol Kind Context Source) (t : Token Symbol) : Prop where
  lookahead : head M.source = .ok (some t)
  not_end : GrammarSymbol.isEnd t.symbol = false
  abort : M.step G .abort = .halt (.error t.complaint) (M.relooked t)
  resync : ∃ N, M.step G .resync = .next N ∧
    N.account = (t.complaint :: M.account.1, (t, false) :: M.account.2)

variable [FaithfulSource Source]

theorem parts_of_error {state : State} {t : Token Symbol} (h : M.Meets state t)
    (haction : G.action state (GrammarSymbol.kind t.symbol) = .error)
    (hend : GrammarSymbol.isEnd t.symbol = false) : M.Parts G t := by
  obtain ⟨lower, hstates⟩ := h.states
  have hagain : (TokenSource.peek (TokenSource.peek M.source).source).answer = .ok (some t) :=
    h.head_looked
  have htaken : (TokenSource.consume
      (TokenSource.peek (TokenSource.peek M.source).source).source).answer = .ok (some t) :=
    h.answer_dropped t
  refine ⟨h.head, hend, ?_, (M.dropped t t t.complaint state).tally .addDiscarded, ?_, ?_⟩
  · rw [step_eq_examine _ hstates h.head h.terminal]
    simp only [examine, haction, reject, Machine.peek, record, tally, absorb, recordNotes, hagain,
      hend, Bool.false_eq_true, if_false]
    rfl
  · rw [step_eq_examine _ hstates h.head h.terminal]
    simp only [examine, haction, reject, Machine.peek, Machine.consume, record, tally, absorb,
      recordNotes, report, hagain, hend, Bool.false_eq_true, if_false, htaken]
    rfl
  · simp only [account_tally, account_dropped]

/-- The mode matters only at a token without an action. -/
theorem examine_modes {state : State} {t : Token Symbol} (h : M.Meets state t)
    (hgood : G.action state (GrammarSymbol.kind t.symbol) ≠ .error ∨
      GrammarSymbol.isEnd t.symbol = true) :
    M.looked.examine G .abort state t = M.looked.examine G .resync state t := by
  unfold examine
  dsimp only
  cases haction : G.action state (GrammarSymbol.kind t.symbol) with
  | shift | reduce | accept => rfl
  | error =>
      have hend := hgood.resolve_left (not_not_intro haction)
      have hagain : (TokenSource.peek M.looked.source).answer = .ok (some t) := h.head_looked
      simp only [reject, Machine.peek, source_tally, source_record, hagain, hend, if_true]

/-- A step is the same in both modes unless they part at it. -/
theorem step_modes (G : Grammar State Production Symbol Kind Context)
    (M : Machine State Production Symbol Kind Context Source) :
    M.step G .abort = M.step G .resync ∨ ∃ t, M.Parts G t := by
  by_cases hmeets : ∃ state t, M.Meets state t
  · obtain ⟨state, t, hmeets⟩ := hmeets
    obtain ⟨lower, hstates⟩ := hmeets.states
    by_cases hgood : G.action state (GrammarSymbol.kind t.symbol) ≠ .error ∨
        GrammarSymbol.isEnd t.symbol = true
    · left
      rw [step_eq_examine _ hstates hmeets.head hmeets.terminal,
        step_eq_examine _ hstates hmeets.head hmeets.terminal]
      exact examine_modes hmeets hgood
    · rw [not_or, Classical.not_not, Bool.not_eq_true] at hgood
      exact .inr ⟨t, parts_of_error hmeets hgood.1 hgood.2⟩
  · -- Without a terminal in front of it a step does not get as far as the mode.
    left
    unfold step Machine.peek
    cases hstates : M.states with
    | nil => rfl
    | cons state lower =>
        dsimp only
        cases hhead : (TokenSource.peek M.source).answer with
        | error d => rfl
        | ok answer =>
            cases answer with
            | none => rfl
            | some t =>
                dsimp only
                cases hterminal : GrammarSymbol.isTerminal t.symbol with
                | false => rfl
                | true => exact absurd ⟨state, t, ⟨lower, hstates⟩, hhead, hterminal⟩ hmeets

/-! ## Runs -/

/-- What is entered in the account stays there. -/
theorem account_step_suffix (G : Grammar State Production Symbol Kind Context) (mode : ErrorMode)
    (M : Machine State Production Symbol Kind Context Source) :
    M.account.1 <:+ (M.step G mode).machine.account.1 ∧
      M.account.2 <:+ (M.step G mode).machine.account.2 := by
  cases M.entry_step G mode with
  | idle haccount =>
      rw [haccount]
      exact ⟨List.suffix_rfl, List.suffix_rfl⟩
  | kept _ _ haccount =>
      rw [haccount]
      exact ⟨List.suffix_rfl, List.suffix_cons _ _⟩
  | discarded _ _ _ haccount =>
      rw [haccount]
      exact ⟨List.suffix_cons _ _, List.suffix_cons _ _⟩

/-- A run that resynchronizes and ends is a run in the other mode, or it comes to a machine `N` where
the modes part. -/
theorem runWithin_abort {fuel : Nat} {r : Result State Production Symbol Kind Context Source}
    (h : runWithin G .resync fuel M = some r) :
    runWithin G .abort fuel M = some r ∨
      ∃ N t rest, Leads G .abort M N ∧ N.Parts G t ∧ runWithin G .resync rest N = some r ∧
        runWithin G .abort fuel M = some (.error t.complaint, N.relooked t) := by
  induction fuel generalizing M with
  | zero => cases h
  | succ fuel ih =>
      rcases step_modes G M with hsame | ⟨t, hparts⟩
      · cases hstep : M.step G .resync with
        | halt result N =>
            rw [runWithin_of_halt fuel (hsame.trans hstep)]
            rw [runWithin_of_halt fuel hstep] at h
            exact .inl h
        | next N =>
            rw [runWithin_of_next fuel (hsame.trans hstep)]
            rw [runWithin_of_next fuel hstep] at h
            rcases ih h with hrun | ⟨last, t, rest, hleads, hparts, hrest, hrun⟩
            · exact .inl hrun
            · exact .inr ⟨last, t, rest, .head (hsame.trans hstep) hleads, hparts, hrest, hrun⟩
      · exact .inr ⟨M, t, fuel + 1, .refl, hparts, h, runWithin_of_halt fuel hparts.abort⟩

/-- A run that aborts and succeeds is a run in the other mode. -/
theorem runWithin_resync {fuel : Nat} {s : Symbol}
    (h : runWithin G .abort fuel M = some (.ok s, N')) :
    runWithin G .resync fuel M = some (.ok s, N') := by
  induction fuel generalizing M with
  | zero => cases h
  | succ fuel ih =>
      rcases step_modes G M with hsame | ⟨t, hparts⟩
      · cases hstep : M.step G .resync with
        | halt result N =>
            rw [runWithin_of_halt fuel (hsame.trans hstep)] at h
            rw [runWithin_of_halt fuel hstep, h]
        | next N =>
            rw [runWithin_of_next fuel (hsame.trans hstep)] at h
            rw [runWithin_of_next fuel hstep, ih h]
      · rw [runWithin_of_halt fuel hparts.abort] at h
        cases h

/-- Behind a machine where the modes part, the token stays in the account of the run. -/
theorem Parts.account_suffix {fuel : Nat} {t : Token Symbol}
    {r : Result State Production Symbol Kind Context Source} (hparts : M.Parts G t)
    (h : runWithin G .resync fuel M = some r) :
    t.complaint :: M.account.1 <:+ r.2.account.1 ∧
      (t, false) :: M.account.2 <:+ r.2.account.2 := by
  obtain ⟨N, hnext, haccount⟩ := hparts.resync
  obtain ⟨rest, hrest⟩ : ∃ rest, runWithin G .resync rest N = some r := by
    cases fuel with
    | zero => cases h
    | succ fuel => exact ⟨fuel, (runWithin_of_next fuel hnext).symm.trans h⟩
  refine runWithin_keeps
    (P := fun K => t.complaint :: M.account.1 <:+ K.account.1 ∧
      (t, false) :: M.account.2 <:+ K.account.2) ?_ ?_ hrest
  · intro K hK
    have hstep := account_step_suffix G .resync K
    exact ⟨hK.1.trans hstep.1, hK.2.trans hstep.2⟩
  · rw [haccount]
    exact ⟨List.suffix_rfl, List.suffix_rfl⟩

/-! ## Analyses -/

/-- An analysis that is the same in both modes discards nothing. -/
theorem discarded_of_runWithin_abort {fuel : Nat}
    {r : Result State Production Symbol Kind Context Source}
    (h : runWithin G .abort fuel (M.reset G.start) = some r) :
    (conclude r).1.stats.discarded = 0 := by
  -- A run that aborts reports nothing that it survives.
  have hclean : r.2.account.1 = [] := (patient_of_runWithin h).abort rfl
  rw [stats_conclude]
  exact ((books_of_runWithin h).of_clean hclean).1

/-- The report `B`, with which the machine `N` was left, is the report `A` cut at the token `t`: the
first that `A` discards, and the first and only one that `B` complains of.  Nothing removes it. -/
structure CutAt (A B : Analysis State Production Symbol Kind)
    (N : Machine State Production Symbol Kind Context Source) (t : Token Symbol) : Prop where
  first_discarded : A.discarded.head? = some t
  first_diagnostic : A.diagnostics.head? = some t.complaint
  outcome : B.outcome = .failed t.complaint
  diagnostics : B.diagnostics = [t.complaint]
  discarded : B.stats.discarded = 0
  lookahead : head N.source = .ok (some t)

section Cut

variable {fuel : Nat} {t : Token Symbol} {r : Result State Production Symbol Kind Context Source}

theorem Parts.cutAt (hparts : N.Parts G t) (hleads : Leads G .abort (M.reset G.start) N)
    (h : runWithin G .resync fuel N = some r) :
    CutAt (conclude r).1 (conclude (.error t.complaint, N.relooked t)).1
      (conclude (.error t.complaint, N.relooked t)).2 t := by
  have hclean : N.account.1 = [] := hleads.patient.abort rfl
  obtain ⟨hzero, hkept⟩ := hleads.books.of_clean hclean
  obtain ⟨⟨reported, hreported⟩, ⟨verdicts, hverdicts⟩⟩ := hparts.account_suffix h
  constructor
  case first_discarded =>
    -- Everything in front of the token was kept.
    rw [Analysis.discarded_eq, verdicts_conclude, ← hverdicts, List.filter_reverse,
      List.filter_append, List.filter_cons_of_pos rfl, hkept]
    simp
  case first_diagnostic =>
    rw [diagnostics_conclude, ← hreported, hclean]
    simp
  case outcome => rfl
  case diagnostics =>
    rw [diagnostics_conclude, account_relooked, hclean]
    rfl
  case discarded =>
    rw [stats_conclude]
    exact hzero
  case lookahead =>
    rw [source_conclude, source_relooked]
    exact FaithfulSource.head_peek_eq _ _ (FaithfulSource.head_peek_eq _ _ hparts.lookahead)

end Cut

section Reports

variable {fuel : Nat} {A : Analysis State Production Symbol Kind}
  {M' : Machine State Production Symbol Kind Context Source}

theorem analyzeWithin_abort_of_clean (h : analyzeWithin G .resync fuel M = some (A, M'))
    (hclean : A.stats.discarded = 0) : analyzeWithin G .abort fuel M = some (A, M') := by
  obtain ⟨r, hrun, rfl, rfl⟩ := exists_run_of_analyzeWithin h
  rcases runWithin_abort hrun with hsame | ⟨N, t, rest, hleads, hparts, hrest, _⟩
  · exact Option.map_eq_some_iff.2 ⟨r, hsame, rfl⟩
  · -- Where the modes part there is a token to discard.
    have hlength := (books_of_runWithin hrun).length_discarded
    rw [hclean, List.length_eq_zero_iff] at hlength
    have hfirst := (hparts.cutAt hleads hrest).first_discarded
    rw [hlength] at hfirst
    cases hfirst

theorem analyzeWithin_abort_of_discard (h : analyzeWithin G .resync fuel M = some (A, M'))
    (hsome : A.stats.discarded ≠ 0) :
    ∃ B N t, analyzeWithin G .abort fuel M = some (B, N) ∧ CutAt A B N t := by
  obtain ⟨r, hrun, rfl, rfl⟩ := exists_run_of_analyzeWithin h
  rcases runWithin_abort hrun with hsame | ⟨N, t, rest, hleads, hparts, hrest, hcut⟩
  · exact absurd (discarded_of_runWithin_abort hsame) hsome
  · exact ⟨_, _, t, Option.map_eq_some_iff.2 ⟨_, hcut, rfl⟩, hparts.cutAt hleads hrest⟩

/-- An analysis that aborts and succeeds is the same in the other mode. -/
theorem analyze_resync_of_success [FiniteSource Source] (W : G.Shrinking) {s : Symbol}
    (h : (analyze W .abort M).1.outcome = .accepted s ∨
      (analyze W .abort M).1.outcome = .recovered s) :
    analyze W .resync M = analyze W .abort M := by
  obtain ⟨fuel, ⟨result, N⟩, hrun, hanalyze⟩ := exists_run_of_analyze W .abort M
  rw [hanalyze] at h ⊢
  obtain rfl : result = .ok s := ok_of_success _ h
  rw [analyze, ← eq_run_of_runWithin W (runWithin_resync hrun)]

/-- The analyses in both modes are the same and discard nothing, or one is the other, cut at a token. -/
theorem analyze_abort_cases [FiniteSource Source] (W : G.Shrinking)
    (M : Machine State Production Symbol Kind Context Source) :
    ((analyze W .resync M).1.discarded = [] ∧ analyze W .abort M = analyze W .resync M) ∨
      ∃ t, CutAt (analyze W .resync M).1 (analyze W .abort M).1 (analyze W .abort M).2 t := by
  obtain ⟨fuel, r, hrun, hanalyze⟩ := exists_run_of_analyze W .resync M
  have hends : analyzeWithin G .resync fuel M =
      some ((analyze W .resync M).1, (analyze W .resync M).2) :=
    Option.map_eq_some_iff.2 ⟨r, hrun, hanalyze.symm⟩
  by_cases hzero : (analyze W .resync M).1.stats.discarded = 0
  · have hlength := (books_of_runWithin hrun).length_discarded
    rw [← hanalyze, hzero, List.length_eq_zero_iff] at hlength
    have habort := analyzeWithin_abort_of_clean hends hzero
    exact .inl ⟨hlength, (eq_analyze_of_analyzeWithin W habort).symm⟩
  · obtain ⟨B, N, t, habort, hcut⟩ := analyzeWithin_abort_of_discard hends hzero
    have hB := eq_analyze_of_analyzeWithin W habort
    rw [← hB]
    exact .inr ⟨t, hcut⟩

/-- What an analysis reports are complaints about what it discards and, behind them, what it failed
on. -/
theorem diagnostics_analyze [FiniteSource Source] (W : G.Shrinking) (mode : ErrorMode)
    (M : Machine State Production Symbol Kind Context Source) :
    (analyze W mode M).1.diagnostics =
      (analyze W mode M).1.discarded.map Token.complaint ++
        (analyze W mode M).1.fatal?.toList := by
  obtain ⟨fuel, r, hrun, hanalyze⟩ := exists_run_of_analyze W mode M
  rw [hanalyze]
  exact (books_of_runWithin hrun).diagnostics_eq

/-- An analysis that aborts reports the first diagnostic of the one that resynchronizes. -/
theorem diagnostics_abort [FiniteSource Source] (W : G.Shrinking)
    (M : Machine State Production Symbol Kind Context Source) :
    (analyze W .abort M).1.diagnostics = (analyze W .resync M).1.diagnostics.take 1 := by
  rcases analyze_abort_cases W M with ⟨hnone, hsame⟩ | ⟨t, hcut⟩
  · rw [hsame, diagnostics_analyze, hnone]
    cases (analyze W .resync M).1.fatal? <;> rfl
  · obtain ⟨rest, hrest⟩ := List.head?_eq_some_iff.1 hcut.first_diagnostic
    rw [hcut.diagnostics, hrest, List.take_succ_cons, List.take_zero]

/-- A run that aborts is the run that resynchronizes, cut at the first token that is discarded; they
accept the same. -/
theorem abort_cuts_resync (G : Grammar State Production Symbol Kind Context) (fuel : Nat)
    (M : Machine State Production Symbol Kind Context Source) :
    (∀ A M', analyzeWithin G .resync fuel M = some (A, M') →
      (A.stats.discarded = 0 → analyzeWithin G .abort fuel M = some (A, M')) ∧
      (A.stats.discarded ≠ 0 →
        ∃ B N t, analyzeWithin G .abort fuel M = some (B, N) ∧ CutAt A B N t)) ∧
    ∀ A M' s, A.outcome = .accepted s →
      (analyzeWithin G .resync fuel M = some (A, M') ↔
        analyzeWithin G .abort fuel M = some (A, M')) := by
  constructor
  · intro A M' h
    exact ⟨analyzeWithin_abort_of_clean h, analyzeWithin_abort_of_discard h⟩
  · intro A M' s hs
    constructor
    · intro h
      refine analyzeWithin_abort_of_clean h ?_
      obtain ⟨r, hrun, rfl, rfl⟩ := exists_run_of_analyzeWithin h
      rw [stats_conclude]
      exact ((books_of_runWithin hrun).of_clean (clean_of_accepted r hs).2).1
    · intro h
      obtain ⟨⟨result, N⟩, hrun, rfl, rfl⟩ := exists_run_of_analyzeWithin h
      obtain rfl : result = .ok s := (clean_of_accepted _ hs).1
      exact Option.map_eq_some_iff.2 ⟨_, runWithin_resync hrun, rfl⟩

end Reports

/-- The witness reads `a + * b`. -/
theorem abort_cuts_at_stray_operator : FaithfulSource (Queue Arithmetic.Symbol) ∧
    ∃ A M' B N, analyzeWithin Arithmetic.grammar .resync 9 (ofSource (Queue.ofList
        [⟨.var "a", none⟩, ⟨.operator .add, none⟩, ⟨.operator .mul, none⟩, ⟨.var "b", none⟩,
          ⟨.endMark, none⟩]) ()) = some (A, M') ∧
      A.stats.discarded ≠ 0 ∧
      analyzeWithin Arithmetic.grammar .abort 9 (ofSource (Queue.ofList
        [⟨.var "a", none⟩, ⟨.operator .add, none⟩, ⟨.operator .mul, none⟩, ⟨.var "b", none⟩,
          ⟨.endMark, none⟩]) ()) = some (B, N) ∧
      CutAt A B N ⟨.operator .mul, none⟩ := by
  refine ⟨inferInstance, ?_⟩
  have h := ((abort_cuts_resync Arithmetic.grammar 9 (ofSource (Queue.ofList
    [⟨.var "a", none⟩, ⟨.operator .add, none⟩, ⟨.operator .mul, none⟩, ⟨.var "b", none⟩,
      ⟨.endMark, none⟩]) ())).1 _ _ rfl).2 (by decide)
  obtain ⟨B, N, t, hB, hcut⟩ := h
  -- The report tells which token it is.
  obtain rfl : t = ⟨.operator .mul, none⟩ := (Option.some.inj hcut.first_discarded).symm
  exact ⟨_, _, B, N, rfl, by decide, hB, hcut⟩

end Machine
end ShiftReduce
