import ShiftReduce.Arithmetic.Grammar
import ShiftReduce.Proofs.Machine.Effect

/-!
# Conservation — what becomes of the tokens of a source

A token leaves a faithful source in one of two ways: it is shifted, or it is reported and discarded.
Every step enters at most one token in its account, and over a queue the tokens that were entered and
those that are left make up the tokens there were.

* `Machine.Entry`, `Machine.entry_step`: what a step enters in the account of a run.
* `Machine.Books`: account, counters and diagnostics of a run agree.
* `Machine.Splits`, `Machine.source_of_halt`: the tokens of a queue, step by step.
* `Machine.analysis_conserves_tokens`: what holds of every analysis over a queue.
-/

namespace ShiftReduce

open TokenSource

variable {State Production Symbol Kind Context Source : Type}

namespace Machine

variable [TokenSource Source Symbol] [GrammarSymbol Symbol Kind]

/-! ## Entries -/

/-- What a step from `M` to `N` enters in the account of the run: nothing, while it looks at the
source at most; a token that is shifted; or, if the run resynchronizes, a token that is discarded. -/
inductive Entry (G : Grammar State Production Symbol Kind Context) (mode : ErrorMode)
    (M N : Machine State Production Symbol Kind Context Source) : Prop
  | idle (haccount : N.account = M.account) (hshifts : N.stats.shifts = M.stats.shifts)
      (hdiscarded : N.stats.discarded = M.stats.discarded)
      (hsource : N.source = M.source ∨ N.source = M.looked.source ∨
        N.source = (TokenSource.peek M.looked.source).source)
  | kept {state target : State} {t : Token Symbol} (hmeets : M.Meets state t)
      (haction : G.action state (GrammarSymbol.kind t.symbol) = .shift target)
      (haccount : N.account = (M.account.1, (t, true) :: M.account.2))
      (hshifts : N.stats.shifts = M.stats.shifts + 1)
      (hdiscarded : N.stats.discarded = M.stats.discarded)
      (hsource : N.source = (TokenSource.consume M.looked.source).source)
  | discarded {state : State} {t : Token Symbol} (hmeets : M.Meets state t)
      (hend : GrammarSymbol.isEnd t.symbol = false) (hmode : mode = .resync)
      (haccount : N.account = (t.complaint :: M.account.1, (t, false) :: M.account.2))
      (hshifts : N.stats.shifts = M.stats.shifts)
      (hdiscarded : N.stats.discarded = M.stats.discarded + 1)
      (hsource : N.source =
        (TokenSource.consume (TokenSource.peek M.looked.source).source).source)

variable [ToString State] [ToString Kind] [FaithfulSource Source]
  {G : Grammar State Production Symbol Kind Context} {mode : ErrorMode}
  {M N : Machine State Production Symbol Kind Context Source}

theorem entry_step (G : Grammar State Production Symbol Kind Context) (mode : ErrorMode)
    (M : Machine State Production Symbol Kind Context Source) :
    Entry G mode M (M.step G mode).machine := by
  generalize hstep : M.step G mode = s
  cases effect_of_step hstep with
  | unready => exact .idle rfl rfl rfl (.inl rfl)
  | sourceFailed | exhausted | stray => exact .idle M.account_looked rfl rfl (.inr (.inl rfl))
  | shift hmeets haction =>
      refine .kept hmeets haction ?_ rfl rfl rfl
      simp only [Step.machine_next, account_tally, account_push, account_taken]
  -- A faithful source hands over what it has shown.
  | shiftFailed hmeets _ htaken => cases htaken.symm.trans hmeets.answer_taken
  | lost hmeets _ htaken => cases htaken.symm.trans hmeets.answer_taken
  | reduce =>
      refine .idle ?_ rfl rfl (.inr (.inl rfl))
      simp only [Step.machine_next, account_tally, account_push, account_record, account_popped]
      rfl
  | refused | terminalProduct | missingGoto =>
      refine .idle ?_ rfl rfl (.inr (.inl rfl))
      simp only [Step.machine_halt, account_tally, account_popped]
  | underflow => exact .idle (M.account_examined _) rfl rfl (.inr (.inl rfl))
  | accept | acceptDepth => exact .idle (M.account_accepted _) rfl rfl (.inr (.inl rfl))
  | relookFailed | vanished | ended | aborted =>
      refine .idle ?_ rfl rfl (.inr (.inr rfl))
      simp only [Step.machine_halt, account_relooked]
  | discard hmeets _ hagain hend hmode =>
      -- What is shown again is the lookahead.
      cases hagain.symm.trans hmeets.head_looked
      refine .discarded hmeets hend hmode ?_ rfl rfl rfl
      simp only [Step.machine_next, account_tally, account_dropped]
      rfl
  | discardFailed hmeets _ _ _ _ htaken => cases htaken.symm.trans (hmeets.answer_dropped _)

/-- A step that halts enters nothing, and it examines one lookahead at most. -/
theorem idle_of_halt {result : Except Diagnostic Symbol} (h : M.step G mode = .halt result N) :
    N.account = M.account ∧ N.stats.shifts = M.stats.shifts ∧
      N.stats.discarded = M.stats.discarded ∧ N.stats.tokens ≤ M.stats.tokens + 1 := by
  cases effect_of_step h with
  | unready => exact ⟨rfl, rfl, rfl, Nat.le_succ _⟩
  | sourceFailed | exhausted | stray => exact ⟨M.account_looked, rfl, rfl, Nat.le_succ _⟩
  | shiftFailed hmeets _ htaken => cases htaken.symm.trans hmeets.answer_taken
  | lost hmeets _ htaken => cases htaken.symm.trans hmeets.answer_taken
  | discardFailed hmeets _ _ _ _ htaken => cases htaken.symm.trans (hmeets.answer_dropped _)
  | underflow => exact ⟨M.account_examined _, rfl, rfl, Nat.le_refl _⟩
  | refused | terminalProduct | missingGoto =>
      refine ⟨?_, rfl, rfl, Nat.le_refl _⟩
      simp only [account_tally, account_popped]
  | accept | acceptDepth => exact ⟨M.account_accepted _, rfl, rfl, Nat.le_refl _⟩
  | relookFailed | vanished | ended | aborted =>
      exact ⟨M.account_relooked _, rfl, rfl, Nat.le_refl _⟩

/-- What looking and taking keep of a source, a step keeps. -/
theorem source_keeps {P : Source → Prop} (hpeek : ∀ s : Source, P s → P (TokenSource.peek s).source)
    (hconsume : ∀ s : Source, P s → P (TokenSource.consume s).source) (h : P M.source) :
    P (M.step G mode).machine.source := by
  have hlooked : P M.looked.source := hpeek _ h
  cases M.entry_step G mode with
  | idle _ _ _ hsource =>
      rcases hsource with hsource | hsource | hsource <;> rw [hsource]
      · exact h
      · exact hlooked
      · exact hpeek _ hlooked
  | kept _ _ _ _ _ hsource =>
      rw [hsource]
      exact hconsume _ hlooked
  | discarded _ _ _ _ _ _ hsource =>
      rw [hsource]
      exact hconsume _ (hpeek _ hlooked)

/-! ## Books -/

/-- Account, counters and diagnostics of a run agree, and what is entered was in its place. -/
structure Books (G : Grammar State Production Symbol Kind Context)
    (M : Machine State Production Symbol Kind Context Source) : Prop where
  shifts : M.account.2.countP (fun v => v.2) = M.stats.shifts
  discarded : M.account.2.countP (fun v => !v.2) = M.stats.discarded
  diagnostics : M.account.1 = (M.account.2.filter fun v => !v.2).map fun v => v.1.complaint
  terminal : ∀ v ∈ M.account.2, GrammarSymbol.isTerminal v.1.symbol = true
  shiftable : ∀ v ∈ M.account.2, v.2 = true →
    ∃ state target, G.action state (GrammarSymbol.kind v.1.symbol) = .shift target
  not_end : ∀ v ∈ M.account.2, v.2 = false → GrammarSymbol.isEnd v.1.symbol = false

omit [TokenSource Source Symbol] [ToString State] [ToString Kind] [FaithfulSource Source] in
theorem books_reset (M : Machine State Production Symbol Kind Context Source) (start : State) :
    (M.reset start).Books G := by
  constructor <;> simp [reset, account]

omit [ToString State] [ToString Kind] [FaithfulSource Source] in
theorem Books.entry (h : M.Books G) (hentry : Entry G mode M N) : N.Books G := by
  cases hentry with
  | idle haccount hshifts hdiscarded =>
      constructor
      all_goals rw [haccount]
      · exact h.shifts.trans hshifts.symm
      · exact h.discarded.trans hdiscarded.symm
      · exact h.diagnostics
      · exact h.terminal
      · exact h.shiftable
      · exact h.not_end
  | kept hmeets haction haccount hshifts hdiscarded =>
      constructor
      all_goals rw [haccount]
      · simp [h.shifts, hshifts]
      · simp [h.discarded, hdiscarded]
      · simp [h.diagnostics]
      · exact List.forall_mem_cons.2 ⟨hmeets.terminal, h.terminal⟩
      · exact List.forall_mem_cons.2 ⟨fun _ => ⟨_, _, haction⟩, h.shiftable⟩
      · exact List.forall_mem_cons.2 ⟨fun hv => (Bool.noConfusion hv), h.not_end⟩
  | discarded hmeets hend _ haccount hshifts hdiscarded =>
      constructor
      all_goals rw [haccount]
      · simp [h.shifts, hshifts]
      · simp [h.discarded, hdiscarded]
      · simp [h.diagnostics]
      · exact List.forall_mem_cons.2 ⟨hmeets.terminal, h.terminal⟩
      · exact List.forall_mem_cons.2 ⟨fun hv => (Bool.noConfusion hv), h.shiftable⟩
      · exact List.forall_mem_cons.2 ⟨fun _ => hend, h.not_end⟩

omit [TokenSource Source Symbol] [ToString State] [ToString Kind] [FaithfulSource Source] in
/-- Where nothing was reported, nothing was discarded. -/
theorem Books.of_clean (h : M.Books G) (hclean : M.account.1 = []) :
    M.stats.discarded = 0 ∧ M.account.2.filter (fun v => !v.2) = [] := by
  have hnone : M.account.2.filter (fun v => !v.2) = [] :=
    List.map_eq_nil_iff.1 (h.diagnostics.symm.trans hclean)
  rw [← h.discarded, List.countP_eq_length_filter, hnone]
  exact ⟨rfl, rfl⟩

theorem Books.step (h : M.Books G) : (M.step G mode).machine.Books G :=
  h.entry (M.entry_step G mode)

theorem Leads.books {start : State} (h : Leads G mode (M.reset start) N) : N.Books G :=
  h.keeps_always Books.step (books_reset M start)

theorem books_of_runWithin {fuel : Nat} {start : State}
    {r : Result State Production Symbol Kind Context Source}
    (h : runWithin G mode fuel (M.reset start) = some r) : r.2.Books G :=
  runWithin_keeps Books.step (books_reset M start) h

end Machine

/-! ## Reports -/

namespace Analysis

variable (A : Analysis State Production Symbol Kind)

theorem shifted_eq : A.shifted = (A.verdicts.filter fun v => v.2).map Prod.fst := by
  rw [shifted, verdicts, List.filter_filterMap, List.map_filterMap]
  congr 1
  funext e
  cases e <;> rfl

theorem discarded_eq : A.discarded = (A.verdicts.filter fun v => !v.2).map Prod.fst := by
  rw [discarded, verdicts, List.filter_filterMap, List.map_filterMap]
  congr 1
  funext e
  cases e <;> rfl

end Analysis

namespace Machine

section Reports

variable (r : Result State Production Symbol Kind Context Source)

theorem verdicts_conclude : (conclude r).1.verdicts = r.2.account.2.reverse := by
  rcases r with ⟨_ | _, M⟩ <;> exact List.filterMap_reverse

theorem diagnostics_conclude :
    (conclude r).1.diagnostics = r.2.account.1.reverse ++ (conclude r).1.fatal?.toList := by
  rcases r with ⟨d | s, M⟩
  · exact List.reverse_cons
  · simp only [conclude, account]
    cases M.diagnostics <;> simp [Analysis.fatal?]

theorem stats_conclude : (conclude r).1.stats = r.2.stats := by
  rcases r with ⟨_ | _, M⟩ <;> rfl

theorem source_conclude : (conclude r).2.source = r.2.source := by
  rcases r with ⟨_ | _, M⟩ <;> rfl

theorem failed_conclude_iff (d : Diagnostic) :
    (conclude r).1.outcome = .failed d ↔ r.1 = .error d := by
  rcases r with ⟨d' | s, M⟩
  · simp [conclude]
  · simp only [conclude]
    split <;> simp

theorem clean_of_accepted {s : Symbol} (h : (conclude r).1.outcome = .accepted s) :
    r.1 = .ok s ∧ r.2.account.1 = [] := by
  rcases r with ⟨d | s', M⟩
  · cases h
  · simp only [conclude] at h
    split at h
    · cases h
      exact ⟨rfl, List.isEmpty_iff.1 ‹_›⟩
    · cases h

theorem ok_of_success {s : Symbol} (h : (conclude r).1.outcome = .accepted s ∨
    (conclude r).1.outcome = .recovered s) : r.1 = .ok s := by
  rcases r with ⟨d | s', M⟩
  · rcases h with h | h <;> cases h
  · simp only [conclude] at h
    split at h <;> rcases h with h | h <;> cases h <;> rfl

/-! ### Books that are closed -/

variable [GrammarSymbol Symbol Kind] {G : Grammar State Production Symbol Kind Context}
  {r : Result State Production Symbol Kind Context Source}

theorem Books.length_shifted (h : r.2.Books G) :
    (conclude r).1.shifted.length = (conclude r).1.stats.shifts := by
  rw [Analysis.shifted_eq, verdicts_conclude, stats_conclude, ← h.shifts, List.length_map,
    ← List.countP_eq_length_filter, List.countP_reverse]

theorem Books.length_discarded (h : r.2.Books G) :
    (conclude r).1.discarded.length = (conclude r).1.stats.discarded := by
  rw [Analysis.discarded_eq, verdicts_conclude, stats_conclude, ← h.discarded, List.length_map,
    ← List.countP_eq_length_filter, List.countP_reverse]

theorem Books.length_verdicts (h : r.2.Books G) :
    (conclude r).1.verdicts.length =
      (conclude r).1.stats.shifts + (conclude r).1.stats.discarded := by
  rw [verdicts_conclude, stats_conclude, ← h.shifts, ← h.discarded, List.length_reverse]
  simpa using List.length_eq_countP_add_countP (fun v => v.2) (l := r.2.account.2)

/-- What is reported is what was discarded and, behind that, what stopped the run. -/
theorem Books.diagnostics_eq (h : r.2.Books G) :
    (conclude r).1.diagnostics =
      (conclude r).1.discarded.map Token.complaint ++ (conclude r).1.fatal?.toList := by
  rw [diagnostics_conclude, h.diagnostics, Analysis.discarded_eq, verdicts_conclude,
    List.filter_reverse, List.map_reverse, List.map_reverse, List.map_map]
  rfl

theorem Books.isEnd_of_mem_discarded (h : r.2.Books G) {t : Token Symbol}
    (ht : t ∈ (conclude r).1.discarded) : GrammarSymbol.isEnd t.symbol = false := by
  rw [Analysis.discarded_eq, verdicts_conclude, List.mem_map] at ht
  obtain ⟨v, hv, rfl⟩ := ht
  rw [List.mem_filter, List.mem_reverse] at hv
  exact h.not_end v hv.1 (by simpa using hv.2)

end Reports

/-! ## Queues -/

section Queues

variable [GrammarSymbol Symbol Kind] [ToString State] [ToString Kind]
  {G : Grammar State Production Symbol Kind Context} {mode : ErrorMode}
  {M N : Machine State Production Symbol Kind Context (Queue Symbol)} {q : Queue Symbol}

def removed (M : Machine State Production Symbol Kind Context Source) : List (Token Symbol) :=
  M.account.2.reverse.map Prod.fst

omit [ToString State] [ToString Kind] in
theorem Meets.tokens_eq {state : State} {t : Token Symbol} (h : M.Meets state t) :
    ∃ rest, M.source.tokens = t :: rest := by
  have hhead : M.source.tokens.head? = some t := Except.ok.inj h.head
  exact List.head?_eq_some_iff.1 hhead

/-- The queue `q` is what the run removed from it and what is left, and its counter tells how much
was removed. -/
structure Splits (q : Queue Symbol)
    (M : Machine State Production Symbol Kind Context (Queue Symbol)) : Prop where
  tokens : q.tokens = M.removed ++ M.source.tokens
  taken : M.source.taken = q.taken + M.removed.length

omit [GrammarSymbol Symbol Kind] [ToString State] [ToString Kind] in
theorem splits_reset (M : Machine State Production Symbol Kind Context (Queue Symbol))
    (start : State) : (M.reset start).Splits M.source :=
  ⟨rfl, rfl⟩

omit [GrammarSymbol Symbol Kind] [ToString State] [ToString Kind] in
/-- Taking the first token of the queue and entering it in the account is one thing. -/
theorem Splits.remove {t : Token Symbol} {kept : Bool} {rest : List (Token Symbol)}
    (h : M.Splits q) (htokens : M.source.tokens = t :: rest)
    (haccount : N.account.2 = (t, kept) :: M.account.2)
    (hsource : N.source = (TokenSource.consume M.source).source) : N.Splits q := by
  have hremoved : N.removed = M.removed ++ [t] := by
    simp [removed, haccount]
  have hconsume : N.source = ⟨rest, M.source.taken + 1⟩ := by
    rw [hsource]
    change (Queue.consume M.source).source = _
    rw [Queue.consume, htokens]
  constructor
  · rw [h.tokens, hremoved, hconsume, htokens, List.append_assoc, List.singleton_append]
  · rw [hremoved, hconsume, List.length_append, List.length_singleton]
    exact congrArg (· + 1) h.taken

omit [ToString State] [ToString Kind] in
theorem Splits.entry (h : M.Splits q) (hentry : Entry G mode M N) : N.Splits q := by
  cases hentry with
  | idle haccount _ _ hsource =>
      -- Looking at a queue leaves it as it is.
      have hsame : N.source = M.source := by
        rcases hsource with hsource | hsource | hsource <;> exact hsource
      have hremoved : N.removed = M.removed := by
        rw [removed, removed, haccount]
      constructor
      · rw [hremoved, hsame, h.tokens]
      · rw [hremoved, hsame, h.taken]
  | kept hmeets _ haccount _ _ hsource =>
      obtain ⟨rest, htokens⟩ := hmeets.tokens_eq
      exact h.remove htokens (congrArg Prod.snd haccount) hsource
  | discarded hmeets _ _ haccount _ _ hsource =>
      obtain ⟨rest, htokens⟩ := hmeets.tokens_eq
      exact h.remove htokens (congrArg Prod.snd haccount) hsource

/-- Every step moves tokens from the queue to the account. -/
theorem Splits.step (h : M.Splits q) : (M.step G mode).machine.Splits q :=
  h.entry (M.entry_step G mode)

omit [GrammarSymbol Symbol Kind] [ToString State] [ToString Kind] in
@[simp] theorem source_peek (q : Queue Symbol) : (TokenSource.peek q).source = q :=
  rfl

/-- A step that halts removes nothing. -/
theorem source_of_halt {result : Except Diagnostic Symbol} (h : M.step G mode = .halt result N) :
    N.source = M.source := by
  cases effect_of_step h with
  | shiftFailed hmeets _ htaken => cases htaken.symm.trans hmeets.answer_taken
  | lost hmeets _ htaken => cases htaken.symm.trans hmeets.answer_taken
  | discardFailed hmeets _ _ _ _ htaken => cases htaken.symm.trans (hmeets.answer_dropped _)
  | _ => simp

theorem source_reduce (G : Grammar State Production Symbol Kind Context)
    (N : Machine State Production Symbol Kind Context Source) (p : Production) :
    (N.reduce G p).machine.source = N.source := by
  unfold reduce goto
  dsimp only
  repeat' split
  all_goals rfl

/-- However an analysis of a queue ends, each token was shifted, or discarded and reported, or is
left, and the counters tell how many. -/
theorem analysis_conserves_tokens {fuel : Nat} {A : Analysis State Production Symbol Kind}
    {M' : Machine State Production Symbol Kind Context (Queue Symbol)}
    (h : analyzeWithin G mode fuel M = some (A, M')) :
    M.source.tokens = A.verdicts.map Prod.fst ++ M'.source.tokens ∧
    A.verdicts.length = A.stats.shifts + A.stats.discarded ∧
    A.shifted.length = A.stats.shifts ∧ A.discarded.length = A.stats.discarded ∧
    M'.source.taken = M.source.taken + (A.stats.shifts + A.stats.discarded) ∧
    (∀ (N : Machine State Production Symbol Kind Context (Queue Symbol)) (p : Production),
      (N.reduce G p).machine.source = N.source) ∧
    A.diagnostics = A.discarded.map Token.complaint ++ A.fatal?.toList ∧
    (∀ t ∈ A.discarded, t.complaint.isFatal = false ∧ GrammarSymbol.isEnd t.symbol = false) ∧
    ∀ d, A.outcome = .failed d → ∃ N N', Leads G mode (M.reset G.start) N ∧
      N.step G mode = .halt (.error d) N' ∧
      TokenSource.head N.source = .ok M'.source.tokens.head? := by
  obtain ⟨r, hrun, rfl, rfl⟩ := exists_run_of_analyzeWithin h
  have hbooks : r.2.Books G := books_of_runWithin hrun
  have hsplits : r.2.Splits M.source :=
    runWithin_keeps Splits.step (splits_reset M G.start) hrun
  have hremoved : r.2.removed = (conclude r).1.verdicts.map Prod.fst := by
    rw [verdicts_conclude, removed]
  rw [source_conclude]
  refine ⟨?_, hbooks.length_verdicts, hbooks.length_shifted, hbooks.length_discarded, ?_,
    source_reduce G, hbooks.diagnostics_eq, ?_, ?_⟩
  · rw [← hremoved]
    exact hsplits.tokens
  · rw [← hbooks.length_verdicts, ← List.length_map (f := Prod.fst), ← hremoved]
    exact hsplits.taken
  · exact fun t ht => ⟨t.isFatal_complaint, hbooks.isEnd_of_mem_discarded ht⟩
  · intro d hfailed
    obtain ⟨N, hleads, hhalt⟩ := exists_halt_of_runWithin hrun
    rw [(failed_conclude_iff r d).1 hfailed] at hhalt
    refine ⟨N, r.2, hleads, hhalt, ?_⟩
    rw [source_of_halt hhalt]
    rfl

/-- The witness reads `a + * (` and fails at the end marker, behind which there is more. -/
theorem conservation_on_open_bracket : ∃ A M',
    analyzeWithin Arithmetic.grammar .resync 9 (ofSource (Queue.ofList
      [⟨.var "a", none⟩, ⟨.operator .add, none⟩, ⟨.operator .mul, none⟩,
        ⟨.bracket .opening, none⟩, ⟨.endMark, none⟩, ⟨.var "b", none⟩]) ()) = some (A, M') ∧
      A.verdicts.length = A.stats.shifts + A.stats.discarded ∧
      A.stats.shifts = 3 ∧ A.stats.discarded = 1 ∧
      A.diagnostics = A.discarded.map Token.complaint ++ A.fatal?.toList ∧
      A.diagnostics = [.unexpected "*" none, .unexpectedEnd none] ∧
      M'.source.tokens = [⟨.endMark, none⟩, ⟨.var "b", none⟩] := by
  have hends : analyzeWithin Arithmetic.grammar .resync 9 (ofSource (Queue.ofList
      [⟨.var "a", none⟩, ⟨.operator .add, none⟩, ⟨.operator .mul, none⟩,
        ⟨.bracket .opening, none⟩, ⟨.endMark, none⟩, ⟨.var "b", none⟩]) ()) = some (_, _) := rfl
  have h := analysis_conserves_tokens hends
  exact ⟨_, _, hends, h.2.1, rfl, rfl, h.2.2.2.2.2.2.1, rfl, rfl⟩

end Queues

end Machine
end ShiftReduce
