import ShiftReduce.Grammar.Rows
import ShiftReduce.Proofs.Machine.Conservation

/-!
# Shape — what every report looks like, whatever the table and the source do

A run survives nothing but tokens that have no place, and only if it resynchronizes.  So a report has
at most one diagnostic of another kind, at its end, and the outcome tells whether it is there.  The
counters move in different places of a step; between two steps they agree.

* `Machine.Patient`: what a run reports before it ends.
* `RunStats.Balanced`, `Machine.Stranded`: the counters between two steps, and the one way in which
  they part at the last step.
* `Machine.shape_of_analysis`: what holds of every report.
-/

namespace ShiftReduce

open TokenSource

variable {State Production Symbol Kind Context Source : Type}

/-! ## Counters between two steps -/

/-- Every lookahead that was examined was shifted, discarded or reduced in front of, and every
reduction has had its goto. -/
structure RunStats.Balanced (s : RunStats) : Prop where
  tokens : s.tokens = s.shifts + s.reductions + s.discarded
  gotos : s.gotos = s.reductions

theorem Analysis.result?_eq_some_iff (A : Analysis State Production Symbol Kind) (s : Symbol) :
    A.result? = some s ↔ A.outcome = .accepted s := by
  rw [result?]
  cases A.outcome <;> simp

namespace Machine

variable [TokenSource Source Symbol] [GrammarSymbol Symbol Kind] [ToString State] [ToString Kind]
  {G : Grammar State Production Symbol Kind Context} {mode : ErrorMode}
  {M N : Machine State Production Symbol Kind Context Source}

theorem balanced_of_next (h : M.stats.Balanced) (hstep : M.step G mode = .next N) :
    N.stats.Balanced := by
  obtain ⟨htokens, hgotos⟩ := h
  cases effect_of_step hstep with
  | shift =>
      refine ⟨?_, hgotos⟩
      change M.stats.tokens + 1 = M.stats.shifts + 1 + M.stats.reductions + M.stats.discarded
      omega
  | reduce =>
      refine ⟨?_, congrArg (· + 1) hgotos⟩
      change M.stats.tokens + 1 = M.stats.shifts + (M.stats.reductions + 1) + M.stats.discarded
      omega
  | discard =>
      refine ⟨?_, hgotos⟩
      change M.stats.tokens + 1 = M.stats.shifts + M.stats.reductions + (M.stats.discarded + 1)
      omega

theorem Leads.balanced (h : Leads G mode (M.reset G.start) N) : N.stats.Balanced :=
  h.keeps (P := fun K => K.stats.Balanced) balanced_of_next ⟨rfl, rfl⟩

/-! ## The last step -/

/-- The lookahead that the machine accepts in front of is examined and then neither shifted, nor
reduced in front of, nor discarded. -/
theorem tokens_of_success {s : Symbol} (h : M.stats.Balanced)
    (hhalt : M.step G mode = .halt (.ok s) N) :
    N.stats.tokens = N.stats.shifts + N.stats.reductions + N.stats.discarded + 1 := by
  cases effect_of_step hhalt with
  | accept => exact congrArg (· + 1) h.tokens

/-- The step of the machine is a reduction whose left-hand side leads nowhere: it is a terminal, or
the table has no goto for it. -/
inductive Stranded (G : Grammar State Production Symbol Kind Context)
    (M : Machine State Production Symbol Kind Context Source) : Prop
  | intro {state base : State} {t : Token Symbol} {p : Production} {lower : List State}
      {lhs : Symbol} (hmeets : M.Meets state t)
      (haction : G.action state (GrammarSymbol.kind t.symbol) = .reduce p)
      (hsize : (M.handle G p).length = G.size p) (hbase : M.states.drop (G.size p) = base :: lower)
      (hproduct : (M.reduction G p).product = .ok lhs)
      (hstray : GrammarSymbol.isTerminal lhs = true ∨
        ∀ target, G.action base (GrammarSymbol.kind lhs) ≠ .shift target)

/-- A reduction that the grammar does not refuse goes on with its goto. -/
theorem reduce_of_product {t : Token Symbol} {p : Production} {base : State} {lower : List State}
    {lhs : Symbol} (hsize : (M.handle G p).length = G.size p)
    (hbase : M.states.drop (G.size p) = base :: lower)
    (hproduct : (M.reduction G p).product = .ok lhs) :
    (M.examined t).reduce G p = ((M.popped G t p).tally .addReduction).goto G
      ⟨lhs, Token.coveringSpan (M.handle G p)⟩ := by
  have hfull : ¬((M.handle G p).length < G.size p ∨ (M.states.drop (G.size p)).isEmpty = true) := by
    simp [hsize, hbase]
  unfold reduce
  refine (if_neg hfull).trans ?_
  dsimp only
  split
  · rename_i d hrefused
    cases hproduct.symm.trans hrefused
  · rename_i s hbuilt
    obtain rfl : lhs = s := Except.ok.inj (hproduct.symm.trans hbuilt)
    rfl

omit [TokenSource Source Symbol] in
theorem goto_of_stray {base : State} {lower : List State} (token : Token Symbol)
    (hstates : M.states = base :: lower)
    (hstray : GrammarSymbol.isTerminal token.symbol = true ∨
      ∀ target, G.action base (GrammarSymbol.kind token.symbol) ≠ .shift target) :
    ∃ d, M.goto G token = .halt (.error d) M := by
  unfold goto
  rw [hstates]
  dsimp only
  split
  · exact ⟨_, rfl⟩
  · rename_i hterminal
    split
    · rename_i target haction
      exact absurd haction (hstray.resolve_left hterminal target)
    · exact ⟨_, rfl⟩

/-- Where a left-hand side leads nowhere, its reduction has been counted, but no goto. -/
theorem Stranded.exists_halt (h : M.Stranded G) (mode : ErrorMode) :
    ∃ d t p, M.step G mode = .halt (.error d) ((M.popped G t p).tally .addReduction) := by
  obtain @⟨state, base, t, p, lower, lhs, hmeets, haction, hsize, hbase, hproduct, hstray⟩ := h
  obtain ⟨below, hstates⟩ := hmeets.states
  have hrest : ((M.popped G t p).tally .addReduction).states = base :: lower := hbase
  obtain ⟨d, hgoto⟩ := goto_of_stray ⟨lhs, Token.coveringSpan (M.handle G p)⟩ hrest hstray
  refine ⟨d, t, p, ?_⟩
  rw [step_eq_examine _ hstates hmeets.head hmeets.terminal, ← hgoto,
    ← reduce_of_product hsize hbase hproduct]
  unfold examine
  dsimp only
  rw [haction]
  rfl

/-- At the last step reductions and gotos part if and only if a left-hand side leads nowhere. -/
theorem gotos_of_halt {result : Except Diagnostic Symbol} (h : M.stats.Balanced)
    (hhalt : M.step G mode = .halt result N) :
    (M.Stranded G → N.stats.gotos + 1 = N.stats.reductions ∧ ∃ d, result = .error d) ∧
      (¬M.Stranded G → N.stats.gotos = N.stats.reductions) := by
  constructor
  · intro hstranded
    obtain ⟨d, t, p, hstep⟩ := hstranded.exists_halt mode
    cases hhalt.symm.trans hstep
    exact ⟨congrArg (· + 1) h.gotos, d, rfl⟩
  · intro hstranded
    cases effect_of_step hhalt with
    | terminalProduct hmeets haction hsize hbase hproduct hlhs =>
        exact absurd (.intro hmeets haction hsize hbase hproduct (.inl hlhs)) hstranded
    | missingGoto hmeets haction hsize hbase hproduct _ hgoto =>
        exact absurd (.intro hmeets haction hsize hbase hproduct (.inr hgoto)) hstranded
    | _ => exact h.gotos

/-! ## Diagnostics -/

/-- What the run has reported so far it has survived. -/
structure Patient (mode : ErrorMode)
    (M : Machine State Production Symbol Kind Context Source) : Prop where
  kind : ∀ d ∈ M.diagnostics, d.kind = .unexpectedSymbol
  abort : mode = .abort → M.diagnostics = []

theorem Patient.step (h : M.Patient mode) : (M.step G mode).machine.Patient mode := by
  rcases diagnostics_step G mode M with hsame | ⟨rfl, found, span, hmore⟩
  · exact ⟨hsame ▸ h.kind, fun hmode => hsame.trans (h.abort hmode)⟩
  · refine ⟨?_, fun hmode => nomatch hmode⟩
    rw [hmore]
    exact List.forall_mem_cons.2 ⟨rfl, h.kind⟩

omit [TokenSource Source Symbol] [GrammarSymbol Symbol Kind] [ToString State] [ToString Kind] in
theorem patient_reset (M : Machine State Production Symbol Kind Context Source) (start : State) :
    (M.reset start).Patient mode :=
  ⟨fun _ h => (List.not_mem_nil h).elim, fun _ => rfl⟩

theorem Leads.patient (h : Leads G mode (M.reset G.start) N) : N.Patient mode :=
  h.keeps_always Patient.step (patient_reset M G.start)

theorem patient_of_runWithin {fuel : Nat} {r : Result State Production Symbol Kind Context Source}
    (h : runWithin G mode fuel (M.reset G.start) = some r) : r.2.Patient mode :=
  runWithin_keeps Patient.step (patient_reset M G.start) h

/-! ## Reports -/

section Reports

variable {r : Result State Production Symbol Kind Context Source}

omit [TokenSource Source Symbol] [GrammarSymbol Symbol Kind] [ToString State] [ToString Kind]

theorem diagnostics_of_accepted {s : Symbol} (h : (conclude r).1.outcome = .accepted s) :
    (conclude r).1.diagnostics = [] := by
  have hfatal : (conclude r).1.fatal? = none := by
    rw [Analysis.fatal?, h]
  rw [diagnostics_conclude, (clean_of_accepted r h).2, hfatal]
  rfl

theorem diagnostics_of_recovered {s : Symbol} (h : (conclude r).1.outcome = .recovered s) :
    r.2.diagnostics ≠ [] ∧ (conclude r).1.diagnostics = r.2.diagnostics.reverse := by
  rcases r with ⟨d | s', N⟩
  · cases h
  · refine ⟨fun hnone => ?_, rfl⟩
    have hclean : N.diagnostics = [] := hnone
    simp [conclude, hclean] at h

theorem diagnostics_of_failed {d : Diagnostic} (h : (conclude r).1.outcome = .failed d) :
    (conclude r).1.diagnostics = r.2.diagnostics.reverse ++ [d] := by
  have hfatal : (conclude r).1.fatal? = some d := by
    rw [Analysis.fatal?, h]
  rw [diagnostics_conclude, hfatal]
  rfl

theorem Patient.kind_of_mem_reverse (h : M.Patient mode) :
    ∀ d ∈ M.diagnostics.reverse, d.kind = .unexpectedSymbol :=
  fun d hd => h.kind d (List.mem_reverse.1 hd)

theorem Patient.not_recovered (h : r.2.Patient .abort) (s : Symbol) :
    (conclude r).1.outcome ≠ .recovered s :=
  fun hs => (diagnostics_of_recovered hs).1 (h.abort rfl)

theorem Patient.length_diagnostics_le (h : r.2.Patient .abort) :
    (conclude r).1.diagnostics.length ≤ 1 := by
  rw [diagnostics_conclude, account, h.abort rfl]
  cases (conclude r).1.fatal? <;> simp

end Reports

/-- The outcome of an analysis tells whether there are diagnostics and which of them is fatal, and
its counters add up. -/
theorem shape_of_analysis {fuel : Nat} {A : Analysis State Production Symbol Kind}
    {M' : Machine State Production Symbol Kind Context Source}
    (h : analyzeWithin G mode fuel M = some (A, M')) :
    (∀ s, A.outcome = .accepted s → A.diagnostics = []) ∧
    (∀ s, A.outcome = .recovered s →
      A.diagnostics ≠ [] ∧ ∀ d ∈ A.diagnostics, d.kind = .unexpectedSymbol) ∧
    (∀ d, A.outcome = .failed d →
      ∃ earlier, A.diagnostics = earlier ++ [d] ∧ ∀ e ∈ earlier, e.kind = .unexpectedSymbol) ∧
    (∀ s, A.result? = some s ↔ A.outcome = .accepted s) ∧
    (mode = .abort → (∀ s, A.outcome ≠ .recovered s) ∧ A.diagnostics.length ≤ 1) ∧
    (∀ s, A.outcome = .accepted s ∨ A.outcome = .recovered s →
      A.stats.tokens = A.stats.shifts + A.stats.reductions + A.stats.discarded + 1) ∧
    (∃ N result N', Leads G mode (M.reset G.start) N ∧ N.step G mode = .halt result N' ∧
      (A, M') = conclude (result, N') ∧
      (N.Stranded G → A.stats.gotos + 1 = A.stats.reductions ∧ ∃ d, A.outcome = .failed d) ∧
      (¬N.Stranded G → A.stats.gotos = A.stats.reductions)) ∧
    (FaithfulSource Source →
      A.diagnostics.length = A.stats.discarded + A.fatal?.toList.length) := by
  obtain ⟨⟨result, N'⟩, hrun, rfl, rfl⟩ := exists_run_of_analyzeWithin h
  obtain ⟨N, hleads, hhalt⟩ := exists_halt_of_runWithin hrun
  have hpatient := patient_of_runWithin hrun
  have hgotos := gotos_of_halt hleads.balanced hhalt
  refine ⟨fun s => diagnostics_of_accepted, ?_, ?_, ?_, ?_, ?_,
    ⟨N, result, N', hleads, hhalt, rfl, ?_, ?_⟩, ?_⟩
  · intro s hs
    obtain ⟨hsome, hall⟩ := diagnostics_of_recovered hs
    rw [hall]
    exact ⟨fun hnone => hsome (List.reverse_eq_nil_iff.1 hnone), hpatient.kind_of_mem_reverse⟩
  · intro d hd
    exact ⟨_, diagnostics_of_failed hd, hpatient.kind_of_mem_reverse⟩
  · intro s
    exact Analysis.result?_eq_some_iff _ s
  · rintro rfl
    exact ⟨hpatient.not_recovered, hpatient.length_diagnostics_le⟩
  · intro s hs
    cases ok_of_success (result, N') hs
    rw [stats_conclude]
    exact tokens_of_success hleads.balanced hhalt
  · intro hstranded
    obtain ⟨hless, d, rfl⟩ := hgotos.1 hstranded
    rw [stats_conclude]
    exact ⟨hless, d, rfl⟩
  · intro hfine
    rw [stats_conclude]
    exact hgotos.2 hfine
  · intro _
    have hbooks := books_of_runWithin hrun
    rw [hbooks.diagnostics_eq, List.length_append, List.length_map, hbooks.length_discarded]

/-- A table that reduces an `n` to an `E` and then does not know where to go on. -/
def deadEnd : Rows where
  start := "S"
  rules := [⟨"S", .kind "n", .shift "N"⟩, ⟨"N", .anyKind, .reduce ⟨"E -> n", 1, .symbol "E" false⟩⟩]

def deadEndInput : Queue NamedSymbol :=
  .ofList [⟨⟨"x", "x", true, false⟩, none⟩, ⟨⟨"n", "n", true, false⟩, none⟩,
    ⟨⟨"$", "$", true, true⟩, none⟩]

/-- The witness reads `x n`: the `x` has no place, and the `E` that the `n` becomes leads nowhere. -/
theorem shape_of_dead_end : FaithfulSource (Queue NamedSymbol) ∧ ∃ A M',
    analyzeWithin deadEnd.grammar .resync 3 (ofSource deadEndInput ()) = some (A, M') ∧
    (∃ d earlier, A.outcome = .failed d ∧ A.diagnostics = earlier ++ [d] ∧
      ∀ e ∈ earlier, e.kind = .unexpectedSymbol) ∧
    (∃ N, Leads deadEnd.grammar .resync
        ((ofSource deadEndInput ()).reset deadEnd.grammar.start) N ∧
      N.Stranded deadEnd.grammar ∧ A.stats.gotos + 1 = A.stats.reductions) ∧
    A.diagnostics.length = A.stats.discarded + A.fatal?.toList.length ∧ A.stats.discarded = 1 := by
  have hends : analyzeWithin deadEnd.grammar .resync 3 (ofSource deadEndInput ()) = some (_, _) :=
    rfl
  have h := shape_of_analysis hends
  refine ⟨inferInstance, _, _, hends, ?_, ?_, ?_, ?_⟩
  · obtain ⟨earlier, hall, hearlier⟩ := h.2.2.1 _ rfl
    exact ⟨_, earlier, rfl, hall, hearlier⟩
  · obtain ⟨N, _, _, hleads, _, _, hstranded, hfine⟩ := h.2.2.2.2.2.2.1
    -- The counters differ, so it was the goto that failed.
    have hstray : N.Stranded deadEnd.grammar :=
      Classical.byContradiction fun hnot => absurd (hfine hnot) (by decide)
    exact ⟨N, hleads, hstray, (hstranded hstray).1⟩
  · exact h.2.2.2.2.2.2.2 inferInstance
  · rfl

end Machine
end ShiftReduce
