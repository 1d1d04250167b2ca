import ShiftReduce.Proofs.Machine.Shape

/-!
# Costs — what a run does is seen in its stack and its source

The counters of a run can be read off what it works on.  If every symbol has a price, namely that of the
right-hand side it was built from and of one more reduction, then the stack is worth what was shifted
and reduced.  What was shifted or discarded is gone from the source.  And a step that takes nothing from
the source makes the stack lighter, so no run comes back to where it was.

* `Grammar.Costing`, `Machine.Paid`: prices, and that the stack is worth what was done.
* `Machine.exists_runWithin_tokens`: a run takes as many steps as it examines lookaheads.
* `Machine.size_add_consumed_le`: what was consumed is gone from the source.
* `Machine.ahead_of_transGen`: a run that goes on consumes input or makes its stack lighter.
-/

namespace ShiftReduce

open TokenSource

variable {State Production Symbol Kind Context Source : Type} [GrammarSymbol Symbol Kind]

/-! ## Prices -/

/-- Prices of symbols: all terminals that the table shifts have the same, and a symbol that a reduction
builds costs what its right-hand side costs and the price of the reduction. -/
structure Grammar.Costing (G : Grammar State Production Symbol Kind Context) where
  cost : Symbol → Nat
  shift : Nat
  reduction : Nat
  cost_shifted : ∀ (state : State) (s : Symbol) (target : State),
    GrammarSymbol.isTerminal s = true → G.action state (GrammarSymbol.kind s) = .shift target →
      cost s = shift
  cost_product : ∀ p rhs c s, (G.reduce p rhs c).product = .ok s →
    cost s = load cost rhs + reduction

namespace Machine

variable {G : Grammar State Production Symbol Kind Context} {C : G.Costing} {mode : ErrorMode}
  {M N N' : Machine State Production Symbol Kind Context Source}

/-- The stack is worth the shifts and reductions that have been made. -/
def Paid (C : G.Costing) (M : Machine State Production Symbol Kind Context Source) : Prop :=
  load (fun t => C.cost t.symbol) M.tokens =
    C.shift * M.stats.shifts + C.reduction * M.stats.reductions

theorem paid_reset (C : G.Costing) (M : Machine State Production Symbol Kind Context Source)
    (start : State) : (M.reset start).Paid C := by
  simp [Paid, reset]

theorem Paid.shift {state target : State} {t : Token Symbol} (h : M.Paid C)
    (hterminal : GrammarSymbol.isTerminal t.symbol = true)
    (haction : G.action state (GrammarSymbol.kind t.symbol) = .shift target)
    (htokens : N.tokens = t :: M.tokens) (hstats : N.stats = M.stats.addToken.addShift) :
    N.Paid C := by
  have hcost := C.cost_shifted _ _ _ hterminal haction
  rw [Paid] at h
  simp only [Paid, htokens, hstats, load_cons, hcost, h, RunStats.addShift, RunStats.addToken,
    Nat.mul_add]
  omega

/-- A reduction pays for its left-hand side with the right-hand side and its own price. -/
theorem Paid.reduce {p : Production} {lhs : Symbol} {span : Option Span} (h : M.Paid C)
    (hproduct : (M.reduction G p).product = .ok lhs)
    (htokens : N.tokens = ⟨lhs, span⟩ :: M.tokens.drop (G.size p))
    (hstats : N.stats = M.stats.addToken.addReduction.addGoto) : N.Paid C := by
  have hcost := C.cost_product _ _ _ _ hproduct
  rw [load_map, handle, load_reverse] at hcost
  have hsplit := load_append (fun t => C.cost t.symbol) (M.tokens.take (G.size p))
    (M.tokens.drop (G.size p))
  rw [List.take_append_drop] at hsplit
  rw [Paid] at h
  simp only [Paid, htokens, hstats, load_cons, hcost, RunStats.addGoto, RunStats.addReduction,
    RunStats.addToken, Nat.mul_add]
  omega

variable [TokenSource Source Symbol] [ToString State] [ToString Kind]

theorem Paid.next [HonestSource Source] (h : M.Paid C) (hstep : M.step G mode = .next N) :
    N.Paid C := by
  cases effect_of_step hstep with
  | shift hmeets haction htaken =>
      -- What is pushed is the lookahead that the table shifts.
      cases HonestSource.eq_of_consume_peek _ _ _ hmeets.head htaken
      exact h.shift hmeets.terminal haction rfl rfl
  | reduce _ _ _ _ hproduct => exact h.reduce hproduct rfl rfl
  | discard => exact h

theorem Leads.paid [HonestSource Source] (C : G.Costing)
    (h : Leads G mode (M.reset G.start) N) : N.Paid C :=
  h.keeps Paid.next (paid_reset C M G.start)

/-- The symbol that a run ends with is worth all that the run has done. -/
theorem cost_of_halt [HonestSource Source] {s : Symbol} (C : G.Costing)
    (hleads : Leads G mode (M.reset G.start) N) (hhalt : N.step G mode = .halt (.ok s) N') :
    C.cost s = C.shift * N'.stats.shifts + C.reduction * N'.stats.reductions := by
  have hpaid := hleads.paid C
  cases effect_of_step hhalt with
  | accept _ _ htokens =>
      rw [Paid, htokens, load_cons, load_nil, Nat.add_zero] at hpaid
      exact hpaid

/-! ## Steps -/

/-- A step that goes on examines one lookahead. -/
theorem tokens_of_next (h : M.step G mode = .next N) : N.stats.tokens = M.stats.tokens + 1 := by
  cases effect_of_step h with
  | shift | reduce | discard => rfl

/-- A run takes as many steps as it examines lookaheads, and one more in order to halt. -/
theorem exists_runWithin_tokens (h : Leads G mode M N) :
    ∃ n, N.stats.tokens = M.stats.tokens + n ∧ ∀ result N', N.step G mode = .halt result N' →
      runWithin G mode (n + 1) M = some (result, N') := by
  induction h using Relation.ReflTransGen.head_induction_on with
  | refl => exact ⟨0, rfl, fun result N' hhalt => runWithin_of_halt 0 hhalt⟩
  | head hstep _ ih =>
      obtain ⟨n, htokens, hrun⟩ := ih
      refine ⟨n + 1, ?_, ?_⟩
      · rw [htokens, tokens_of_next hstep]
        omega
      · intro result N' hhalt
        exact (runWithin_of_next (n + 1) hstep).trans (hrun result N' hhalt)

/-- Unless a left-hand side leads nowhere, the last step counts no reduction. -/
theorem reductions_of_halt {result : Except Diagnostic Symbol} (hfine : ¬M.Stranded G)
    (hhalt : M.step G mode = .halt result N) : N.stats.reductions = M.stats.reductions := by
  cases effect_of_step hhalt with
  | terminalProduct hmeets haction hsize hbase hproduct hlhs =>
      exact absurd (.intro hmeets haction hsize hbase hproduct (.inl hlhs)) hfine
  | missingGoto hmeets haction hsize hbase hproduct _ hgoto =>
      exact absurd (.intro hmeets haction hsize hbase hproduct (.inr hgoto)) hfine
  | _ => rfl

/-! ## Input -/

def consumed (M : Machine State Production Symbol Kind Context Source) : Nat :=
  M.stats.shifts + M.stats.discarded

/-- Every token that a step takes makes the source smaller. -/
theorem size_add_consumed_step [FiniteSource Source] [FaithfulSource Source] (W : G.Shrinking)
    (mode : ErrorMode) (M : Machine State Production Symbol Kind Context Source) :
    FiniteSource.size (M.step G mode).machine.source + (M.step G mode).machine.consumed ≤
      FiniteSource.size M.source + M.consumed := by
  have hlooked := FiniteSource.size_peek_le M.source
  have hrelooked := FiniteSource.size_peek_le M.looked.source
  rw [source_looked] at hrelooked
  cases M.entry_step G mode with
  | idle _ hshifts hdiscarded hsource =>
      -- Nothing was taken, however often the source was looked at.
      have hsize : FiniteSource.size (M.step G mode).machine.source ≤ FiniteSource.size M.source := by
        rcases hsource with hsource | hsource | hsource
        · exact Nat.le_of_eq (congrArg FiniteSource.size hsource)
        · exact Nat.le_trans (Nat.le_of_eq (congrArg FiniteSource.size hsource)) hlooked
        · calc FiniteSource.size (M.step G mode).machine.source
              = FiniteSource.size (TokenSource.peek M.looked.source).source :=
                congrArg FiniteSource.size hsource
            _ ≤ FiniteSource.size (TokenSource.peek M.source).source := hrelooked
            _ ≤ FiniteSource.size M.source := hlooked
      rw [consumed, consumed, hshifts, hdiscarded]
      exact Nat.add_le_add_right hsize _
  | @kept state target t hmeets haction _ hshifts hdiscarded hsource =>
      have hend : GrammarSymbol.isEnd t.symbol = false :=
        Bool.eq_false_iff.2 fun hend => W.end_not_shifted state t.symbol target hend haction
      have htaken := FiniteSource.size_consume_lt M.source t hmeets.head hend
      rw [consumed, consumed, hshifts, hdiscarded, hsource, source_looked]
      omega
  | @discarded state t hmeets hend _ _ hshifts hdiscarded hsource =>
      have htaken := FiniteSource.size_consume_lt M.looked.source t hmeets.head_looked hend
      rw [source_looked] at htaken
      rw [consumed, consumed, hshifts, hdiscarded, hsource, source_looked]
      omega

theorem size_add_consumed_le [FiniteSource Source] [FaithfulSource Source] (W : G.Shrinking)
    (h : Leads G mode (M.reset G.start) N) :
    FiniteSource.size N.source + N.consumed ≤ FiniteSource.size M.source := by
  refine h.keeps_always
    (P := fun K => FiniteSource.size K.source + K.consumed ≤ FiniteSource.size M.source) ?_ ?_
  · intro K hK
    exact Nat.le_trans (size_add_consumed_step W mode K) hK
  · exact Nat.le_refl _

/-- The machine `N` is ahead of `M`: it has taken more tokens, or as many, with a lighter stack. -/
def Ahead (W : G.Shrinking) (M N : Machine State Production Symbol Kind Context Source) : Prop :=
  M.consumed < N.consumed ∨ M.consumed = N.consumed ∧
    load W.weight (N.tokens.map Token.symbol) < load W.weight (M.tokens.map Token.symbol)

theorem ahead_of_next (W : G.Shrinking) (h : M.step G mode = .next N) : M.Ahead W N := by
  cases effect_of_step h with
  | shift =>
      left
      change M.stats.shifts + M.stats.discarded < M.stats.shifts + 1 + M.stats.discarded
      omega
  | @reduce state base target t p lower lhs _ _ _ _ hproduct =>
      refine .inr ⟨rfl, ?_⟩
      -- The right-hand side was heavier than what it is replaced by.
      have hlight := W.product_lt _ _ _ _ hproduct
      rw [handle, List.map_reverse, load_reverse, List.map_take] at hlight
      have hsplit := load_append W.weight ((M.tokens.map Token.symbol).take (G.size p))
        ((M.tokens.map Token.symbol).drop (G.size p))
      rw [List.take_append_drop] at hsplit
      change W.weight lhs + load W.weight ((M.tokens.drop (G.size p)).map Token.symbol) < _
      rw [List.map_drop]
      omega
  | discard => exact .inl (Nat.lt_succ_self _)

omit [TokenSource Source Symbol] [ToString State] [ToString Kind] in
theorem Ahead.trans {W : G.Shrinking} (h : M.Ahead W N) (h' : N.Ahead W N') : M.Ahead W N' := by
  unfold Ahead at *
  omega

/-- Whoever goes on is ahead of where it was, so it never gets there again. -/
theorem ahead_of_transGen (W : G.Shrinking)
    (h : Relation.TransGen (fun K K' => K.step G mode = .next K') M N) : M.Ahead W N := by
  induction h with
  | single hstep => exact ahead_of_next W hstep
  | tail _ hstep ih => exact ih.trans (ahead_of_next W hstep)

end Machine

end ShiftReduce
