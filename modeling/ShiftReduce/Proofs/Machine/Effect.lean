import ShiftReduce.Proofs.Machine.Walk

/-!
# Effects — everything that one step can come to

The functions of the machine call each other and stop in many places.  Here all that a step can come
to stands in one list, each entry with what has to hold for it and with the machine that it leaves.
No promise of the source is needed for this.  What holds of every run is derived from the list.

* `Machine.Effect`, `Machine.step_effect`: the list, and that it is complete.
* `Machine.diagnostics_step`: what a step reports.
* `Machine.Leads.keeps`, `Machine.exists_halt_of_runWithin`: from steps to runs.
-/

namespace ShiftReduce

open TokenSource

variable {State Production Symbol Kind Context Source : Type}

namespace Step

def machine : Step State Production Symbol Kind Context Source →
    Machine State Production Symbol Kind Context Source
  | .next M => M
  | .halt _ M => M

@[simp] theorem machine_next (M : Machine State Production Symbol Kind Context Source) :
    (next M).machine = M :=
  rfl

@[simp] theorem machine_halt (result : Except Diagnostic Symbol)
    (M : Machine State Production Symbol Kind Context Source) : (halt result M).machine = M :=
  rfl

end Step

namespace Machine

/-! ## Machines in the middle of a step -/

section Stages

variable (M : Machine State Production Symbol Kind Context Source)

/-- The right-hand side of a production on top of the stack, in source order. -/
def handle (G : Grammar State Production Symbol Kind Context) (p : Production) :
    List (Token Symbol) :=
  (M.tokens.take (G.size p)).reverse

def reduction (G : Grammar State Production Symbol Kind Context) (p : Production) :
    Reduction Symbol Context :=
  G.reduce p ((M.handle G p).map Token.symbol) M.context

@[simp] theorem source_record (e : Event State Production Symbol Kind) :
    (M.record e).source = M.source :=
  rfl

@[simp] theorem source_tally (f : RunStats → RunStats) : (M.tally f).source = M.source :=
  rfl

@[simp] theorem account_record (e : Event State Production Symbol Kind) :
    (M.record e).account = (M.account.1, e.verdict?.toList ++ M.account.2) := by
  simp only [account, record, filterMap_verdict?_cons]

@[simp] theorem account_recordNotes (notes : List Note) :
    (M.recordNotes notes).account = M.account := by
  simp only [account, recordNotes, filterMap_verdict?_noted]

@[simp] theorem account_tally (f : RunStats → RunStats) : (M.tally f).account = M.account :=
  rfl

@[simp] theorem account_push (token : Token Symbol) (state : State) :
    (M.push token state).account = M.account :=
  rfl

@[simp] theorem account_report (d : Diagnostic) :
    (M.report d).account = (d :: M.account.1, M.account.2) :=
  rfl

variable [TokenSource Source Symbol]

def looked : Machine State Production Symbol Kind Context Source :=
  M.absorb (TokenSource.peek M.source)

def examined (t : Token Symbol) : Machine State Production Symbol Kind Context Source :=
  (M.looked.record (.examined M.states M.tokens t)).tally .addToken

def taken (t : Token Symbol) (target : State) :
    Machine State Production Symbol Kind Context Source :=
  ((M.examined t).record (.shifted t target)).absorb (TokenSource.consume M.looked.source)

def popped (G : Grammar State Production Symbol Kind Context) (t : Token Symbol)
    (p : Production) : Machine State Production Symbol Kind Context Source :=
  { (((M.examined t).record (.reduced p)).pop (G.size p)).recordNotes (M.reduction G p).notes with
    context := (M.reduction G p).context }

/-- The machine that has looked at its source once more, in order to report the lookahead `t`. -/
def relooked (t : Token Symbol) : Machine State Production Symbol Kind Context Source :=
  (M.examined t).absorb (TokenSource.peek M.looked.source)

/-- The machine that has reported the token `u` and taken a token in order to discard it. -/
def dropped (t u : Token Symbol) (error : Diagnostic) (state : State) :
    Machine State Production Symbol Kind Context Source :=
  (((M.relooked t).record (.discarded u error state)).report error).absorb
    (TokenSource.consume (M.relooked t).source)

@[simp] theorem source_looked : M.looked.source = (TokenSource.peek M.source).source :=
  rfl

@[simp] theorem source_examined (t : Token Symbol) : (M.examined t).source = M.looked.source :=
  rfl

@[simp] theorem source_popped (G : Grammar State Production Symbol Kind Context)
    (t : Token Symbol) (p : Production) : (M.popped G t p).source = M.looked.source :=
  rfl

@[simp] theorem source_relooked (t : Token Symbol) :
    (M.relooked t).source = (TokenSource.peek M.looked.source).source :=
  rfl

@[simp] theorem account_looked : M.looked.account = M.account :=
  M.account_absorb _

@[simp] theorem account_examined (t : Token Symbol) : (M.examined t).account = M.account :=
  (M.looked.account_record _).trans M.account_looked

@[simp] theorem account_accepted (t : Token Symbol) :
    ((M.examined t).record .accepted).account = M.account :=
  ((M.examined t).account_record .accepted).trans (M.account_examined t)

@[simp] theorem account_taken (t : Token Symbol) (target : State) :
    (M.taken t target).account = (M.account.1, (t, true) :: M.account.2) := by
  rw [taken, account_absorb, account_record, account_examined]
  rfl

@[simp] theorem account_popped (G : Grammar State Production Symbol Kind Context)
    (t : Token Symbol) (p : Production) : (M.popped G t p).account = M.account := by
  -- Popping tokens and states is no matter of the account.
  have hrecord := (M.examined t).account_record (.reduced p)
  rw [account_examined] at hrecord
  exact (account_recordNotes _ _).trans hrecord

@[simp] theorem account_relooked (t : Token Symbol) : (M.relooked t).account = M.account := by
  rw [relooked, account_absorb, account_examined]

@[simp] theorem account_dropped (t u : Token Symbol) (error : Diagnostic) (state : State) :
    (M.dropped t u error state).account = (error :: M.account.1, (u, false) :: M.account.2) := by
  rw [dropped, account_absorb, account_report, account_record, account_relooked]
  rfl

end Stages

/-! ## Lookaheads -/

variable [TokenSource Source Symbol] [GrammarSymbol Symbol Kind]

/-- The machine is in `state` and its lookahead is the terminal `t`. -/
structure Meets (M : Machine State Production Symbol Kind Context Source) (state : State)
    (t : Token Symbol) : Prop where
  states : ∃ lower, M.states = state :: lower
  head : head M.source = .ok (some t)
  terminal : GrammarSymbol.isTerminal t.symbol = true

namespace Meets

variable [FaithfulSource Source] {M : Machine State Production Symbol Kind Context Source}
  {state : State} {t : Token Symbol}

theorem head_looked (h : M.Meets state t) : TokenSource.head M.looked.source = .ok (some t) :=
  FaithfulSource.head_peek_eq _ _ h.head

theorem answer_taken (h : M.Meets state t) :
    (TokenSource.consume M.looked.source).answer = .ok (some t) :=
  FaithfulSource.consume_peek_eq _ _ h.head

theorem answer_dropped (h : M.Meets state t) (u : Token Symbol) :
    (TokenSource.consume (M.relooked u).source).answer = .ok (some t) :=
  FaithfulSource.consume_peek_eq _ _ h.head_looked

end Meets

/-! ## The list -/

variable [ToString State] [ToString Kind]

inductive Effect (G : Grammar State Production Symbol Kind Context) (mode : ErrorMode)
    (M : Machine State Production Symbol Kind Context Source) :
    Step State Production Symbol Kind Context Source → Prop
  -- There is no lookahead to examine.
  | unready (h : M.states = []) : Effect G mode M (.halt (.error (.ofFault .emptyStateStack)) M)
  | sourceFailed {d : Diagnostic} (hstates : M.states ≠ []) (h : head M.source = .error d) :
      Effect G mode M (.halt (.error d) M.looked)
  | exhausted (hstates : M.states ≠ []) (h : head M.source = .ok none) :
      Effect G mode M
        (.halt (.error (.streamExhausted (M.tokens.head?.bind Token.span))) M.looked)
  | stray {t : Token Symbol} (hstates : M.states ≠ []) (h : head M.source = .ok (some t))
      (hterminal : GrammarSymbol.isTerminal t.symbol = false) :
      Effect G mode M
        (.halt (.error (.ofFault (.nonterminalLookahead (toString (GrammarSymbol.kind t.symbol)))))
          M.looked)
  -- The table shifts.
  | shift {state target : State} {t u : Token Symbol} (h : M.Meets state t)
      (haction : G.action state (GrammarSymbol.kind t.symbol) = .shift target)
      (htaken : (TokenSource.consume M.looked.source).answer = .ok (some u)) :
      Effect G mode M (.next (((M.taken t target).push u target).tally .addShift))
  | shiftFailed {state target : State} {t : Token Symbol} {d : Diagnostic} (h : M.Meets state t)
      (haction : G.action state (GrammarSymbol.kind t.symbol) = .shift target)
      (htaken : (TokenSource.consume M.looked.source).answer = .error d) :
      Effect G mode M (.halt (.error d) (M.taken t target))
  | lost {state target : State} {t : Token Symbol} (h : M.Meets state t)
      (haction : G.action state (GrammarSymbol.kind t.symbol) = .shift target)
      (htaken : (TokenSource.consume M.looked.source).answer = .ok none) :
      Effect G mode M (.halt (.error (.ofFault .lostLookahead)) (M.taken t target))
  -- The table reduces.
  | reduce {state base target : State} {t : Token Symbol} {p : Production} {lower : List State}
      {lhs : Symbol} (h : M.Meets state t)
      (haction : G.action state (GrammarSymbol.kind t.symbol) = .reduce p)
      (hsize : (M.handle G p).length = G.size p) (hbase : M.states.drop (G.size p) = base :: lower)
      (hproduct : (M.reduction G p).product = .ok lhs)
      (hlhs : GrammarSymbol.isTerminal lhs = false)
      (hgoto : G.action base (GrammarSymbol.kind lhs) = .shift target) :
      Effect G mode M
        (.next (((((M.popped G t p).tally .addReduction).record
          (.advanced (GrammarSymbol.kind lhs) target)).push
            ⟨lhs, Token.coveringSpan (M.handle G p)⟩ target).tally .addGoto))
  | underflow {state : State} {t : Token Symbol} {p : Production} (h : M.Meets state t)
      (haction : G.action state (GrammarSymbol.kind t.symbol) = .reduce p)
      (hsize : (M.handle G p).length < G.size p ∨ M.states.drop (G.size p) = []) :
      Effect G mode M (.halt (.error (.ofFault (.stackUnderflow (G.label p)))) (M.examined t))
  | refused {state base : State} {t : Token Symbol} {p : Production} {lower : List State}
      {d : Diagnostic} (h : M.Meets state t)
      (haction : G.action state (GrammarSymbol.kind t.symbol) = .reduce p)
      (hsize : (M.handle G p).length = G.size p) (hbase : M.states.drop (G.size p) = base :: lower)
      (hproduct : (M.reduction G p).product = .error d) :
      Effect G mode M (.halt (.error d) (M.popped G t p))
  | terminalProduct {state base : State} {t : Token Symbol} {p : Production} {lower : List State}
      {lhs : Symbol} (h : M.Meets state t)
      (haction : G.action state (GrammarSymbol.kind t.symbol) = .reduce p)
      (hsize : (M.handle G p).length = G.size p) (hbase : M.states.drop (G.size p) = base :: lower)
      (hproduct : (M.reduction G p).product = .ok lhs)
      (hlhs : GrammarSymbol.isTerminal lhs = true) :
      Effect G mode M
        (.halt (.error (.ofFault (.terminalProduct (toString (GrammarSymbol.kind lhs)))))
          ((M.popped G t p).tally .addReduction))
  | missingGoto {state base : State} {t : Token Symbol} {p : Production} {lower : List State}
      {lhs : Symbol} (h : M.Meets state t)
      (haction : G.action state (GrammarSymbol.kind t.symbol) = .reduce p)
      (hsize : (M.handle G p).length = G.size p) (hbase : M.states.drop (G.size p) = base :: lower)
      (hproduct : (M.reduction G p).product = .ok lhs)
      (hlhs : GrammarSymbol.isTerminal lhs = false)
      (hgoto : ∀ target, G.action base (GrammarSymbol.kind lhs) ≠ .shift target) :
      Effect G mode M
        (.halt (.error (.ofFault (.missingGoto (toString base) (toString (GrammarSymbol.kind lhs)))))
          ((M.popped G t p).tally .addReduction))
  -- The table accepts.
  | accept {state : State} {t last : Token Symbol} (h : M.Meets state t)
      (haction : G.action state (GrammarSymbol.kind t.symbol) = .accept)
      (htokens : M.tokens = [last]) :
      Effect G mode M
        (.halt (.ok last.symbol) { (M.examined t).record .accepted with tokens := [] })
  | acceptDepth {state : State} {t : Token Symbol} (h : M.Meets state t)
      (haction : G.action state (GrammarSymbol.kind t.symbol) = .accept)
      (htokens : M.tokens.length ≠ 1) :
      Effect G mode M (.halt (.error (.ofFault (.acceptDepth M.tokens.length)))
        ((M.examined t).record .accepted))
  -- The table has no action; the source is asked for the lookahead once more.
  | relookFailed {state : State} {t : Token Symbol} {d : Diagnostic} (h : M.Meets state t)
      (haction : G.action state (GrammarSymbol.kind t.symbol) = .error)
      (hagain : head M.looked.source = .error d) :
      Effect G mode M (.halt (.error d) (M.relooked t))
  | vanished {state : State} {t : Token Symbol} (h : M.Meets state t)
      (haction : G.action state (GrammarSymbol.kind t.symbol) = .error)
      (hagain : head M.looked.source = .ok none) :
      Effect G mode M (.halt (.error (.streamExhausted t.span)) (M.relooked t))
  | ended {state : State} {t u : Token Symbol} (h : M.Meets state t)
      (haction : G.action state (GrammarSymbol.kind t.symbol) = .error)
      (hagain : head M.looked.source = .ok (some u))
      (hend : GrammarSymbol.isEnd u.symbol = true) :
      Effect G mode M (.halt (.error (.unexpectedEnd t.span)) (M.relooked t))
  | aborted {state : State} {t u : Token Symbol} (h : M.Meets state t)
      (haction : G.action state (GrammarSymbol.kind t.symbol) = .error)
      (hagain : head M.looked.source = .ok (some u))
      (hend : GrammarSymbol.isEnd u.symbol = false) (hmode : mode = .abort) :
      Effect G mode M
        (.halt (.error (.unexpected (GrammarSymbol.text u.symbol) t.span)) (M.relooked t))
  | discard {state : State} {t u : Token Symbol} {answer : Option (Token Symbol)}
      (h : M.Meets state t) (haction : G.action state (GrammarSymbol.kind t.symbol) = .error)
      (hagain : head M.looked.source = .ok (some u))
      (hend : GrammarSymbol.isEnd u.symbol = false) (hmode : mode = .resync)
      (htaken : (TokenSource.consume (M.relooked t).source).answer = .ok answer) :
      Effect G mode M
        (.next ((M.dropped t u (.unexpected (GrammarSymbol.text u.symbol) t.span) state).tally
          .addDiscarded))
  | discardFailed {state : State} {t u : Token Symbol} {d : Diagnostic}
      (h : M.Meets state t) (haction : G.action state (GrammarSymbol.kind t.symbol) = .error)
      (hagain : head M.looked.source = .ok (some u))
      (hend : GrammarSymbol.isEnd u.symbol = false) (hmode : mode = .resync)
      (htaken : (TokenSource.consume (M.relooked t).source).answer = .error d) :
      Effect G mode M
        (.halt (.error d) (M.dropped t u (.unexpected (GrammarSymbol.text u.symbol) t.span) state))

variable {G : Grammar State Production Symbol Kind Context} {mode : ErrorMode}
  {M N : Machine State Production Symbol Kind Context Source} {state : State} {t : Token Symbol}

/-! ## The list is complete -/

theorem effect_shift {target : State} (h : M.Meets state t)
    (haction : G.action state (GrammarSymbol.kind t.symbol) = .shift target) :
    Effect G mode M ((M.examined t).shift t target) := by
  have hsource : ((M.examined t).record (.shifted t target)).source = M.looked.source := rfl
  unfold shift Machine.consume
  simp only [hsource]
  cases htaken : (TokenSource.consume M.looked.source).answer with
  | error d => exact .shiftFailed h haction htaken
  | ok answer =>
      cases answer with
      | none => exact .lost h haction htaken
      | some u => exact .shift h haction htaken

theorem effect_goto {base : State} {p : Production} {lower : List State} {lhs : Symbol}
    (h : M.Meets state t) (haction : G.action state (GrammarSymbol.kind t.symbol) = .reduce p)
    (hsize : (M.handle G p).length = G.size p) (hbase : M.states.drop (G.size p) = base :: lower)
    (hproduct : (M.reduction G p).product = .ok lhs) :
    Effect G mode M
      (((M.popped G t p).tally .addReduction).goto G ⟨lhs, Token.coveringSpan (M.handle G p)⟩) := by
  -- What is left of the stacks leads on from the state `base`.
  have hstates : ((M.popped G t p).tally .addReduction).states = base :: lower := hbase
  unfold goto
  simp only [hstates]
  cases hlhs : GrammarSymbol.isTerminal lhs with
  | true => exact .terminalProduct h haction hsize hbase hproduct hlhs
  | false =>
      simp only [Bool.false_eq_true, if_false]
      split
      · rename_i target hgoto
        exact .reduce h haction hsize hbase hproduct hlhs hgoto
      · rename_i hgoto
        exact .missingGoto h haction hsize hbase hproduct hlhs hgoto

theorem effect_reduce {p : Production} (h : M.Meets state t)
    (haction : G.action state (GrammarSymbol.kind t.symbol) = .reduce p) :
    Effect G mode M ((M.examined t).reduce G p) := by
  have htokens : (M.examined t).tokens = M.tokens := rfl
  have hstates : (M.examined t).states = M.states := rfl
  unfold reduce
  simp only [htokens, hstates]
  split
  · rename_i hsize
    exact .underflow h haction (by simpa [handle] using hsize)
  · rename_i hsize
    rw [not_or, Nat.not_lt, List.isEmpty_iff] at hsize
    obtain ⟨base, lower, hbase⟩ := List.exists_cons_of_ne_nil hsize.2
    have hmost : (M.handle G p).length ≤ G.size p := by
      rw [handle, List.length_reverse]
      exact List.length_take_le _ _
    have hlength : (M.handle G p).length = G.size p := Nat.le_antisymm hmost hsize.1
    split
    · rename_i d hproduct
      exact .refused h haction hlength hbase hproduct
    · rename_i lhs hproduct
      exact effect_goto h haction hlength hbase hproduct

theorem effect_accept (h : M.Meets state t)
    (haction : G.action state (GrammarSymbol.kind t.symbol) = .accept) :
    Effect G mode M (M.examined t).accept := by
  unfold accept
  dsimp only
  split
  · rename_i last htokens
    exact .accept h haction htokens
  · rename_i tokens hmany
    refine .acceptDepth h haction fun hone => ?_
    obtain ⟨last, hlast⟩ := List.length_eq_one_iff.1 hone
    exact hmany last hlast

theorem effect_reject (h : M.Meets state t)
    (haction : G.action state (GrammarSymbol.kind t.symbol) = .error) :
    Effect G mode M ((M.examined t).reject mode state t.span) := by
  have hsource : (M.examined t).source = M.looked.source := rfl
  unfold reject Machine.peek Machine.consume
  simp only [hsource]
  cases hagain : (TokenSource.peek M.looked.source).answer with
  | error d => exact .relookFailed h haction hagain
  | ok answer =>
      cases answer with
      | none => exact .vanished h haction hagain
      | some u =>
          dsimp only
          split
          · rename_i hend
            exact .ended h haction hagain hend
          · rename_i hend
            have hend : GrammarSymbol.isEnd u.symbol = false := by simpa using hend
            cases mode with
            | abort => exact .aborted h haction hagain hend rfl
            | resync =>
                have hagain' : ((((M.examined t).absorb (TokenSource.peek M.looked.source)).record
                    (.discarded u (.unexpected (GrammarSymbol.text u.symbol) t.span) state)).report
                    (.unexpected (GrammarSymbol.text u.symbol) t.span)).source =
                  (M.relooked t).source := rfl
                simp only [hagain']
                cases htaken : (TokenSource.consume (M.relooked t).source).answer with
                | error d => exact .discardFailed h haction hagain hend rfl htaken
                | ok answer => exact .discard h haction hagain hend rfl htaken

theorem step_effect (G : Grammar State Production Symbol Kind Context) (mode : ErrorMode)
    (M : Machine State Production Symbol Kind Context Source) :
    Effect G mode M (M.step G mode) := by
  unfold step Machine.peek
  cases hstates : M.states with
  | nil => exact .unready hstates
  | cons state lower =>
      have hne : M.states ≠ [] := by simp [hstates]
      dsimp only
      cases hhead : (TokenSource.peek M.source).answer with
      | error d => exact .sourceFailed hne hhead
      | ok answer =>
          cases answer with
          | none => exact .exhausted hne hhead
          | some t =>
              dsimp only
              cases hterminal : GrammarSymbol.isTerminal t.symbol with
              | false => exact .stray hne hhead hterminal
              | true =>
                  have hmeets : M.Meets state t := ⟨⟨lower, hstates⟩, hhead, hterminal⟩
                  simp only [if_true]
                  unfold examine
                  dsimp only
                  cases haction : G.action state (GrammarSymbol.kind t.symbol) with
                  | shift target => exact effect_shift hmeets haction
                  | reduce p => exact effect_reduce hmeets haction
                  | accept => exact effect_accept hmeets haction
                  | error => exact effect_reject hmeets haction

theorem effect_of_step {s : Step State Production Symbol Kind Context Source}
    (h : M.step G mode = s) : Effect G mode M s :=
  h ▸ M.step_effect G mode

/-! ## From steps to runs -/

/-- Whether a step goes on or not, it adds at most a complaint about a token that has no place, and
none if the run aborts. -/
theorem diagnostics_step (G : Grammar State Production Symbol Kind Context) (mode : ErrorMode)
    (M : Machine State Production Symbol Kind Context Source) :
    (M.step G mode).machine.diagnostics = M.diagnostics ∨
      mode = .resync ∧ ∃ found span,
        (M.step G mode).machine.diagnostics = .unexpected found span :: M.diagnostics := by
  generalize hstep : M.step G mode = s
  cases effect_of_step hstep with
  | discard _ _ _ _ hmode => exact .inr ⟨hmode, _, _, rfl⟩
  | discardFailed _ _ _ _ hmode => exact .inr ⟨hmode, _, _, rfl⟩
  | _ => exact .inl rfl

/-- What every step that goes on keeps holds of every machine of a run. -/
theorem Leads.keeps {P : Machine State Production Symbol Kind Context Source → Prop}
    (hstep : ∀ {M N : Machine State Production Symbol Kind Context Source},
      P M → M.step G mode = .next N → P N) (hM : P M) (h : Leads G mode M N) : P N := by
  induction h with
  | refl => exact hM
  | tail _ hnext ih => exact hstep ih hnext

/-- What every step keeps, whether it goes on or not, holds of every machine of a run. -/
theorem Leads.keeps_always {P : Machine State Production Symbol Kind Context Source → Prop}
    (hstep : ∀ {M : Machine State Production Symbol Kind Context Source},
      P M → P (M.step G mode).machine)
    (hM : P M) (h : Leads G mode M N) : P N :=
  h.keeps (fun hM hnext => by simpa [hnext] using hstep hM) hM

theorem runWithin_of_next {M : Machine State Production Symbol Kind Context Source} (fuel : Nat)
    (h : M.step G mode = .next N) : runWithin G mode (fuel + 1) M = runWithin G mode fuel N := by
  rw [runWithin, h]

theorem runWithin_of_halt {M N' : Machine State Production Symbol Kind Context Source}
    {result : Except Diagnostic Symbol} (fuel : Nat) (h : M.step G mode = .halt result N') :
    runWithin G mode (fuel + 1) M = some (result, N') := by
  rw [runWithin, h]

/-- A run that ends has a last step. -/
theorem exists_halt_of_runWithin {fuel : Nat}
    {r : Result State Production Symbol Kind Context Source}
    {M : Machine State Production Symbol Kind Context Source}
    (h : runWithin G mode fuel M = some r) :
    ∃ N, Leads G mode M N ∧ N.step G mode = .halt r.1 r.2 := by
  induction fuel generalizing M with
  | zero => cases h
  | succ fuel ih =>
      cases hstep : M.step G mode with
      | next N =>
          rw [runWithin_of_next fuel hstep] at h
          obtain ⟨last, hleads, hhalt⟩ := ih h
          exact ⟨last, .head hstep hleads, hhalt⟩
      | halt result N =>
          rw [runWithin_of_halt fuel hstep] at h
          cases h
          exact ⟨M, .refl, hstep⟩

/-- What every step keeps holds at the end of a run. -/
theorem runWithin_keeps {P : Machine State Production Symbol Kind Context Source → Prop}
    {fuel : Nat} {r : Result State Production Symbol Kind Context Source}
    (hstep : ∀ {M : Machine State Production Symbol Kind Context Source},
      P M → P (M.step G mode).machine)
    (hM : P M) (h : runWithin G mode fuel M = some r) : P r.2 := by
  obtain ⟨N, hleads, hhalt⟩ := exists_halt_of_runWithin h
  simpa [hhalt] using hstep (hleads.keeps_always hstep hM)

theorem exists_run_of_analyze [FiniteSource Source] (W : G.Shrinking) (mode : ErrorMode)
    (M : Machine State Production Symbol Kind Context Source) :
    ∃ fuel r, runWithin G mode fuel (M.reset G.start) = some r ∧ analyze W mode M = conclude r := by
  refine ⟨potential W (M.reset G.start) + 1, run W mode (M.reset G.start), ?_, rfl⟩
  simp [run]

theorem exists_run_of_analyzeWithin {fuel : Nat}
    {M M' : Machine State Production Symbol Kind Context Source}
    {A : Analysis State Production Symbol Kind}
    (h : analyzeWithin G mode fuel M = some (A, M')) :
    ∃ r, runWithin G mode fuel (M.reset G.start) = some r ∧ A = (conclude r).1 ∧
      M' = (conclude r).2 := by
  obtain ⟨r, hrun, hconclude⟩ := Option.map_eq_some_iff.1 h
  exact ⟨r, hrun, by rw [hconclude], by rw [hconclude]⟩

end Machine

end ShiftReduce
