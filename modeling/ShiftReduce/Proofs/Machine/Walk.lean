import Mathlib.Logic.Relation
import ShiftReduce.Machine.Analysis
import ShiftReduce.Proofs.Source.Delivery

/-!
# Walks — runs put together from steps

A run is a walk of steps that go on and one step that halts.  Each kind of step is described here by
what it does to the stacks, to the source and to the account of a run: its diagnostics and what
became of each token.

* `Machine.account`, `Analysis.verdicts`: what a run tells about the tokens it took.
* `Machine.exists_step_reduce`, `exists_step_shift`, `exists_step_discard`: steps that go on.
* `Machine.exists_halt_accept`, `exists_halt_reject`, `exists_halt_end`: steps that halt.
* `Machine.analyze_of_leads`: the report on a run from its walk.
-/

namespace ShiftReduce

open TokenSource

/-! ## Verdicts -/

@[simp] def Event.verdict? {State Production Symbol Kind : Type} :
    Event State Production Symbol Kind → Option (Token Symbol × Bool)
  | .shifted lookahead _ => some (lookahead, true)
  | .discarded lookahead _ _ => some (lookahead, false)
  | _ => none

/-- The tokens that left the source in their order, each with whether it was kept. -/
def Analysis.verdicts {State Production Symbol Kind : Type}
    (A : Analysis State Production Symbol Kind) : List (Token Symbol × Bool) :=
  A.events.filterMap Event.verdict?

def Token.complaint {Symbol Kind : Type} [GrammarSymbol Symbol Kind] (t : Token Symbol) :
    Diagnostic :=
  .unexpected (GrammarSymbol.text t.symbol) t.span

theorem Token.isFatal_complaint {Symbol Kind : Type} [GrammarSymbol Symbol Kind]
    (t : Token Symbol) : t.complaint.isFatal = false :=
  rfl

namespace Machine

variable {State Production Symbol Kind Context Source : Type}

/-- What a run has to show for itself: the diagnostics and the verdicts, newest first. -/
def account (M : Machine State Production Symbol Kind Context Source) :
    List Diagnostic × List (Token Symbol × Bool) :=
  (M.diagnostics, M.events.filterMap Event.verdict?)

/-- Notes are left out by whoever looks for other events. -/
theorem filterMap_noted {α : Type} {f : Event State Production Symbol Kind → Option α}
    (hf : ∀ n, f (.noted n) = none) (notes : List Note)
    (events : List (Event State Production Symbol Kind)) :
    ((notes.map Event.noted).reverse ++ events).filterMap f = events.filterMap f := by
  have hnone : ((notes.map Event.noted).reverse).filterMap f = [] := by
    simp [hf]
  rw [List.filterMap_append, hnone, List.nil_append]

@[simp high] theorem filterMap_verdict?_noted (notes : List Note)
    (events : List (Event State Production Symbol Kind)) :
    ((notes.map Event.noted).reverse ++ events).filterMap Event.verdict? =
      events.filterMap Event.verdict? :=
  filterMap_noted (fun _ => rfl) notes events

@[simp] theorem filterMap_verdict?_cons (e : Event State Production Symbol Kind)
    (events : List (Event State Production Symbol Kind)) :
    (e :: events).filterMap Event.verdict? =
      e.verdict?.toList ++ events.filterMap Event.verdict? := by
  rw [List.filterMap_cons]
  cases e.verdict? <;> rfl

theorem account_absorb (M : Machine State Production Symbol Kind Context Source)
    (pull : Pull Source Symbol) : (M.absorb pull).account = M.account := by
  simp [account, absorb, recordNotes]

variable [TokenSource Source Symbol] [GrammarSymbol Symbol Kind] [ToString State] [ToString Kind]

def Leads (G : Grammar State Production Symbol Kind Context) (mode : ErrorMode)
    (M N : Machine State Production Symbol Kind Context Source) : Prop :=
  Relation.ReflTransGen (fun M N => M.step G mode = .next N) M N

variable {G : Grammar State Production Symbol Kind Context} {mode : ErrorMode}
  {M N : Machine State Production Symbol Kind Context Source}

theorem exists_runWithin_of_leads {result : Except Diagnostic Symbol}
    {N' : Machine State Production Symbol Kind Context Source} (h : Leads G mode M N)
    (hhalt : N.step G mode = .halt result N') :
    ∃ fuel, runWithin G mode fuel M = some (result, N') := by
  -- Steps are added in front, where `runWithin` takes them off.
  induction h using Relation.ReflTransGen.head_induction_on with
  | refl =>
      refine ⟨1, ?_⟩
      unfold runWithin
      rw [hhalt]
  | head hstep _ ih =>
      rcases ih with ⟨fuel, hfuel⟩
      refine ⟨fuel + 1, ?_⟩
      unfold runWithin
      rw [hstep]
      exact hfuel

theorem run_of_leads [FiniteSource Source] (W : G.Shrinking) {result : Except Diagnostic Symbol}
    {N' : Machine State Production Symbol Kind Context Source} (h : Leads G mode M N)
    (hhalt : N.step G mode = .halt result N') : run W mode M = (result, N') := by
  rcases exists_runWithin_of_leads h hhalt with ⟨fuel, hfuel⟩
  exact (eq_run_of_runWithin W hfuel).symm

/-! ## The kinds of steps -/

section Steps

variable (mode) {state target : State} {states : List State} {t : Token Symbol}

theorem step_eq_examine (hstates : M.states = state :: states)
    (hhead : head M.source = .ok (some t))
    (hterminal : GrammarSymbol.isTerminal t.symbol = true) :
    M.step G mode = (M.absorb (TokenSource.peek M.source)).examine G mode state t := by
  unfold step Machine.peek
  rw [hstates]
  dsimp only
  rw [show (TokenSource.peek M.source).answer = .ok (some t) from hhead]
  dsimp only
  rw [if_pos hterminal]

/-- A reduction replaces the right-hand side on the stack by the left-hand side. -/
theorem exists_step_reduce {base : State} {popped lower : List State}
    {upper below : List (Token Symbol)} {p : Production} {lhs : Symbol}
    (hstates : M.states = state :: states) (hhead : head M.source = .ok (some t))
    (hterminal : GrammarSymbol.isTerminal t.symbol = true)
    (haction : G.action state (GrammarSymbol.kind t.symbol) = .reduce p)
    (hpopped : M.states = popped ++ base :: lower) (hlength : popped.length = G.size p)
    (htokens : M.tokens = upper ++ below) (hsize : upper.length = G.size p)
    (hproduct : (G.reduce p (upper.reverse.map Token.symbol) M.context).product = .ok lhs)
    (hlhs : GrammarSymbol.isTerminal lhs = false)
    (hgoto : G.action base (GrammarSymbol.kind lhs) = .shift target) :
    ∃ N, M.step G mode = .next N ∧ N.states = target :: base :: lower ∧
      N.tokens = ⟨lhs, Token.coveringSpan upper.reverse⟩ :: below ∧
      N.source = (TokenSource.peek M.source).source ∧ N.account = M.account := by
  -- The stacks fall apart where the right-hand side begins.
  have htake : M.tokens.take (G.size p) = upper := by
    rw [htokens, ← hsize, List.take_left]
  have hdrop : M.tokens.drop (G.size p) = below := by
    rw [htokens, ← hsize, List.drop_left]
  have hrest : M.states.drop (G.size p) = base :: lower := by
    rw [hpopped, ← hlength, List.drop_left]
  have hfull : ¬(upper.reverse.length < G.size p ∨ (base :: lower).isEmpty = true) := by
    simp [hsize]
  rw [step_eq_examine _ hstates hhead hterminal]
  simp only [examine, haction, reduce, record, tally, absorb, recordNotes, pop, htake, hdrop,
    hrest]
  -- The stacks are high enough, and the left-hand side is no terminal: nothing can go wrong.
  rw [if_neg hfull]
  simp only [hproduct, goto, hlhs, hgoto, Bool.false_eq_true, if_false]
  refine ⟨_, rfl, rfl, rfl, rfl, ?_⟩
  simp [account, push, tally, record]

/-- The table accepts with one symbol on the stack. -/
theorem exists_halt_accept {last : Token Symbol} (hstates : M.states = state :: states)
    (hhead : head M.source = .ok (some t))
    (hterminal : GrammarSymbol.isTerminal t.symbol = true)
    (haction : G.action state (GrammarSymbol.kind t.symbol) = .accept)
    (htokens : M.tokens = [last]) :
    ∃ N, M.step G mode = .halt (.ok last.symbol) N ∧ N.account = M.account := by
  rw [step_eq_examine _ hstates hhead hterminal]
  simp only [examine, haction, accept, record, tally, absorb, recordNotes, htokens]
  refine ⟨_, rfl, ?_⟩
  simp [account]

theorem exists_halt_error {d : Diagnostic} (hstates : M.states = state :: states)
    (hhead : head M.source = .error d) :
    ∃ N, M.step G mode = .halt (.error d) N ∧ N.account = M.account := by
  unfold step Machine.peek
  rw [hstates]
  dsimp only
  rw [show (TokenSource.peek M.source).answer = .error d from hhead]
  exact ⟨_, rfl, M.account_absorb _⟩

/-- Where the source has nothing left, the run points at the top of the stack. -/
theorem exists_halt_exhausted (hstates : M.states = state :: states)
    (hhead : head M.source = .ok none) :
    ∃ N, M.step G mode =
        .halt (.error (.streamExhausted (M.tokens.head?.bind Token.span))) N ∧
      N.account = M.account := by
  unfold step Machine.peek
  rw [hstates]
  dsimp only
  rw [show (TokenSource.peek M.source).answer = .ok none from hhead]
  exact ⟨_, rfl, M.account_absorb _⟩

variable [LawfulSource Source]

theorem exists_step_shift (hstates : M.states = state :: states)
    (hhead : head M.source = .ok (some t))
    (hterminal : GrammarSymbol.isTerminal t.symbol = true)
    (haction : G.action state (GrammarSymbol.kind t.symbol) = .shift target) :
    ∃ N, M.step G mode = .next N ∧ N.states = target :: M.states ∧ N.tokens = t :: M.tokens ∧
      N.source = tail M.source ∧
      N.account = (M.account.1, (t, true) :: M.account.2) := by
  have htaken : (TokenSource.consume (TokenSource.peek M.source).source).answer =
      .ok (some t) := (LawfulSource.answer_consume_peek M.source).trans hhead
  rw [step_eq_examine _ hstates hhead hterminal]
  simp only [examine, haction, shift, Machine.consume, record, tally, absorb, recordNotes, htaken]
  refine ⟨_, rfl, rfl, rfl, rfl, ?_⟩
  simp [account, push]

/-- A run that resynchronizes reports the lookahead and goes on without it. -/
theorem exists_step_discard (hstates : M.states = state :: states)
    (hhead : head M.source = .ok (some t))
    (hterminal : GrammarSymbol.isTerminal t.symbol = true)
    (hend : GrammarSymbol.isEnd t.symbol = false)
    (haction : G.action state (GrammarSymbol.kind t.symbol) = .error) :
    ∃ N, M.step G .resync = .next N ∧ N.states = M.states ∧ N.tokens = M.tokens ∧
      N.source = tail M.source ∧
      N.account = (t.complaint :: M.account.1, (t, false) :: M.account.2) := by
  -- The source is asked three times: by the step, by the rejection, and for the token itself.
  have hagain : (TokenSource.peek (TokenSource.peek M.source).source).answer = .ok (some t) :=
    (LawfulSource.answer_peek_peek M.source).trans hhead
  have htaken : (TokenSource.consume (TokenSource.peek M.source).source).answer =
      .ok (some t) := (LawfulSource.answer_consume_peek M.source).trans hhead
  rw [step_eq_examine _ hstates hhead hterminal]
  simp only [examine, haction, reject, Machine.peek, Machine.consume, record, tally, absorb,
    recordNotes, report, hagain, hend, Bool.false_eq_true, if_false,
    LawfulSource.source_peek_peek, htaken]
  refine ⟨_, rfl, rfl, rfl, rfl, ?_⟩
  simp [account, Token.complaint]

/-- A run that must not discard anything ends with a report on the lookahead. -/
theorem exists_halt_reject (hstates : M.states = state :: states)
    (hhead : head M.source = .ok (some t))
    (hterminal : GrammarSymbol.isTerminal t.symbol = true)
    (hend : GrammarSymbol.isEnd t.symbol = false)
    (haction : G.action state (GrammarSymbol.kind t.symbol) = .error) :
    ∃ N, M.step G .abort = .halt (.error t.complaint) N ∧ N.account = M.account := by
  have hagain : (TokenSource.peek (TokenSource.peek M.source).source).answer = .ok (some t) :=
    (LawfulSource.answer_peek_peek M.source).trans hhead
  rw [step_eq_examine _ hstates hhead hterminal]
  simp only [examine, haction, reject, Machine.peek, record, tally, absorb, recordNotes, hagain,
    hend, Bool.false_eq_true, if_false]
  refine ⟨_, rfl, ?_⟩
  simp [account]

/-- No run goes on behind the end marker. -/
theorem exists_halt_end (hstates : M.states = state :: states)
    (hhead : head M.source = .ok (some t))
    (hterminal : GrammarSymbol.isTerminal t.symbol = true)
    (hend : GrammarSymbol.isEnd t.symbol = true)
    (haction : G.action state (GrammarSymbol.kind t.symbol) = .error) :
    ∃ N, M.step G mode = .halt (.error (.unexpectedEnd t.span)) N ∧ N.account = M.account := by
  have hagain : (TokenSource.peek (TokenSource.peek M.source).source).answer = .ok (some t) :=
    (LawfulSource.answer_peek_peek M.source).trans hhead
  rw [step_eq_examine _ hstates hhead hterminal]
  simp only [examine, haction, reject, Machine.peek, record, tally, absorb, recordNotes, hagain,
    hend, if_true]
  refine ⟨_, rfl, ?_⟩
  simp [account]

end Steps

/-! ## Reports -/

variable [FiniteSource Source] {N' : Machine State Production Symbol Kind Context Source}

theorem analyze_of_leads (W : G.Shrinking) {result : Except Diagnostic Symbol}
    (h : Leads G mode (M.reset G.start) N) (hhalt : N.step G mode = .halt result N') :
    analyze W mode M = conclude (result, N') := by
  rw [analyze, run_of_leads W h hhalt]

theorem analyze_of_accept (W : G.Shrinking) {s : Symbol}
    (h : Leads G mode (M.reset G.start) N) (hhalt : N.step G mode = .halt (.ok s) N') :
    (analyze W mode M).1.outcome =
        (if N'.account.1.isEmpty then .accepted s else .recovered s) ∧
      (analyze W mode M).1.diagnostics = N'.account.1.reverse ∧
      (analyze W mode M).1.verdicts = N'.account.2.reverse := by
  rw [analyze_of_leads W h hhalt]
  refine ⟨rfl, rfl, ?_⟩
  exact List.filterMap_reverse

theorem analyze_of_failure (W : G.Shrinking) {d : Diagnostic}
    (h : Leads G mode (M.reset G.start) N) (hhalt : N.step G mode = .halt (.error d) N') :
    (analyze W mode M).1.outcome = .failed d ∧
      (analyze W mode M).1.diagnostics = N'.account.1.reverse ++ [d] ∧
      (analyze W mode M).1.verdicts = N'.account.2.reverse := by
  rw [analyze_of_leads W h hhalt]
  refine ⟨rfl, List.reverse_cons, ?_⟩
  exact List.filterMap_reverse

end Machine

end ShiftReduce
