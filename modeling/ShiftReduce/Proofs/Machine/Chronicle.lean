import ShiftReduce.Proofs.Machine.Conservation

/-!
# Chronicle — what the events of a run tell

A run writes down which productions it reduces by, and which tokens it throws away.  If every symbol
carries the productions that it was built by, in their order, then the stack carries all those that were
written down.  Every diagnostic that a run survives is written down with the token it is about, and the
one that it does not survive is written down last.

* `Grammar.Tracing`, `Machine.Traced`: symbols that carry productions, and that the stack has them all.
* `Machine.trace_of_halt`: the symbol of a run that succeeds carries its reductions, in their order.
* `Machine.diagnostics_eq_dismissals`: the diagnostics of a run are those that were written down.
* `QuietSource`, `Grammar.Quiet`, `Machine.Calm`: who makes no remarks but those of the lowest level.
* `Machine.remarks_debug_conclude`, `Machine.remarks_warn_conclude`: the lines of the journal.
-/

namespace ShiftReduce

open TokenSource

variable {State Production Symbol Kind Context Source : Type}

/-! ## Events -/

namespace Event

@[simp] def reduced? : Event State Production Symbol Kind → Option Production
  | .reduced p => some p
  | _ => none

/-- The diagnostic that the event reports on a token that is thrown away, and the state in which. -/
@[simp] def dismissal? : Event State Production Symbol Kind → Option (Diagnostic × State)
  | .discarded _ error state => some (error, state)
  | _ => none

end Event

namespace Analysis

variable (A : Analysis State Production Symbol Kind)

def reductions : List Production :=
  A.events.filterMap Event.reduced?

def dismissals : List (Diagnostic × State) :=
  A.events.filterMap Event.dismissal?

end Analysis

namespace Machine

/-- The productions and the dismissals that a run has written down so far, newest first. -/
def chronicle (M : Machine State Production Symbol Kind Context Source) :
    List Production × List (Diagnostic × State) :=
  (M.events.filterMap Event.reduced?, M.events.filterMap Event.dismissal?)

/-! ## The chronicle in the middle of a step -/

section Stages

variable (M : Machine State Production Symbol Kind Context Source)

@[simp] theorem chronicle_record (e : Event State Production Symbol Kind) :
    (M.record e).chronicle =
      (e.reduced?.toList ++ M.chronicle.1, e.dismissal?.toList ++ M.chronicle.2) := by
  cases e <;> rfl

@[simp] theorem chronicle_recordNotes (notes : List Note) :
    (M.recordNotes notes).chronicle = M.chronicle :=
  congrArg₂ Prod.mk (filterMap_noted (fun _ => rfl) notes M.events)
    (filterMap_noted (fun _ => rfl) notes M.events)

@[simp] theorem chronicle_absorb (pull : Pull Source Symbol) :
    (M.absorb pull).chronicle = M.chronicle :=
  M.chronicle_recordNotes pull.notes

@[simp] theorem chronicle_tally (f : RunStats → RunStats) : (M.tally f).chronicle = M.chronicle :=
  rfl

@[simp] theorem chronicle_push (token : Token Symbol) (state : State) :
    (M.push token state).chronicle = M.chronicle :=
  rfl

@[simp] theorem chronicle_report (d : Diagnostic) : (M.report d).chronicle = M.chronicle :=
  rfl

variable [TokenSource Source Symbol]

@[simp] theorem chronicle_looked : M.looked.chronicle = M.chronicle :=
  M.chronicle_absorb _

@[simp] theorem chronicle_examined (t : Token Symbol) : (M.examined t).chronicle = M.chronicle :=
  (M.looked.chronicle_record _).trans M.chronicle_looked

@[simp] theorem chronicle_accepted (t : Token Symbol) :
    ((M.examined t).record .accepted).chronicle = M.chronicle :=
  ((M.examined t).chronicle_record .accepted).trans (M.chronicle_examined t)

@[simp] theorem chronicle_taken (t : Token Symbol) (target : State) :
    (M.taken t target).chronicle = M.chronicle := by
  rw [taken, chronicle_absorb, chronicle_record, chronicle_examined]
  rfl

@[simp] theorem chronicle_popped (G : Grammar State Production Symbol Kind Context)
    (t : Token Symbol) (p : Production) :
    (M.popped G t p).chronicle = (p :: M.chronicle.1, M.chronicle.2) := by
  have hrecord := (M.examined t).chronicle_record (.reduced p)
  rw [chronicle_examined] at hrecord
  exact (chronicle_recordNotes _ _).trans hrecord

@[simp] theorem chronicle_relooked (t : Token Symbol) : (M.relooked t).chronicle = M.chronicle := by
  rw [relooked, chronicle_absorb, chronicle_examined]

@[simp] theorem chronicle_dropped (t u : Token Symbol) (error : Diagnostic) (state : State) :
    (M.dropped t u error state).chronicle = (M.chronicle.1, (error, state) :: M.chronicle.2) := by
  rw [dropped, chronicle_absorb, chronicle_report, chronicle_record, chronicle_relooked]
  rfl

end Stages

end Machine

/-! ## Productions -/

/-- The productions that symbols carry: terminals that the table shifts carry none, and a symbol that a
reduction builds carries those of its right-hand side, from left to right, and then its own. -/
structure Grammar.Tracing [GrammarSymbol Symbol Kind]
    (G : Grammar State Production Symbol Kind Context) where
  trace : Symbol → List Production
  trace_shifted : ∀ (state : State) (s : Symbol) (target : State),
    GrammarSymbol.isTerminal s = true → G.action state (GrammarSymbol.kind s) = .shift target →
      trace s = []
  trace_product : ∀ p rhs c s, (G.reduce p rhs c).product = .ok s →
    trace s = rhs.flatMap trace ++ [p]

namespace Machine

section Productions

variable [GrammarSymbol Symbol Kind] {G : Grammar State Production Symbol Kind Context}
  {T : G.Tracing} {mode : ErrorMode}
  {M N N' : Machine State Production Symbol Kind Context Source}

/-- From the bottom up, the stack carries the productions by which the run has reduced. -/
def Traced (T : G.Tracing) (M : Machine State Production Symbol Kind Context Source) : Prop :=
  M.tokens.reverse.flatMap (fun t => T.trace t.symbol) = M.chronicle.1.reverse

theorem traced_reset (T : G.Tracing) (M : Machine State Production Symbol Kind Context Source)
    (start : State) : (M.reset start).Traced T :=
  rfl

/-- A terminal that is shifted carries nothing. -/
theorem Traced.shift {state target : State} {t : Token Symbol} (h : M.Traced T)
    (hterminal : GrammarSymbol.isTerminal t.symbol = true)
    (haction : G.action state (GrammarSymbol.kind t.symbol) = .shift target)
    (htokens : N.tokens = t :: M.tokens) (hchronicle : N.chronicle = M.chronicle) :
    N.Traced T := by
  have hnone := T.trace_shifted _ _ _ hterminal haction
  rw [Traced, htokens, hchronicle, List.reverse_cons, List.flatMap_append, List.flatMap_singleton,
    hnone, List.append_nil]
  exact h

/-- A left-hand side carries what its right-hand side carried, and the production. -/
theorem Traced.reduce {p : Production} {lhs : Symbol} {span : Option Span} (h : M.Traced T)
    (hproduct : (M.reduction G p).product = .ok lhs)
    (htokens : N.tokens = ⟨lhs, span⟩ :: M.tokens.drop (G.size p))
    (hchronicle : N.chronicle.1 = p :: M.chronicle.1) : N.Traced T := by
  have hlhs : T.trace lhs = (M.handle G p).flatMap (fun t => T.trace t.symbol) ++ [p] := by
    rw [T.trace_product _ _ _ _ hproduct, List.flatMap_map]
  have hsplit : M.tokens.reverse = (M.tokens.drop (G.size p)).reverse ++ M.handle G p := by
    rw [handle, ← List.reverse_append, List.take_append_drop]
  calc N.tokens.reverse.flatMap (fun t => T.trace t.symbol)
      = (M.tokens.drop (G.size p)).reverse.flatMap (fun t => T.trace t.symbol) ++ T.trace lhs := by
        rw [htokens, List.reverse_cons, List.flatMap_append, List.flatMap_singleton]
    _ = M.tokens.reverse.flatMap (fun t => T.trace t.symbol) ++ [p] := by
        rw [hlhs, hsplit, List.flatMap_append, List.append_assoc]
    _ = M.chronicle.1.reverse ++ [p] := congrArg (· ++ [p]) h
    _ = N.chronicle.1.reverse := by rw [hchronicle, List.reverse_cons]

variable [TokenSource Source Symbol] [HonestSource Source] [ToString State] [ToString Kind]

theorem Traced.next (h : M.Traced T) (hstep : M.step G mode = .next N) : N.Traced T := by
  cases effect_of_step hstep with
  | shift hmeets haction htaken =>
      -- What is pushed is the lookahead that the table shifts.
      cases HonestSource.eq_of_consume_peek _ _ _ hmeets.head htaken
      exact h.shift hmeets.terminal haction rfl (by simp)
  | reduce _ _ _ _ hproduct => exact h.reduce hproduct rfl (by simp)
  | discard => exact h.trans (by simp)

/-- The symbol that a run ends with carries all productions by which the run has reduced. -/
theorem trace_of_halt {s : Symbol} (T : G.Tracing) (hleads : Leads G mode (M.reset G.start) N)
    (hhalt : N.step G mode = .halt (.ok s) N') : T.trace s = N'.chronicle.1.reverse := by
  have htraced : N.Traced T := hleads.keeps Traced.next (traced_reset T M G.start)
  cases effect_of_step hhalt with
  | @accept _ t last _ _ htokens =>
      rw [Traced, htokens, List.reverse_singleton, List.flatMap_singleton] at htraced
      rw [htraced, ← N.chronicle_accepted t]
      rfl

end Productions

/-! ## Diagnostics -/

section Diagnostics

/-- Every diagnostic that a run has survived is written down. -/
def Noticed (M : Machine State Production Symbol Kind Context Source) : Prop :=
  M.account.1 = M.chronicle.2.map Prod.fst

theorem noticed_reset (M : Machine State Production Symbol Kind Context Source) (start : State) :
    (M.reset start).Noticed :=
  rfl

variable [TokenSource Source Symbol] [GrammarSymbol Symbol Kind] [ToString State] [ToString Kind]
  {G : Grammar State Production Symbol Kind Context} {mode : ErrorMode}
  {M : Machine State Production Symbol Kind Context Source}

theorem Noticed.step (h : M.Noticed) : (M.step G mode).machine.Noticed := by
  unfold Noticed at *
  generalize hstep : M.step G mode = s
  cases effect_of_step hstep with
  | @accept _ t =>
      rw [← M.account_accepted t, ← M.chronicle_accepted t] at h
      exact h
  | _ => simp [h]

theorem noticed_of_runWithin {fuel : Nat} {r : Result State Production Symbol Kind Context Source}
    (h : runWithin G mode fuel (M.reset G.start) = some r) : r.2.Noticed :=
  runWithin_keeps Noticed.step (noticed_reset M G.start) h

end Diagnostics

/-! ## Reports -/

section Reports

variable {r : Result State Production Symbol Kind Context Source}

theorem reductions_conclude : (conclude r).1.reductions = r.2.chronicle.1.reverse := by
  rcases r with ⟨_ | _, M⟩ <;> exact List.filterMap_reverse

theorem dismissals_conclude : (conclude r).1.dismissals = r.2.chronicle.2.reverse := by
  rcases r with ⟨_ | _, M⟩ <;> exact List.filterMap_reverse

/-- The events of a report are those of the run and, if it failed, a last one that tells why. -/
theorem events_conclude : (conclude r).1.events =
    r.2.events.reverse ++ (conclude r).1.fatal?.toList.map Event.terminated := by
  rcases r with ⟨d | s, M⟩
  · exact List.reverse_cons
  · simp only [conclude]
    cases M.diagnostics <;> simp [Analysis.fatal?]

/-- The diagnostics of a report are those that were written down, and what stopped the run. -/
theorem diagnostics_eq_dismissals (h : r.2.Noticed) :
    (conclude r).1.diagnostics =
      (conclude r).1.dismissals.map Prod.fst ++ (conclude r).1.fatal?.toList := by
  rw [diagnostics_conclude, dismissals_conclude, h, List.map_reverse]

end Reports

end Machine

/-! ## Remarks -/

namespace Event

variable [ToString State] [ToString Kind] [GrammarSymbol Symbol Kind]

def remarks (G : Grammar State Production Symbol Kind Context) (l : Level)
    (events : List (Event State Production Symbol Kind)) : List String :=
  ((events.map (note G)).filter fun n => n.level = l).map fun n => n.text ()

/-- The event neither ends the run nor is a remark of a higher level than the lowest. -/
def Ordinary : Event State Production Symbol Kind → Prop
  | .terminated _ => False
  | .noted n => n.level = .trace
  | _ => True

variable (G : Grammar State Production Symbol Kind Context)
  {events : List (Event State Production Symbol Kind)}

theorem remarks_append (l : Level) (events events' : List (Event State Production Symbol Kind)) :
    remarks G l (events ++ events') = remarks G l events ++ remarks G l events' := by
  simp [remarks]

/-- Where a level shows each event as `f` and `line` tell, it shows all of them so. -/
theorem remarks_eq_map {α : Type} {l : Level} {f : Event State Production Symbol Kind → Option α}
    {line : α → String} (h : ∀ e ∈ events, remarks G l [e] = (f e).toList.map line) :
    remarks G l events = (events.filterMap f).map line := by
  induction events with
  | nil => rfl
  | cons e events ih =>
      obtain ⟨he, hevents⟩ := List.forall_mem_cons.1 h
      have hfirst : remarks G l (e :: events) = remarks G l [e] ++ remarks G l events :=
        remarks_append G l [e] events
      rw [hfirst, he, ih hevents, List.filterMap_cons]
      cases f e <;> rfl

/-- Among ordinary events only reductions are remarked on at the middle level. -/
theorem remarks_debug (h : ∀ e ∈ events, e.Ordinary) :
    remarks G .debug events =
      (events.filterMap reduced?).map fun p => "Reduce " ++ G.label p := by
  refine remarks_eq_map G fun e he => ?_
  have hordinary := h e he
  cases e with
  | terminated d => exact hordinary.elim
  | noted n =>
      have hlevel : n.level = .trace := hordinary
      simp [remarks, note, hlevel]
  | _ => rfl

/-- Among ordinary events only tokens that are thrown away are warned of. -/
theorem remarks_warn (h : ∀ e ∈ events, e.Ordinary) :
    remarks G .warn events = (events.filterMap dismissal?).map fun x =>
      toString x.1 ++ " in state " ++ toString x.2 ++ " was discarded" := by
  refine remarks_eq_map G fun e he => ?_
  have hordinary := h e he
  cases e with
  | terminated d => exact hordinary.elim
  | noted n =>
      have hlevel : n.level = .trace := hordinary
      simp [remarks, note, hlevel]
  | _ => rfl

end Event

/-- The source makes no remarks but those of the lowest level. -/
class QuietSource (Source : Type) {Symbol : outParam Type} [TokenSource Source Symbol] : Prop where
  level_of_peek : ∀ s : Source, ∀ n ∈ (peek s).notes, n.level = .trace
  level_of_consume : ∀ s : Source, ∀ n ∈ (consume s).notes, n.level = .trace

def Grammar.Quiet (G : Grammar State Production Symbol Kind Context) : Prop :=
  ∀ p rhs c, ∀ n ∈ (G.reduce p rhs c).notes, n.level = .trace

namespace Machine

def Calm (M : Machine State Production Symbol Kind Context Source) : Prop :=
  ∀ e ∈ M.events, e.Ordinary

theorem calm_reset (M : Machine State Production Symbol Kind Context Source) (start : State) :
    (M.reset start).Calm :=
  fun _ he => absurd he List.not_mem_nil

namespace Calm

variable {M : Machine State Production Symbol Kind Context Source}

theorem record (h : M.Calm) {e : Event State Production Symbol Kind} (he : e.Ordinary) :
    (M.record e).Calm :=
  List.forall_mem_cons.2 ⟨he, h⟩

theorem recordNotes (h : M.Calm) {notes : List Note} (hnotes : ∀ n ∈ notes, n.level = .trace) :
    (M.recordNotes notes).Calm := by
  intro e he
  rcases List.mem_append.1 he with he | he
  · obtain ⟨n, hn, rfl⟩ := List.mem_map.1 (List.mem_reverse.1 he)
    exact hnotes n hn
  · exact h e he

variable [TokenSource Source Symbol] [QuietSource Source]

theorem looked (h : M.Calm) : M.looked.Calm :=
  h.recordNotes (QuietSource.level_of_peek M.source)

theorem examined (h : M.Calm) (t : Token Symbol) : (M.examined t).Calm :=
  h.looked.record trivial

theorem taken (h : M.Calm) (t : Token Symbol) (target : State) : (M.taken t target).Calm := by
  have hrecord : ((M.examined t).record (.shifted t target)).Calm := (h.examined t).record trivial
  exact hrecord.recordNotes (QuietSource.level_of_consume _)

theorem relooked (h : M.Calm) (t : Token Symbol) : (M.relooked t).Calm :=
  (h.examined t).recordNotes (QuietSource.level_of_peek _)

theorem dropped (h : M.Calm) (t u : Token Symbol) (error : Diagnostic) (state : State) :
    (M.dropped t u error state).Calm := by
  have hrecord : ((M.relooked t).record (.discarded u error state)).Calm :=
    (h.relooked t).record trivial
  exact hrecord.recordNotes (QuietSource.level_of_consume _)

theorem popped {G : Grammar State Production Symbol Kind Context} (hG : G.Quiet) (h : M.Calm)
    (t : Token Symbol) (p : Production) : (M.popped G t p).Calm := by
  have hrecord : ((M.examined t).record (.reduced p)).Calm := (h.examined t).record trivial
  exact hrecord.recordNotes (hG p _ _)

variable [GrammarSymbol Symbol Kind] [ToString State] [ToString Kind]
  {G : Grammar State Production Symbol Kind Context} {mode : ErrorMode}

theorem step (hG : G.Quiet) (h : M.Calm) : (M.step G mode).machine.Calm := by
  generalize hstep : M.step G mode = s
  cases effect_of_step hstep with
  | unready => exact h
  | sourceFailed | exhausted | stray => exact h.looked
  | @shift _ target t => exact h.taken t target
  | @shiftFailed _ target t | @lost _ target t => exact h.taken t target
  | @reduce _ _ _ t p => exact (popped hG h t p).record trivial
  | underflow => exact h.examined _
  | @refused _ _ t p | @terminalProduct _ _ t p | @missingGoto _ _ t p => exact popped hG h t p
  | @accept _ t | @acceptDepth _ t => exact (h.examined t).record trivial
  | @relookFailed _ t | @vanished _ t | @ended _ t | @aborted _ t => exact h.relooked t
  | @discard _ t u | @discardFailed _ t u => exact h.dropped t u _ _

end Calm

section Reports

variable [GrammarSymbol Symbol Kind] [ToString State] [ToString Kind]
  {G : Grammar State Production Symbol Kind Context}
  {r : Result State Production Symbol Kind Context Source}

/-- At the middle level a report has a line for each reduction. -/
theorem remarks_debug_conclude (h : r.2.Calm) :
    Event.remarks G .debug (conclude r).1.events =
      (conclude r).1.reductions.map fun p => "Reduce " ++ G.label p := by
  have hevents : ∀ e ∈ r.2.events.reverse, e.Ordinary := fun e he => h e (List.mem_reverse.1 he)
  rw [events_conclude, Event.remarks_append, Event.remarks_debug G hevents, reductions_conclude,
    List.filterMap_reverse]
  cases (conclude r).1.fatal? <;> simp [Event.remarks, Event.note, chronicle]

/-- At the highest level a report has a line for each token that was thrown away, and one for what
stopped the run. -/
theorem remarks_warn_conclude (h : r.2.Calm) :
    Event.remarks G .warn (conclude r).1.events =
      ((conclude r).1.dismissals.map fun x =>
          toString x.1 ++ " in state " ++ toString x.2 ++ " was discarded") ++
        (conclude r).1.fatal?.toList.map fun d => toString d ++ "; analysis terminated" := by
  have hevents : ∀ e ∈ r.2.events.reverse, e.Ordinary := fun e he => h e (List.mem_reverse.1 he)
  rw [events_conclude, Event.remarks_append, Event.remarks_warn G hevents, dismissals_conclude,
    List.filterMap_reverse]
  cases (conclude r).1.fatal? with
  | none => rfl
  | some d => rfl

theorem calm_of_runWithin [TokenSource Source Symbol] [QuietSource Source] (hG : G.Quiet)
    {mode : ErrorMode} {fuel : Nat} {M : Machine State Production Symbol Kind Context Source}
    (h : runWithin G mode fuel (M.reset G.start) = some r) : r.2.Calm :=
  runWithin_keeps (Calm.step hG) (calm_reset M G.start) h

end Reports

end Machine

end ShiftReduce
