import ShiftReduce.Proofs.Machine.Conservation

/-!
# Likeness — runs over sources that hand out the same tokens

A run sees of its source the tokens that this hands out, and of these the symbols.  Spans it merely
passes on, and remarks of the source it merely writes down.  So two sources, of different types it may
be, that hand out tokens with the same symbols are read in step.

* `SpanView`: a way of looking at spans, under which tokens and diagnostics may look the same.
* `TokenSource.Alike`: sources that hand out tokens that look the same.
* `Machine.Alike`, `Machine.Alike.step`: machines in step with each other, and that a step keeps them so.
* `Machine.analyze_alike`: the reports on such machines look the same.
-/

namespace ShiftReduce

open TokenSource

variable {State Production Symbol Kind Context Source Source' : Type}

/-! ## Looking at spans -/

/-- A way of looking at spans.  It may hide something of them, but how the span that covers two others
looks can be told from how these look. -/
structure SpanView where
  view : Option Span → Option Span
  view_none : view none = none
  view_merge : ∀ a b, view (Span.merge? a b) = Span.merge? (view a) (view b)

namespace SpanView

def full : SpanView :=
  ⟨id, rfl, fun _ _ => rfl⟩

variable (v : SpanView)

def token (t : Token Symbol) : Token Symbol :=
  ⟨t.symbol, v.view t.span⟩

def diagnostic (d : Diagnostic) : Diagnostic :=
  { d with span := v.view d.span }

def answer : Answer Symbol → Answer Symbol
  | .error d => .error (v.diagnostic d)
  | .ok t? => .ok (t?.map v.token)

def verdict (verdict : Token Symbol × Bool) : Token Symbol × Bool :=
  (v.token verdict.1, verdict.2)

def result : Except Diagnostic Symbol → Except Diagnostic Symbol :=
  Except.mapError v.diagnostic

def outcome : Outcome Symbol → Outcome Symbol
  | .failed d => .failed (v.diagnostic d)
  | outcome => outcome

@[simp] theorem diagnostic_full : full.diagnostic = id :=
  rfl

@[simp] theorem verdict_full : (full.verdict : Token Symbol × Bool → Token Symbol × Bool) = id :=
  rfl

@[simp] theorem outcome_full (outcome : Outcome Symbol) : full.outcome outcome = outcome := by
  cases outcome <;> rfl

variable {v}

theorem symbol_eq {t t' : Token Symbol} (h : v.token t = v.token t') : t.symbol = t'.symbol := by
  have hsymbol := congrArg Token.symbol h
  exact hsymbol

theorem view_span_eq {t t' : Token Symbol} (h : v.token t = v.token t') :
    v.view t.span = v.view t'.span := by
  have hspan := congrArg Token.span h
  exact hspan

theorem complaint_eq [GrammarSymbol Symbol Kind] {t t' : Token Symbol}
    (h : v.token t = v.token t') : v.diagnostic t.complaint = v.diagnostic t'.complaint := by
  rw [Token.complaint, Token.complaint, ← symbol_eq h]
  exact congrArg (Diagnostic.mk _ _) (view_span_eq h)

theorem map_symbol_eq {ts ts' : List (Token Symbol)} (h : ts.map v.token = ts'.map v.token) :
    ts.map Token.symbol = ts'.map Token.symbol := by
  have hsymbols := congrArg (List.map Token.symbol) h
  rw [List.map_map, List.map_map] at hsymbols
  exact hsymbols

theorem length_eq {α β : Type} {f : α → β} {xs ys : List α} (h : xs.map f = ys.map f) :
    xs.length = ys.length := by
  simpa using congrArg List.length h

/-- How the span that covers a list of tokens looks can be told from how the tokens look. -/
theorem view_coveringSpan (v : SpanView) (ts : List (Token Symbol)) :
    v.view (Token.coveringSpan ts) = Token.coveringSpan (ts.map v.token) := by
  have hfold : ∀ (ts : List (Token Symbol)) (span : Option Span),
      v.view (ts.foldl (fun s t => Span.merge? s t.span) span) =
        (ts.map v.token).foldl (fun s t => Span.merge? s t.span) (v.view span) := by
    intro ts
    induction ts with
    | nil => exact fun _ => rfl
    | cons t ts ih =>
        intro span
        rw [List.foldl_cons, ih, v.view_merge]
        rfl
  rw [Token.coveringSpan, hfold, v.view_none]
  rfl

/-- How the span of the first token looks, if there is one. -/
theorem view_head_eq {ts ts' : List (Token Symbol)} (h : ts.map v.token = ts'.map v.token) :
    v.view (ts.head?.bind Token.span) = v.view (ts'.head?.bind Token.span) := by
  cases ts <;> cases ts'
  · rfl
  · cases h
  · cases h
  · exact view_span_eq (List.cons.inj h).1

/-- Answers that look the same are of one kind. -/
theorem answer_cases {a a' : Answer Symbol} (h : v.answer a = v.answer a') :
    (∃ d d', a = .error d ∧ a' = .error d' ∧ v.diagnostic d = v.diagnostic d') ∨
      (a = .ok none ∧ a' = .ok none) ∨
      ∃ t t', a = .ok (some t) ∧ a' = .ok (some t') ∧ v.token t = v.token t' := by
  cases a with
  | error d =>
      cases a' with
      | error d' => exact .inl ⟨d, d', rfl, rfl, Except.error.inj h⟩
      | ok answer => cases h
  | ok answer =>
      cases a' with
      | error d' => cases h
      | ok answer' =>
          have h := Except.ok.inj h
          cases answer <;> cases answer'
          · exact .inr (.inl ⟨rfl, rfl⟩)
          · cases h
          · cases h
          · exact .inr (.inr ⟨_, _, rfl, rfl, Option.some.inj h⟩)

end SpanView

/-! ## Sources -/

variable [GrammarSymbol Symbol Kind] [TokenSource Source Symbol] [TokenSource Source' Symbol]
  {v : SpanView}

namespace TokenSource

/-- The sources hand out tokens that look the same, and then show answers that look the same: not a
token any more, unless it is an end marker. -/
def Alike (v : SpanView) (s : Source) (s' : Source') : Prop :=
  ∃ ts last ts' last', Delivers s ts last ∧ Delivers s' ts' last' ∧
    ts.map v.token = ts'.map v.token ∧ v.answer last = v.answer last' ∧
    ∀ t, last = .ok (some t) → GrammarSymbol.isEnd t.symbol = true

namespace Alike

variable {s : Source} {s' : Source'}

theorem head (h : Alike v s s') : v.answer (head s) = v.answer (TokenSource.head s') := by
  obtain ⟨ts, last, ts', last', hs, hs', htokens, hlast, -⟩ := h
  cases ts <;> cases ts'
  · rw [show TokenSource.head s = last from hs, show TokenSource.head s' = last' from hs', hlast]
  · cases htokens
  · cases htokens
  · rw [hs.1, hs'.1]
    exact congrArg (fun t => Except.ok (some t)) (List.cons.inj htokens).1

/-- Behind a token that is no end marker the sources are still alike. -/
theorem tail (h : Alike v s s') {t : Token Symbol} (hhead : TokenSource.head s = .ok (some t))
    (hend : GrammarSymbol.isEnd t.symbol = false) : Alike v (tail s) (TokenSource.tail s') := by
  obtain ⟨ts, last, ts', last', hs, hs', htokens, hlast, hfinal⟩ := h
  cases ts with
  | nil =>
      have hend' := hfinal t ((show TokenSource.head s = last from hs).symm.trans hhead)
      cases hend.symm.trans hend'
  | cons u ts =>
      cases ts' with
      | nil => cases htokens
      | cons u' ts' =>
          exact ⟨ts, last, ts', last', hs.2, hs'.2, (List.cons.inj htokens).2, hlast, hfinal⟩

theorem peek [LawfulSource Source] [LawfulSource Source'] (h : Alike v s s') :
    Alike v (peek s).source (TokenSource.peek s').source := by
  obtain ⟨ts, last, ts', last', hs, hs', h⟩ := h
  exact ⟨ts, last, ts', last', hs.congr (head_peek s) (tail_peek s),
    hs'.congr (head_peek s') (tail_peek s'), h⟩

end Alike

end TokenSource

/-! ## Machines -/

/-- Over sources that are alike, the machines have got equally far. -/
structure Machine.Alike (v : SpanView) (M : Machine State Production Symbol Kind Context Source)
    (M' : Machine State Production Symbol Kind Context Source') : Prop where
  source : TokenSource.Alike v M.source M'.source
  context : M.context = M'.context
  states : M.states = M'.states
  tokens : M.tokens.map v.token = M'.tokens.map v.token
  diagnostics : M.diagnostics.map v.diagnostic = M'.diagnostics.map v.diagnostic
  verdicts : M.account.2.map v.verdict = M'.account.2.map v.verdict
  stats : M.stats = M'.stats

inductive Step.Alike (v : SpanView) : Step State Production Symbol Kind Context Source →
    Step State Production Symbol Kind Context Source' → Prop
  | next {M : Machine State Production Symbol Kind Context Source}
      {M' : Machine State Production Symbol Kind Context Source'} (h : M.Alike v M') :
      Step.Alike v (.next M) (.next M')
  | halt {result result' : Except Diagnostic Symbol}
      {M : Machine State Production Symbol Kind Context Source}
      {M' : Machine State Production Symbol Kind Context Source'}
      (hresult : v.result result = v.result result') (h : M.Alike v M') :
      Step.Alike v (.halt result M) (.halt result' M')

namespace Machine

/-! ### Small changes -/

namespace Alike

variable {M : Machine State Production Symbol Kind Context Source}
  {M' : Machine State Production Symbol Kind Context Source'} {t t' : Token Symbol}

theorem record (h : M.Alike v M') (e e' : Event State Production Symbol Kind)
    (he : e.verdict?.map v.verdict = e'.verdict?.map v.verdict) :
    (M.record e).Alike v (M'.record e') := by
  refine { h with verdicts := ?_ }
  have hfirst := congrArg Option.toList he
  rw [Option.toList_map, Option.toList_map] at hfirst
  rw [account_record, account_record, List.map_append, List.map_append, h.verdicts, hfirst]

theorem recordNotes (h : M.Alike v M') (notes notes' : List Note) :
    (M.recordNotes notes).Alike v (M'.recordNotes notes') := by
  refine { h with verdicts := ?_ }
  rw [account_recordNotes, account_recordNotes, h.verdicts]

theorem tally (h : M.Alike v M') (f : RunStats → RunStats) : (M.tally f).Alike v (M'.tally f) :=
  { h with stats := congrArg f h.stats }

theorem push (h : M.Alike v M') (ht : v.token t = v.token t') (state : State) :
    (M.push t state).Alike v (M'.push t' state) :=
  { h with
    states := congrArg (state :: ·) h.states
    tokens := congrArg₂ List.cons ht h.tokens }

theorem pop (h : M.Alike v M') (n : Nat) : (M.pop n).Alike v (M'.pop n) := by
  refine { h with states := congrArg (List.drop n) h.states, tokens := ?_ }
  have htokens := congrArg (List.drop n) h.tokens
  rw [← List.map_drop, ← List.map_drop] at htokens
  exact htokens

theorem report (h : M.Alike v M') {d d' : Diagnostic} (hd : v.diagnostic d = v.diagnostic d') :
    (M.report d).Alike v (M'.report d') :=
  { h with diagnostics := congrArg₂ List.cons hd h.diagnostics }

theorem absorb (h : M.Alike v M') {pull : Pull Source Symbol} {pull' : Pull Source' Symbol}
    (hsource : TokenSource.Alike v pull.source pull'.source) :
    (M.absorb pull).Alike v (M'.absorb pull') := by
  have hnotes := h.recordNotes pull.notes pull'.notes
  exact { hnotes with source := hsource }

theorem fail (h : M.Alike v M') {d d' : Diagnostic} (hd : v.diagnostic d = v.diagnostic d') :
    Step.Alike v (M.fail d) (M'.fail d') :=
  .halt (congrArg Except.error hd) h

theorem fault (h : M.Alike v M') (f : Fault) : Step.Alike v (M.fault f) (M'.fault f) :=
  h.fail rfl

end Alike

/-! ### Work on the stacks -/

section Stacks

variable (M : Machine State Production Symbol Kind Context Source)

omit [TokenSource Source Symbol] [GrammarSymbol Symbol Kind] in
theorem accept_of_one {M : Machine State Production Symbol Kind Context Source} {t : Token Symbol}
    (h : M.tokens = [t]) :
    M.accept = .halt (.ok t.symbol) { M.record .accepted with tokens := [] } := by
  have htokens : (M.record .accepted).tokens = [t] := h
  unfold accept
  simp only [htokens]

omit [TokenSource Source Symbol] [GrammarSymbol Symbol Kind] in
theorem accept_of_many {M : Machine State Production Symbol Kind Context Source}
    (h : M.tokens.length ≠ 1) :
    M.accept = (M.record .accepted).fault (.acceptDepth M.tokens.length) := by
  unfold accept
  dsimp only
  split
  · rename_i t htokens
    exact absurd (congrArg List.length htokens) h
  · rfl

def unstacked (G : Grammar State Production Symbol Kind Context) (p : Production) :
    Machine State Production Symbol Kind Context Source :=
  { ((M.record (.reduced p)).pop (G.size p)).recordNotes (M.reduction G p).notes with
    context := (M.reduction G p).context }

variable [ToString State] [ToString Kind] {G : Grammar State Production Symbol Kind Context}

omit [TokenSource Source Symbol] in
theorem reduce_eq (p : Production) :
    M.reduce G p =
      if (M.handle G p).length < G.size p ∨ (M.states.drop (G.size p)).isEmpty then
        M.fault (.stackUnderflow (G.label p))
      else
        match (M.reduction G p).product with
        | .error d => (M.unstacked G p).fail d
        | .ok lhs => ((M.unstacked G p).tally .addReduction).goto G
            ⟨lhs, Token.coveringSpan (M.handle G p)⟩ :=
  rfl

end Stacks

namespace Alike

variable {M : Machine State Production Symbol Kind Context Source}
  {M' : Machine State Production Symbol Kind Context Source'} {t t' : Token Symbol}

theorem accept (h : M.Alike v M') : Step.Alike v M.accept M'.accept := by
  have haccepted : (M.record .accepted).Alike v (M'.record .accepted) := h.record _ _ rfl
  have hlength := SpanView.length_eq h.tokens
  have htokens := h.tokens
  by_cases hone : M.tokens.length = 1
  · obtain ⟨t, ht⟩ := List.length_eq_one_iff.1 hone
    obtain ⟨t', ht'⟩ := List.length_eq_one_iff.1 (hlength.symm.trans hone)
    rw [ht, ht'] at htokens
    rw [accept_of_one ht, accept_of_one ht']
    refine .halt ?_ { haccepted with tokens := rfl }
    rw [SpanView.symbol_eq (List.cons.inj htokens).1]
  · rw [accept_of_many hone, accept_of_many (hlength ▸ hone), hlength]
    exact haccepted.fault _

variable {G : Grammar State Production Symbol Kind Context}

theorem handle (h : M.Alike v M') (p : Production) :
    (M.handle G p).map v.token = (M'.handle G p).map v.token := by
  rw [Machine.handle, Machine.handle, List.map_reverse, List.map_reverse, List.map_take,
    List.map_take, h.tokens]

theorem reduction (h : M.Alike v M') (p : Production) : M.reduction G p = M'.reduction G p := by
  rw [Machine.reduction, Machine.reduction, SpanView.map_symbol_eq (h.handle p), h.context]

theorem unstacked (h : M.Alike v M') (p : Production) :
    (M.unstacked G p).Alike v (M'.unstacked G p) := by
  have hpopped := ((h.record (.reduced p) (.reduced p) rfl).pop (G.size p)).recordNotes
    (M.reduction G p).notes (M'.reduction G p).notes
  exact { hpopped with context := congrArg Reduction.context (h.reduction p) }

section

variable [ToString State] [ToString Kind]

theorem goto (h : M.Alike v M') (ht : v.token t = v.token t') :
    Step.Alike v (M.goto G t) (M'.goto G t') := by
  unfold Machine.goto
  rw [← h.states, ← SpanView.symbol_eq ht]
  cases M.states with
  | nil => exact h.fault .emptyStateStack
  | cons state lower =>
      dsimp only
      split
      · exact h.fault _
      · cases G.action state (GrammarSymbol.kind t.symbol) with
        | shift target => exact .next (((h.record _ _ rfl).push ht target).tally .addGoto)
        | error | accept | reduce => exact h.fault _

theorem reduce (h : M.Alike v M') (p : Production) :
    Step.Alike v (M.reduce G p) (M'.reduce G p) := by
  rw [reduce_eq, reduce_eq, ← SpanView.length_eq (h.handle p), ← h.states, ← h.reduction p]
  split
  · exact h.fault _
  · cases (M.reduction G p).product with
    | error d => exact (h.unstacked p).fail rfl
    | ok lhs =>
        refine ((h.unstacked p).tally .addReduction).goto ?_
        rw [SpanView.token, SpanView.token, SpanView.view_coveringSpan, SpanView.view_coveringSpan,
          h.handle p]

end

end Alike

/-! ### Work on the source -/

section Lookahead

variable [FaithfulSource Source] {M : Machine State Production Symbol Kind Context Source}
  {state : State} {t : Token Symbol}

/-- A faithful source hands over the lookahead. -/
theorem shift_eq (h : M.Meets state t) (target : State) :
    (M.examined t).shift t target = .next (((M.taken t target).push t target).tally .addShift) := by
  have htaken : (TokenSource.consume ((M.examined t).record (.shifted t target)).source).answer =
      .ok (some t) := h.answer_taken
  unfold shift Machine.consume
  simp only [htaken]
  rfl

/-- A faithful source shows the lookahead once more and then hands it over. -/
theorem reject_eq (h : M.Meets state t) (mode : ErrorMode) :
    (M.examined t).reject mode state t.span =
      if GrammarSymbol.isEnd t.symbol then (M.relooked t).fail (.unexpectedEnd t.span)
      else
        match mode with
        | .abort => (M.relooked t).fail t.complaint
        | .resync => .next ((M.dropped t t t.complaint state).tally .addDiscarded) := by
  have hagain : (TokenSource.peek (M.examined t).source).answer = .ok (some t) := h.head_looked
  have htaken : (TokenSource.consume ((((M.examined t).absorb
      (TokenSource.peek (M.examined t).source)).record (.discarded t t.complaint state)).report
        t.complaint).source).answer = .ok (some t) := h.answer_dropped t
  unfold reject Machine.peek Machine.consume
  simp only [hagain]
  split
  · rfl
  · cases mode with
    | abort => rfl
    | resync =>
        rw [Token.complaint] at htaken
        simp only [htaken]
        rfl

end Lookahead

namespace Alike

variable [LawfulSource Source] [LawfulSource Source']
  {M : Machine State Production Symbol Kind Context Source}
  {M' : Machine State Production Symbol Kind Context Source'} {state : State} {t t' : Token Symbol}

theorem looked (h : M.Alike v M') : M.looked.Alike v M'.looked :=
  h.absorb h.source.peek

theorem examined (h : M.Alike v M') (t t' : Token Symbol) :
    (M.examined t).Alike v (M'.examined t') := by
  have hrecorded := h.looked.record (.examined M.states M.tokens t)
    (.examined M'.states M'.tokens t') rfl
  exact hrecorded.tally .addToken

theorem relooked (h : M.Alike v M') (t t' : Token Symbol) :
    (M.relooked t).Alike v (M'.relooked t') :=
  (h.examined t t').absorb h.looked.source.peek

theorem taken (h : M.Alike v M') (ht : v.token t = v.token t')
    (hhead : head M.source = .ok (some t)) (hend : GrammarSymbol.isEnd t.symbol = false)
    (target : State) : (M.taken t target).Alike v (M'.taken t' target) := by
  have hrecorded := (h.examined t t').record (.shifted t target) (.shifted t' target)
    (congrArg (fun u => some (u, true)) ht)
  exact hrecorded.absorb (h.source.tail hhead hend)

theorem dropped (h : M.Alike v M') (ht : v.token t = v.token t') (hmeets : M.Meets state t)
    (hend : GrammarSymbol.isEnd t.symbol = false) :
    (M.dropped t t t.complaint state).Alike v (M'.dropped t' t' t'.complaint state) := by
  have hrecorded := (h.relooked t t').record (.discarded t t.complaint state)
    (.discarded t' t'.complaint state) (congrArg (fun u => some (u, false)) ht)
  have hreported := hrecorded.report (SpanView.complaint_eq ht)
  exact hreported.absorb (h.looked.source.tail hmeets.head_looked hend)

theorem shift (h : M.Alike v M') (ht : v.token t = v.token t') (hmeets : M.Meets state t)
    (hmeets' : M'.Meets state t') (hend : GrammarSymbol.isEnd t.symbol = false) (target : State) :
    Step.Alike v ((M.examined t).shift t target) ((M'.examined t').shift t' target) := by
  rw [shift_eq hmeets, shift_eq hmeets']
  exact .next (((h.taken ht hmeets.head hend target).push ht target).tally .addShift)

theorem reject (h : M.Alike v M') (ht : v.token t = v.token t') (hmeets : M.Meets state t)
    (hmeets' : M'.Meets state t') (mode : ErrorMode) :
    Step.Alike v ((M.examined t).reject mode state t.span)
      ((M'.examined t').reject mode state t'.span) := by
  rw [reject_eq hmeets, reject_eq hmeets', ← SpanView.symbol_eq ht]
  have hrelooked := h.relooked t t'
  split
  · exact hrelooked.fail (congrArg (Diagnostic.mk _ _) (SpanView.view_span_eq ht))
  · rename_i hend
    cases mode with
    | abort => exact hrelooked.fail (SpanView.complaint_eq ht)
    | resync => exact .next ((h.dropped ht hmeets (by simpa using hend)).tally .addDiscarded)

/-! ### Steps and runs -/

variable [ToString State] [ToString Kind] {G : Grammar State Production Symbol Kind Context}

theorem examine (W : G.Shrinking) (h : M.Alike v M') (ht : v.token t = v.token t')
    (hmeets : M.Meets state t) (hmeets' : M'.Meets state t') (mode : ErrorMode) :
    Step.Alike v (M.looked.examine G mode state t) (M'.looked.examine G mode state t') := by
  have hexamined := h.examined t t'
  unfold Machine.examine
  rw [← SpanView.symbol_eq ht]
  cases haction : G.action state (GrammarSymbol.kind t.symbol) with
  | shift target =>
      refine h.shift ht hmeets hmeets' ?_ target
      cases hend : GrammarSymbol.isEnd t.symbol with
      | false => rfl
      | true => exact absurd haction (W.end_not_shifted _ _ _ hend)
  | reduce p => exact hexamined.reduce p
  | accept => exact hexamined.accept
  | error => exact h.reject ht hmeets hmeets' mode

/-- Machines that are alike step alike. -/
theorem step (W : G.Shrinking) (h : M.Alike v M') (mode : ErrorMode) :
    Step.Alike v (M.step G mode) (M'.step G mode) := by
  have hlooked := h.looked
  have hstates := h.states
  unfold Machine.step Machine.peek
  cases hM : M.states with
  | nil =>
      rw [hM] at hstates
      rw [← hstates]
      exact h.fault .emptyStateStack
  | cons state lower =>
      rw [hM] at hstates
      rw [← hstates]
      dsimp only
      rcases SpanView.answer_cases h.source.head with
        ⟨d, d', hd, hd', heq⟩ | ⟨hnone, hnone'⟩ | ⟨t, t', ht, ht', heq⟩
      · rw [show (TokenSource.peek M.source).answer = .error d from hd,
          show (TokenSource.peek M'.source).answer = .error d' from hd']
        exact hlooked.fail heq
      · rw [show (TokenSource.peek M.source).answer = .ok none from hnone,
          show (TokenSource.peek M'.source).answer = .ok none from hnone']
        exact hlooked.fail (congrArg (Diagnostic.mk _ _) (SpanView.view_head_eq h.tokens))
      · rw [show (TokenSource.peek M.source).answer = .ok (some t) from ht,
          show (TokenSource.peek M'.source).answer = .ok (some t') from ht']
        dsimp only
        rw [← SpanView.symbol_eq heq]
        cases hterminal : GrammarSymbol.isTerminal t.symbol with
        | false => exact hlooked.fault _
        | true =>
            have hterminal' : GrammarSymbol.isTerminal t'.symbol = true :=
              SpanView.symbol_eq heq ▸ hterminal
            exact h.examine W heq ⟨⟨lower, hM⟩, ht, hterminal⟩
              ⟨⟨lower, hstates.symm⟩, ht', hterminal'⟩ mode

/-- Whenever one of two machines that are alike halts, the other halts with it. -/
theorem runWithin (W : G.Shrinking) (h : M.Alike v M') {mode : ErrorMode} {fuel : Nat}
    {r : Result State Production Symbol Kind Context Source}
    (hrun : Machine.runWithin G mode fuel M = some r) :
    ∃ r', Machine.runWithin G mode fuel M' = some r' ∧ v.result r.1 = v.result r'.1 ∧
      r.2.Alike v r'.2 := by
  induction fuel generalizing M M' with
  | zero => cases hrun
  | succ fuel ih =>
      have hstep := h.step W mode
      generalize hs : M.step G mode = s at hstep
      generalize hs' : M'.step G mode = s' at hstep
      cases hstep with
      | next hnext =>
          rw [runWithin_of_next fuel hs] at hrun
          rw [runWithin_of_next fuel hs']
          exact ih hnext hrun
      | halt hresult hhalt =>
          rw [runWithin_of_halt fuel hs] at hrun
          cases hrun
          exact ⟨_, runWithin_of_halt fuel hs', hresult, hhalt⟩

end Alike

end Machine

/-! ## Reports -/

/-- The reports look the same.  Of the events only those count in which a token left the source. -/
structure Analysis.Alike (v : SpanView) (A A' : Analysis State Production Symbol Kind) : Prop where
  outcome : v.outcome A.outcome = v.outcome A'.outcome
  diagnostics : A.diagnostics.map v.diagnostic = A'.diagnostics.map v.diagnostic
  stats : A.stats = A'.stats
  verdicts : A.verdicts.map v.verdict = A'.verdicts.map v.verdict

omit [GrammarSymbol Symbol Kind] in
theorem Analysis.Alike.eq_of_full {A A' : Analysis State Production Symbol Kind}
    (h : A.Alike .full A') :
    A.outcome = A'.outcome ∧ A.diagnostics = A'.diagnostics ∧ A.stats = A'.stats ∧
      A.verdicts = A'.verdicts :=
  ⟨by simpa using h.outcome, by simpa using h.diagnostics, h.stats, by simpa using h.verdicts⟩

namespace Machine

theorem outcome_conclude {r : Result State Production Symbol Kind Context Source}
    {r' : Result State Production Symbol Kind Context Source'}
    (hresult : v.result r.1 = v.result r'.1) (h : r.2.Alike v r'.2) :
    v.outcome (conclude r).1.outcome = v.outcome (conclude r').1.outcome := by
  obtain ⟨d | s, M⟩ := r <;> obtain ⟨d' | s', M'⟩ := r'
  · exact congrArg Outcome.failed (Except.error.inj hresult)
  · cases hresult
  · cases hresult
  · cases hresult
    have hempty : M.diagnostics.isEmpty = M'.diagnostics.isEmpty := by
      rw [← List.isEmpty_map, h.diagnostics, List.isEmpty_map]
    simp only [conclude, hempty]

theorem conclude_alike {r : Result State Production Symbol Kind Context Source}
    {r' : Result State Production Symbol Kind Context Source'}
    (hresult : v.result r.1 = v.result r'.1) (h : r.2.Alike v r'.2) :
    (conclude r).1.Alike v (conclude r').1 := by
  refine ⟨outcome_conclude hresult h, ?_, ?_, ?_⟩
  · obtain ⟨d | s, M⟩ := r <;> obtain ⟨d' | s', M'⟩ := r'
    · have hreported := (h.report (Except.error.inj hresult)).diagnostics
      simpa [conclude, Machine.report, Machine.record] using congrArg List.reverse hreported
    · cases hresult
    · cases hresult
    · simpa [conclude] using congrArg List.reverse h.diagnostics
  · rw [stats_conclude, stats_conclude, h.stats]
  · rw [verdicts_conclude, verdicts_conclude, List.map_reverse, List.map_reverse, h.verdicts]

variable [LawfulSource Source] [LawfulSource Source'] [FiniteSource Source] [FiniteSource Source']
  [ToString State] [ToString Kind] {G : Grammar State Production Symbol Kind Context}

/-- Machines over sources that hand out tokens that look the same are analyzed alike: with outcomes and
diagnostics that look the same, the same counters, and the same tokens kept and discarded. -/
theorem analyze_alike (W : G.Shrinking) (mode : ErrorMode)
    {M : Machine State Production Symbol Kind Context Source}
    {M' : Machine State Production Symbol Kind Context Source'}
    (hsource : TokenSource.Alike v M.source M'.source) (hcontext : M.context = M'.context) :
    (analyze W mode M).1.Alike v (analyze W mode M').1 := by
  have hreset : (M.reset G.start).Alike v (M'.reset G.start) :=
    ⟨hsource, hcontext, rfl, rfl, rfl, rfl, rfl⟩
  obtain ⟨fuel, r, hrun, hanalyze⟩ := exists_run_of_analyze W mode M
  obtain ⟨r', hrun', hresult, halike⟩ := hreset.runWithin W hrun
  rw [hanalyze, analyze, ← eq_run_of_runWithin W hrun']
  exact conclude_alike hresult halike

end Machine
end ShiftReduce
