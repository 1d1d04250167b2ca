import ShiftReduce.Proofs.Arithmetic.Simulation

/-!
# Readings — what a run makes of a list of tokens

A run that resynchronizes reads every token: it extends the draft by the token or throws it away and
settles the draft.  A run that aborts does the same up to the first token that it would throw away.
Either way the end marker is left, and the draft decides what becomes of the run.

* `Draft.read`, `Draft.verdicts`: the draft behind a list of tokens, and what became of each.
* `analyze_resync`: the report on a run that resynchronizes.
* `analyze_abort`: the report on a run that aborts.
* `accepted_iff_parse`: in both modes a text is accepted if and only if it has a tree.
-/

namespace ShiftReduce
namespace Arithmetic

open TokenSource

/-! ## Verdicts on a list of tokens -/

def survivors (verdicts : List (Token Symbol × Bool)) : List (Token Symbol) :=
  (verdicts.filter fun v => v.2).map Prod.fst

def discards (verdicts : List (Token Symbol × Bool)) : List (Token Symbol) :=
  (verdicts.filter fun v => !v.2).map Prod.fst

/-- A token that a source may hand out in front of the end marker. -/
def IsInput (t : Token Symbol) : Prop :=
  t.symbol.isTerminal = true ∧ t.symbol.isEnd = false

instance (t : Token Symbol) : Decidable (IsInput t) :=
  inferInstanceAs (Decidable (_ ∧ _))

namespace Draft

/-- The draft behind a terminal that is kept if there is a place for it and else thrown away. -/
def step (D : Draft) (s : Symbol) : Draft :=
  (D.extend? s).getD D.settle

def read (D : Draft) (ts : List (Token Symbol)) : Draft :=
  ts.foldl (fun D t => D.step t.symbol) D

def verdicts (D : Draft) : List (Token Symbol) → List (Token Symbol × Bool)
  | [] => []
  | t :: ts => (t, (D.extend? t.symbol).isSome) :: (D.step t.symbol).verdicts ts

theorem verdicts_fst (D : Draft) (ts : List (Token Symbol)) :
    (D.verdicts ts).map Prod.fst = ts := by
  induction ts generalizing D with
  | nil => rfl
  | cons t ts ih => rw [verdicts, List.map_cons, ih]

theorem read_append (D : Draft) (ts ts' : List (Token Symbol)) :
    D.read (ts ++ ts') = (D.read ts).read ts' := by
  rw [read, List.foldl_append]
  rfl

theorem verdicts_append (D : Draft) (ts ts' : List (Token Symbol)) :
    D.verdicts (ts ++ ts') = D.verdicts ts ++ (D.read ts).verdicts ts' := by
  induction ts generalizing D with
  | nil => rfl
  | cons t ts ih =>
      rw [List.cons_append, verdicts, ih]
      rfl

theorem read_of_follow {D D' : Draft} {ts : List (Token Symbol)}
    (h : D.follow (ts.map Token.symbol) = some D') :
    D.read ts = D' ∧ D.verdicts ts = ts.map fun t => (t, true) := by
  induction ts generalizing D with
  | nil =>
      cases h
      exact ⟨rfl, rfl⟩
  | cons t ts ih =>
      rw [List.map_cons, follow_cons] at h
      rcases Option.bind_eq_some_iff.1 h with ⟨D₁, hextend, hrest⟩
      have hstep : D.step t.symbol = D₁ := by rw [step, hextend, Option.getD_some]
      rcases ih hrest with ⟨hread, hverdicts⟩
      refine ⟨?_, ?_⟩
      · rw [read, List.foldl_cons, hstep]
        exact hread
      · rw [verdicts, hstep, hverdicts, hextend]
        rfl

/-- A text that cannot be followed has a first token for which there is no place. -/
theorem exists_refused {D : Draft} {ts : List (Token Symbol)}
    (h : D.follow (ts.map Token.symbol) = none) :
    ∃ before t behind D', ts = before ++ t :: behind ∧
      D.follow (before.map Token.symbol) = some D' ∧ D'.extend? t.symbol = none := by
  induction ts generalizing D with
  | nil => cases h
  | cons t ts ih =>
      cases hextend : D.extend? t.symbol with
      | none => exact ⟨[], t, ts, D, rfl, rfl, hextend⟩
      | some D₁ =>
          rw [List.map_cons, follow_cons, hextend, Option.bind_some] at h
          rcases ih h with ⟨before, u, behind, D', rfl, hfollow, hnone⟩
          refine ⟨t :: before, u, behind, D', rfl, ?_, hnone⟩
          rw [List.map_cons, follow_cons, hextend, Option.bind_some]
          exact hfollow

theorem discards_of_refused {D D' : Draft} {before behind : List (Token Symbol)}
    {t : Token Symbol} (hfollow : D.follow (before.map Token.symbol) = some D')
    (hextend : D'.extend? t.symbol = none) :
    discards (D.verdicts (before ++ t :: behind)) =
      t :: discards ((D'.step t.symbol).verdicts behind) := by
  rcases read_of_follow hfollow with ⟨hread, hverdicts⟩
  rw [verdicts_append, hread, hverdicts, verdicts, hextend]
  simp [discards, List.filter_map, Function.comp_def]

/-- The outcome of a run that comes to the end marker with a draft; `clean` says whether nothing was
thrown away, and `span` is that of the end marker. -/
def outcome (D : Draft) (clean : Bool) (span : Option Span) : Outcome Symbol :=
  match D.complete? with
  | some e => if clean then .accepted (.root e) else .recovered (.root e)
  | none => .failed (.unexpectedEnd span)

def endDiagnostics (D : Draft) (span : Option Span) : List Diagnostic :=
  match D.complete? with
  | some _ => []
  | none => [.unexpectedEnd span]

end Draft

/-! ## Runs over a list of tokens -/

variable {Source : Type} [TokenSource Source Symbol] [LawfulSource Source]

theorem exists_leads_read {M : Automaton Source} {D : Draft} {ts : List (Token Symbol)}
    {last : Answer Symbol} (hts : ∀ t ∈ ts, IsInput t) (hsource : Delivers M.source ts last)
    (h : D.Shows M.states M.symbols) :
    ∃ N : Automaton Source, Machine.Leads grammar .resync M N ∧
      (D.read ts).Shows N.states N.symbols ∧ head N.source = last ∧
      N.account = (((discards (D.verdicts ts)).map Token.complaint).reverse ++ M.account.1,
        (D.verdicts ts).reverse ++ M.account.2) := by
  -- One token at a time; machine and draft stay in step whether it is kept or thrown away.
  induction ts generalizing M D with
  | nil => exact ⟨M, .refl, h, hsource, rfl⟩
  | cons t ts ih =>
      rcases hts t (List.mem_cons_self ..) with ⟨hterminal, hend⟩
      have hrest : ∀ u ∈ ts, IsInput u := fun u hu => hts u (List.mem_cons_of_mem t hu)
      rcases hsource with ⟨hhead, htail⟩
      cases hextend : D.extend? t.symbol with
      | some D' =>
          rcases exists_leads_keep .resync hhead hterminal h hextend with
            ⟨M', hleads, hshows, hM', haccount⟩
          rw [← hM'] at htail
          rcases ih hrest htail hshows with ⟨N, hleads', hshows', hlast, haccount'⟩
          have hstep : D.step t.symbol = D' := by rw [Draft.step, hextend, Option.getD_some]
          refine ⟨N, hleads.trans hleads', ?_, hlast, ?_⟩
          · rw [Draft.read, List.foldl_cons, hstep]
            exact hshows'
          · rw [haccount', haccount, Draft.verdicts, hstep, hextend]
            simp [discards]
      | none =>
          rcases exists_leads_drop hhead hterminal hend h hextend with
            ⟨M', hleads, hshows, hM', haccount⟩
          rw [← hM'] at htail
          rcases ih hrest htail hshows with ⟨N, hleads', hshows', hlast, haccount'⟩
          have hstep : D.step t.symbol = D.settle := by rw [Draft.step, hextend, Option.getD_none]
          refine ⟨N, hleads.trans hleads', ?_, hlast, ?_⟩
          · rw [Draft.read, List.foldl_cons, hstep]
            exact hshows'
          · rw [haccount', haccount, Draft.verdicts, hstep, hextend]
            simp [discards]

theorem exists_leads_follow (mode : ErrorMode) {M : Automaton Source} {D D' : Draft}
    {ts rest : List (Token Symbol)} {last : Answer Symbol} (hts : ∀ t ∈ ts, IsInput t)
    (hsource : Delivers M.source (ts ++ rest) last) (h : D.Shows M.states M.symbols)
    (hfollow : D.follow (ts.map Token.symbol) = some D') :
    ∃ N : Automaton Source, Machine.Leads grammar mode M N ∧ D'.Shows N.states N.symbols ∧
      Delivers N.source rest last ∧
      N.account = (M.account.1, (ts.map fun t => (t, true)).reverse ++ M.account.2) := by
  induction ts generalizing M D with
  | nil =>
      cases hfollow
      exact ⟨M, .refl, h, hsource, rfl⟩
  | cons t ts ih =>
      rcases hts t (List.mem_cons_self ..) with ⟨hterminal, _⟩
      have hrest : ∀ u ∈ ts, IsInput u := fun u hu => hts u (List.mem_cons_of_mem t hu)
      rcases hsource with ⟨hhead, htail⟩
      rw [List.map_cons, Draft.follow_cons] at hfollow
      rcases Option.bind_eq_some_iff.1 hfollow with ⟨D₁, hextend, hfollow'⟩
      rcases exists_leads_keep mode hhead hterminal h hextend with
        ⟨M', hleads, hshows, hM', haccount⟩
      rw [← hM'] at htail
      rcases ih hrest htail hshows hfollow' with ⟨N, hleads', hshows', hlast, haccount'⟩
      refine ⟨N, hleads.trans hleads', hshows', hlast, ?_⟩
      rw [haccount', haccount]
      simp

/-! ## Reports -/

def Automaton.firstReport [FiniteSource Source] (source : Source) (mode : ErrorMode) : Report :=
  ((Automaton.ofSource source).analyze mode).1

def Automaton.ready {Source : Type} (source : Source) : Automaton Source :=
  Machine.reset (Automaton.ofSource source) grammar.start

theorem Automaton.shows_ready {Source : Type} (source : Source) :
    Draft.empty.Shows (ready source).states (ready source).symbols :=
  .due .start

variable [FiniteSource Source] {source : Source} {mode : ErrorMode} {N : Automaton Source}
  {ts : List (Token Symbol)} {span : Option Span} {diagnostics : List Diagnostic}
  {verdicts : List (Token Symbol × Bool)}

/-- What a run reports that comes to the end marker. -/
theorem report_of_end {D : Draft} (hleads : Machine.Leads grammar mode (Automaton.ready source) N)
    (hshows : D.Shows N.states N.symbols)
    (hhead : head N.source = .ok (some ⟨.endMark, span⟩))
    (haccount : N.account = (diagnostics, verdicts)) :
    (Automaton.firstReport source mode).outcome = D.outcome diagnostics.isEmpty span ∧
      (Automaton.firstReport source mode).diagnostics =
        diagnostics.reverse ++ D.endDiagnostics span ∧
      (Automaton.firstReport source mode).verdicts = verdicts.reverse := by
  cases hcomplete : D.complete? with
  | some e =>
      rcases exists_halt_complete mode hhead rfl hshows hcomplete with
        ⟨M, M', hleads', hhalt, haccount'⟩
      have hreport := Machine.analyze_of_accept shrinking (hleads.trans hleads') hhalt
      rw [haccount', haccount] at hreport
      simp only [Draft.outcome, Draft.endDiagnostics, hcomplete, List.append_nil]
      exact hreport
  | none =>
      rcases exists_halt_incomplete mode hhead rfl hshows hcomplete with
        ⟨M, M', hleads', hhalt, haccount'⟩
      have hreport := Machine.analyze_of_failure shrinking (hleads.trans hleads') hhalt
      rw [haccount', haccount] at hreport
      simp only [Draft.outcome, Draft.endDiagnostics, hcomplete]
      exact hreport

theorem analyze_resync (hts : ∀ t ∈ ts, IsInput t)
    (hsource : Delivers source ts (.ok (some ⟨.endMark, span⟩))) :
    (Automaton.firstReport source .resync).outcome =
        (Draft.empty.read ts).outcome (discards (Draft.empty.verdicts ts)).isEmpty span ∧
      (Automaton.firstReport source .resync).diagnostics =
        (discards (Draft.empty.verdicts ts)).map Token.complaint ++
          (Draft.empty.read ts).endDiagnostics span ∧
      (Automaton.firstReport source .resync).verdicts = Draft.empty.verdicts ts := by
  rcases exists_leads_read hts hsource (Automaton.shows_ready source) with
    ⟨N, hleads, hshows, hhead, haccount⟩
  have hreport := report_of_end hleads hshows hhead haccount
  simpa [Automaton.ready, Machine.reset, Machine.account] using hreport

/-- A diagnostic that the source answers with ends the run. -/
theorem analyze_of_error {d : Diagnostic} (hts : ∀ t ∈ ts, IsInput t)
    (hsource : Delivers source ts (.error d)) :
    (Automaton.firstReport source .resync).outcome = .failed d ∧
      (Automaton.firstReport source .resync).diagnostics =
        (discards (Draft.empty.verdicts ts)).map Token.complaint ++ [d] ∧
      (Automaton.firstReport source .resync).verdicts = Draft.empty.verdicts ts := by
  rcases exists_leads_read hts hsource (Automaton.shows_ready source) with
    ⟨N, hleads, hshows, hhead, haccount⟩
  rcases hshows.exists_states_eq with ⟨state, rest, hstates⟩
  rcases Machine.exists_halt_error (G := grammar) .resync hstates hhead with ⟨N', hhalt, haccount'⟩
  have hreport := Machine.analyze_of_failure shrinking hleads hhalt
  rw [haccount', haccount] at hreport
  simpa [Automaton.firstReport, Automaton.analyze, Automaton.ready, Machine.reset,
    Machine.account] using hreport

theorem analyze_follow {D : Draft} (hts : ∀ t ∈ ts, IsInput t)
    (hsource : Delivers source ts (.ok (some ⟨.endMark, span⟩)))
    (hfollow : Draft.empty.follow (ts.map Token.symbol) = some D) :
    (Automaton.firstReport source mode).outcome = D.outcome true span ∧
      (Automaton.firstReport source mode).diagnostics = D.endDiagnostics span ∧
      (Automaton.firstReport source mode).verdicts = ts.map fun t => (t, true) := by
  -- Nothing is left in front of the end marker.
  rw [← List.append_nil ts] at hsource
  rcases exists_leads_follow mode hts hsource (Automaton.shows_ready source) hfollow with
    ⟨N, hleads, hshows, hhead, haccount⟩
  have hreport := report_of_end hleads hshows hhead haccount
  simpa [Automaton.ready, Machine.reset, Machine.account] using hreport

theorem analyze_abort {before behind : List (Token Symbol)} {t : Token Symbol} {D : Draft}
    {last : Answer Symbol} (hts : ∀ u ∈ before ++ t :: behind, IsInput u)
    (hsource : Delivers source (before ++ t :: behind) last)
    (hfollow : Draft.empty.follow (before.map Token.symbol) = some D)
    (hextend : D.extend? t.symbol = none) :
    (Automaton.firstReport source .abort).outcome = .failed t.complaint ∧
      (Automaton.firstReport source .abort).diagnostics = [t.complaint] ∧
      (Automaton.firstReport source .abort).verdicts = before.map fun u => (u, true) := by
  have hbefore : ∀ u ∈ before, IsInput u := fun u hu => hts u (List.mem_append_left _ hu)
  rcases hts t (by simp) with ⟨hterminal, hend⟩
  rcases exists_leads_follow .abort hbefore hsource (Automaton.shows_ready source) hfollow with
    ⟨N, hleads, hshows, hdelivers, haccount⟩
  rcases exists_halt_refused hdelivers.1 hterminal hend hshows hextend with
    ⟨M, M', hleads', hhalt, haccount'⟩
  have hreport := Machine.analyze_of_failure shrinking (hleads.trans hleads') hhalt
  rw [haccount', haccount] at hreport
  simpa [Automaton.firstReport, Automaton.analyze, Automaton.ready, Machine.reset,
    Machine.account] using hreport

/-- In both modes a text is accepted if and only if it has a tree, with that tree. -/
theorem accepted_iff_parse (hts : ∀ t ∈ ts, IsInput t)
    (hsource : Delivers source ts (.ok (some ⟨.endMark, span⟩))) {s : Symbol} :
    (Automaton.firstReport source mode).outcome = .accepted s ↔
      ∃ e, Draft.parse (ts.map Token.symbol) = some e ∧ s = .root e := by
  cases hfollow : Draft.empty.follow (ts.map Token.symbol) with
  | some D =>
      -- Every token is shifted, and the draft at the end decides in both modes.
      rw [(analyze_follow hts hsource hfollow).1, Draft.parse, hfollow, Option.bind_some,
        Draft.outcome]
      cases D.complete? with
      | some e =>
          simp only [if_true, Outcome.accepted.injEq, Option.some.injEq, exists_eq_left']
          exact eq_comm
      | none => simp
  | none =>
      rcases Draft.exists_refused hfollow with ⟨before, t, behind, D, rfl, hbefore, hextend⟩
      have hparse : Draft.parse ((before ++ t :: behind).map Token.symbol) = none := by
        rw [Draft.parse, hfollow, Option.bind_none]
      rw [hparse]
      -- Without a tree, a run that aborts fails and one that resynchronizes has something to report.
      cases mode with
      | abort =>
          rw [(analyze_abort hts hsource hbefore hextend).1]
          simp
      | resync =>
          rw [(analyze_resync hts hsource).1, Draft.discards_of_refused hbefore hextend,
            Draft.outcome]
          cases (Draft.empty.read (before ++ t :: behind)).complete? <;> simp

end Arithmetic
end ShiftReduce
