import ShiftReduce.Proofs.Arithmetic.Pointing

/-!
# Rereading — analyses behind the first one

No analysis takes the answer on which it ends out of its scanner: neither the end marker nor a
diagnostic.  So when a session that resynchronizes is asked again, that answer is still there, it is all
that the next analysis meets, and it is there again afterwards.

* `Machine.analyze_of_end_ahead`, `Machine.analyze_of_error_ahead`: an analysis that has nothing to read.
* `Session.after`: a session after some analyses.
* `Session.Spent`, `Session.Spent.analyze`: a session in front of such an answer, where it stays.
* `exists_last_answer`, `exists_spent`: what the first analysis leaves in front of the session.
* `further_analyses_fail`: what every analysis behind the first one reports.
-/

namespace ShiftReduce

open TokenSource

/-! ## Nothing to read -/

namespace Machine

variable {State Production Symbol Kind Context Source : Type} [GrammarSymbol Symbol Kind]
  [TokenSource Source Symbol] [FiniteSource Source] [ToString State] [ToString Kind]
  {G : Grammar State Production Symbol Kind Context} {mode : ErrorMode}
  {M : Machine State Production Symbol Kind Context Source}

/-- An analysis whose source fails at once has examined nothing. -/
theorem analyze_of_error_ahead (W : G.Shrinking) {d : Diagnostic}
    (hhead : head M.source = .error d) :
    analyze W mode M = conclude (.error d, (M.reset G.start).looked) := by
  have hstep : (M.reset G.start).step G mode = .halt (.error d) (M.reset G.start).looked := by
    unfold step Machine.peek
    dsimp only [reset]
    rw [show (TokenSource.peek M.source).answer = .error d from hhead]
    rfl
  exact analyze_of_leads W .refl hstep

/-- An analysis that meets the end marker first has examined nothing else. -/
theorem analyze_of_end_ahead [LawfulSource Source] (W : G.Shrinking) {t : Token Symbol}
    (hhead : head M.source = .ok (some t))
    (hterminal : GrammarSymbol.isTerminal t.symbol = true)
    (hend : GrammarSymbol.isEnd t.symbol = true)
    (haction : G.action G.start (GrammarSymbol.kind t.symbol) = .error) :
    analyze W mode M =
      conclude (.error (.unexpectedEnd t.span), (M.reset G.start).relooked t) := by
  have hagain : (TokenSource.peek (TokenSource.peek M.source).source).answer = .ok (some t) :=
    (LawfulSource.answer_peek_peek M.source).trans hhead
  have hstep : (M.reset G.start).step G mode =
      .halt (.error (.unexpectedEnd t.span)) ((M.reset G.start).relooked t) := by
    have hstates : (M.reset G.start).states = [G.start] := rfl
    have hlookahead : head (M.reset G.start).source = .ok (some t) := hhead
    rw [step_eq_examine mode hstates hlookahead hterminal]
    simp only [examine, haction, reject, Machine.peek, record, tally, absorb, recordNotes, reset,
      hagain, hend, if_true]
    rfl
  exact analyze_of_leads W .refl hstep

end Machine

namespace Arithmetic

/-! ## Sessions that have nothing to read -/

namespace Session

def after : Nat → Session → Session
  | 0, S => S
  | n + 1, S => after n S.analyze.2

/-- The scanner of the session still has an answer behind which no analysis gets, with the diagnostic
on which such an analysis fails and with its counters. -/
inductive Spent (S : Session) : Diagnostic → RunStats → Prop
  | atEnd {span : Option Span} (h : S.machine.source.pending = some (.ok ⟨.endMark, span⟩)) :
      Spent S (.unexpectedEnd span) { tokens := 1 }
  | atError {d : Diagnostic} (h : S.machine.source.pending = some (.error d)) : Spent S d {}

/-- The next analysis of the session fails on `d`, reports nothing else and leaves the counters
`counters`. -/
structure FailsOn (S : Session) (d : Diagnostic) (counters : RunStats) : Prop where
  outcome : S.analyze.1.outcome = .failed d
  diagnostics : S.analyze.1.diagnostics = [d]
  stats : S.analyze.1.stats = counters
  runStats : S.analyze.2.runStats = counters

theorem FailsOn.tree?_eq_none {S : Session} {d : Diagnostic} {counters : RunStats}
    (h : S.FailsOn d counters) : S.analyze.1.tree? = none := by
  rw [Report.tree?, Analysis.result?, h.outcome]
  rfl

/-- A run that fails without a diagnostic before that. -/
theorem failsOn_of_conclude {S : Session} {d : Diagnostic} {N : Automaton Scanner}
    (hanalyze : S.machine.analyze S.mode = Machine.conclude (.error d, N))
    (hnone : N.diagnostics = []) :
    S.FailsOn d N.stats ∧ S.analyze.2.machine.source = N.source := by
  have hmachine : S.analyze.2.machine = (S.machine.analyze S.mode).2 := rfl
  have hdiagnostics : S.analyze.1.diagnostics = (S.machine.analyze S.mode).1.diagnostics := rfl
  refine ⟨⟨?_, ?_, ?_, ?_⟩, ?_⟩
  · exact congrArg (fun r => r.1.outcome) hanalyze
  · rw [hdiagnostics, hanalyze, Machine.diagnostics_conclude, Machine.account, hnone]
    rfl
  · exact congrArg (fun r => r.1.stats) hanalyze
  · exact congrArg (fun r => r.2.stats) hanalyze
  · rw [hmachine, hanalyze, Machine.source_conclude]

namespace Spent

variable {S : Session} {d : Diagnostic} {counters : RunStats}

theorem congr {S' : Session} (h : S.Spent d counters) (hsource : S'.machine.source = S.machine.source) :
    S'.Spent d counters := by
  cases h with
  | atEnd h => exact .atEnd (hsource ▸ h)
  | atError h => exact .atError (hsource ▸ h)

/-- Looking at an answer once more changes nothing. -/
theorem peek_of_pending {s : Scanner} {answer : Except Diagnostic (Token Symbol)}
    (h : s.pending = some answer) : peek s = ⟨answer.map some, s, []⟩ := by
  change s.peek = _
  simp only [Scanner.peek, h]

/-- An analysis of such a session fails at once and leaves the scanner as it is. -/
theorem analyze (h : S.Spent d counters) :
    S.FailsOn d counters ∧ S.analyze.2.machine.source = S.machine.source := by
  cases h with
  | @atEnd span hpending =>
      have hpeek := peek_of_pending hpending
      have hhead : head S.machine.source = .ok (some ⟨.endMark, span⟩) :=
        congrArg Pull.answer hpeek
      have hanalyze : S.machine.analyze S.mode = Machine.conclude (.error (.unexpectedEnd span),
          (S.machine.reset grammar.start).relooked ⟨.endMark, span⟩) :=
        Machine.analyze_of_end_ahead shrinking hhead rfl rfl rfl
      have hfails := failsOn_of_conclude hanalyze rfl
      have hsource : (peek (peek S.machine.source).source).source = S.machine.source := by
        rw [hpeek]
        exact congrArg Pull.source hpeek
      exact ⟨hfails.1, hfails.2.trans hsource⟩
  | @atError _ hpending =>
      have hpeek := peek_of_pending hpending
      have hhead : head S.machine.source = .error d := congrArg Pull.answer hpeek
      have hanalyze : S.machine.analyze S.mode =
          Machine.conclude (.error d, (S.machine.reset grammar.start).looked) :=
        Machine.analyze_of_error_ahead shrinking hhead
      have hfails := failsOn_of_conclude hanalyze rfl
      exact ⟨hfails.1, hfails.2.trans (congrArg Pull.source hpeek)⟩

theorem after (h : S.Spent d counters) (n : Nat) :
    (S.after n).Spent d counters ∧ (S.after n).machine.source = S.machine.source := by
  induction n generalizing S with
  | zero => exact ⟨h, rfl⟩
  | succ n ih =>
      have hsource := h.analyze.2
      obtain ⟨hspent, hlater⟩ := ih (h.congr hsource)
      exact ⟨hspent, hlater.trans hsource⟩

end Spent

end Session

/-! ## Behind the first analysis -/

namespace Closes

variable {outcome : Outcome Symbol}

theorem outcome_of_error {mode : ErrorMode} {d : Diagnostic} (h : Closes mode (.error d) outcome) :
    outcome = .failed d := by
  cases h with
  | unclassified => rfl

/-- A run that resynchronizes ends in front of no token but the end marker. -/
theorem isEnd_of_resync {t : Token Symbol} (h : Closes .resync (.ok (some t)) outcome) :
    t.symbol.isEnd = true := by
  cases h with
  | accepted _ hend | recovered _ hend | unexpectedEnd hend => exact hend
  | unexpected hmode => cases hmode

end Closes

/-- The last answer on a text that is all tokens is the end marker at the end of the text. -/
theorem last_of_scanned {text : String} {ts : List (Token Symbol)} {t : Token Symbol}
    (h : scanned text = tokenAnswers (ts ++ [t])) :
    t = ⟨.endMark, some (.empty (.behind text.toList))⟩ := by
  obtain ⟨os, -, hscanned⟩ := exists_tiling_scanned text
  rw [Occurrence.map_answer_draws, List.map_append, h, tokenAnswers, List.map_append] at hscanned
  obtain ⟨-, hlast⟩ := List.append_inj' hscanned rfl
  have hanswer := List.singleton_inj.1 hlast
  rw [Occurrence.answer_atEnd] at hanswer
  exact Option.some.inj (Except.ok.inj hanswer)

/-- The first analysis ends on the next answer of a scanner that has the answers on the text from there
on, and it leaves this answer where it is. -/
theorem exists_last_answer (text : String) (mode : ErrorMode) :
    ∃ (ts : List (Token Symbol)) (s : Scanner), s.pending = none ∧
      scanned text = tokenAnswers ts ++ s.drain.map Draw.answer ∧
      (Session.ofString text mode).analyze.2.machine.source.pending = some s.scan.answer ∧
      Closes mode (s.scan.answer.map some) (report text mode).outcome := by
  obtain ⟨N, r, taken, s, -, hhalt, hends, hanalyze, hreads, hsource⟩ := exists_last_step text mode
  refine ⟨N.removed, s, hreads.pending, ?_, ?_, ?_⟩
  · rw [scanned, hreads.drain, List.map_append, hreads.answers]
  · have hmachine : (Session.ofString text mode).analyze.2.machine =
        ((Automaton.ofSource (Scanner.ofString text)).analyze mode).2 := rfl
    rw [hmachine, hanalyze, Machine.source_conclude, hsource]
    change s.peek.source.pending = _
    simp only [Scanner.peek, hreads.pending]
  · have houtcome : (report text mode).outcome = (Machine.conclude r).1.outcome :=
      congrArg (fun r => r.1.outcome) hanalyze
    have hhead : head N.source = s.scan.answer.map some := by
      rw [hreads.head_eq, Scanner.draw, Scanner.consume_of_none hreads.pending]
    rw [houtcome]
    exact closes_of_ends s.plain_scan hhead hends

/-- Behind the first analysis stands the end marker, or else the first diagnostic of the scanner, on
which that analysis has failed. -/
theorem exists_spent (text : String) :
    ∃ d counters, (Session.ofString text .resync).analyze.2.Spent d counters ∧
      ((∃ ts, scanned text = tokenAnswers ts) ∧
          d = .unexpectedEnd (some (.empty (.behind text.toList))) ∧ counters = { tokens := 1 } ∨
        (∃ ts rest, scanned text = tokenAnswers ts ++ .error d :: rest) ∧ d.kind = .tokenize ∧
          (report text .resync).outcome = .failed d ∧ counters = {}) := by
  obtain ⟨ts, s, hnone, hscanned, hpending, hcloses⟩ := exists_last_answer text .resync
  have hplain := s.plain_scan
  have hdraw : s.draw = ⟨s.scan.answer.map some, s.scan.scanner.stats⟩ := by
    rw [Scanner.draw, Scanner.consume_of_none hnone]
  cases hanswer : s.scan.answer with
  | error d =>
      rw [hanswer] at hcloses hplain hpending hdraw
      obtain ⟨rest, hrest⟩ : ∃ rest, s.drain = s.draw :: rest := ⟨_, by rw [Scanner.drain]⟩
      rw [hrest, hdraw] at hscanned
      exact ⟨d, {}, .atError hpending,
        .inr ⟨⟨_, _, hscanned⟩, hplain, hcloses.outcome_of_error, rfl⟩⟩
  | ok t =>
      rw [hanswer] at hcloses hpending hdraw
      have hlast : s.draw.isLast = true := by
        rw [hdraw]
        exact hcloses.isEnd_of_resync
      -- Nothing is behind the end marker, so the text is all tokens.
      have htokens : scanned text = tokenAnswers (ts ++ [t]) := by
        rw [hscanned, Scanner.drain_of_last hlast, hdraw, tokenAnswers, tokenAnswers,
          List.map_append]
        rfl
      obtain rfl := last_of_scanned htokens
      exact ⟨_, _, .atEnd hpending, .inl ⟨⟨_, htokens⟩, rfl, rfl⟩⟩

/-- Every analysis but the first one fails with a single diagnostic and without a tree: on the end
of the text, or on what the scanner could not classify. -/
theorem further_analyses_fail (text : String) :
    ∃ d counters,
      ((∃ ts, scanned text = tokenAnswers ts) ∧
          d = .unexpectedEnd (some (.empty (.behind text.toList))) ∧ counters = { tokens := 1 } ∨
        (∃ ts rest, scanned text = tokenAnswers ts ++ .error d :: rest) ∧ d.kind = .tokenize ∧
          (report text .resync).outcome = .failed d ∧ counters = {}) ∧
      ∀ n, ((Session.ofString text .resync).after (n + 1)).FailsOn d counters ∧
        ((Session.ofString text .resync).after (n + 1)).analyze.1.tree? = none ∧
        ((Session.ofString text .resync).after (n + 1)).analyze.2.scannerStats =
          (Session.ofString text .resync).analyze.2.scannerStats := by
  obtain ⟨d, counters, hspent, hcases⟩ := exists_spent text
  refine ⟨d, counters, hcases, fun n => ?_⟩
  obtain ⟨hlater, hsource⟩ := hspent.after n
  obtain ⟨hfails, hagain⟩ := hlater.analyze
  exact ⟨hfails, hfails.tree?_eq_none, congrArg Scanner.stats (hagain.trans hsource)⟩

/-- A text of two lines that is accepted; whoever asks a second time is told that it is at its end. -/
theorem end_behind_accepted_text :
    (report "a\n" .resync).outcome = .accepted (.root (.atomic (.var "a"))) ∧
      ((Session.ofString "a\n" .resync).after 1).FailsOn (.unexpectedEnd (some (.empty ⟨1, 0⟩)))
        { tokens := 1 } ∧
      ((Session.ofString "a\n" .resync).after 1).analyze.1.tree? = none := by
  have haccepted : (report "a\n" .resync).outcome = .accepted (.root (.atomic (.var "a"))) := rfl
  obtain ⟨d, counters, hcases, hfurther⟩ := further_analyses_fail "a\n"
  obtain ⟨hfails, htree, -⟩ := hfurther 0
  rcases hcases with ⟨-, rfl, rfl⟩ | ⟨-, -, hfailed, -⟩
  · exact ⟨haccepted, hfails, htree⟩
  · cases haccepted.symm.trans hfailed

end Arithmetic
end ShiftReduce
