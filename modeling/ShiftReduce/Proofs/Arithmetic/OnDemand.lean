import ShiftReduce.Proofs.Arithmetic.Acceptance
import ShiftReduce.Proofs.Arithmetic.Partition
import ShiftReduce.Proofs.Arithmetic.Spelling
import ShiftReduce.Proofs.Machine.Likeness

/-!
# On demand — a text scanned while it is read, and a text scanned beforehand

A session scans its text lexeme by lexeme, whenever the machine asks.  It makes no difference: what it
reports is what it would report on a queue of all the answers, up to the first diagnostic of the scanner.

* `Scanner.delivers_of_drain`: what a scanner hands out is what it answers when it is emptied.
* `scanning_on_demand`: the reports on a text and on the queue of its tokens.
-/

namespace ShiftReduce
namespace Arithmetic

open TokenSource

/-- What a scanner answers that is emptied before anything is read. -/
def scanned (text : String) : List (Answer Symbol) :=
  (Scanner.ofString text).drain.map Draw.answer

def tokenAnswers (ts : List (Token Symbol)) : List (Answer Symbol) :=
  ts.map fun t => .ok (some t)

namespace Scanner

variable {s : Scanner}

/-! ## Emptying a scanner -/

theorem head_eq_draw (h : s.pending = none) : head s = s.draw.answer := by
  rw [head_eq h, draw, consume_of_none h]

theorem tail_eq_consume (h : s.pending = none) : tail s = s.consume.source := by
  rw [tail_eq h, consume_of_none h]
  have hpending : s.scan.scanner.pending = none := (pending_scan s).trans h
  rw [← hpending]

/-- A token that is not the last answer is an input. -/
theorem isInput_of_draw {t : Token Symbol} (h : s.pending = none)
    (hanswer : s.draw.answer = .ok (some t)) (hlast : s.draw.isLast = false) : IsInput t := by
  have hplain := s.plain_scan
  rw [Draw.isLast, hanswer] at hlast
  rw [draw, consume_of_none h] at hanswer
  cases hscan : s.scan.answer with
  | error d =>
      rw [hscan] at hanswer
      cases hanswer
  | ok u =>
      rw [hscan] at hanswer hplain
      cases hanswer
      exact ⟨hplain, hlast⟩

/-- A scanner hands out the tokens that it answers with, up to any other answer. -/
theorem delivers_of_drain {ts : List (Token Symbol)} {answer : Answer Symbol}
    {rest : List (Answer Symbol)} (hpending : s.pending = none)
    (h : s.drain.map Draw.answer = tokenAnswers ts ++ answer :: rest) :
    Delivers s ts answer ∧ ∀ t ∈ ts, IsInput t := by
  induction ts generalizing s with
  | nil =>
      rw [drain] at h
      exact ⟨(head_eq_draw hpending).trans (List.cons.inj h).1, List.forall_mem_nil _⟩
  | cons t ts ih =>
      rw [drain, List.map_cons] at h
      obtain ⟨hanswer, hrest⟩ := List.cons.inj h
      cases hlast : s.draw.isLast with
      | true => simp [hlast] at hrest
      | false =>
          rw [dif_neg (by simp [hlast])] at hrest
          obtain ⟨hdelivers, hts⟩ := ih (pending_consume s) hrest
          rw [← tail_eq_consume hpending] at hdelivers
          exact ⟨⟨(head_eq_draw hpending).trans hanswer, hdelivers⟩,
            List.forall_mem_cons.2 ⟨isInput_of_draw hpending hanswer hlast, hts⟩⟩

end Scanner

/-- The answers on lexemes are tokens up to the end marker, or up to the first diagnostic. -/
theorem Occurrence.draws_cases (text : List Char) (tokens : Nat) (os : List Occurrence) :
    (∃ (ts : List (Token Symbol)) (last : Token Symbol),
        (draws text tokens os).map Draw.answer = tokenAnswers (ts ++ [last]) ∧
          last.symbol.isEnd = true) ∨
      ∃ (ts : List (Token Symbol)) (e : Diagnostic) (rest : List (Answer Symbol)),
        (draws text tokens os).map Draw.answer = tokenAnswers ts ++ .error e :: rest := by
  induction os generalizing tokens with
  | nil => exact .inl ⟨[], _, rfl, rfl⟩
  | cons o os ih =>
      rw [draws, List.map_cons]
      cases hsymbol : o.symbol? with
      | none => exact .inr ⟨[], _, _, by simp only [answer, hsymbol]; rfl⟩
      | some s =>
          simp only [answer, hsymbol]
          rcases ih (tokens + (some s).isSome.toNat) with
            ⟨ts, last, hts, hlast⟩ | ⟨ts, e, rest, hts⟩
          · exact .inl ⟨⟨s, some (o.span text)⟩ :: ts, last, congrArg (_ :: ·) hts, hlast⟩
          · exact .inr ⟨⟨s, some (o.span text)⟩ :: ts, e, rest, congrArg (_ :: ·) hts⟩

theorem exists_tiling_scanned (text : String) :
    ∃ os, Occurrence.Tiling text.toList 0 os ∧
      scanned text = (Occurrence.draws text.toList 0 os).map Draw.answer := by
  obtain ⟨os, htiling, hdrain⟩ := (Scanner.behind_ofList text.toList).exists_tiling
  exact ⟨os, htiling, congrArg (List.map Draw.answer) hdrain⟩

theorem scanned_cases (text : String) :
    (∃ (ts : List (Token Symbol)) (last : Token Symbol),
        scanned text = tokenAnswers (ts ++ [last]) ∧ last.symbol.isEnd = true) ∨
      ∃ (ts : List (Token Symbol)) (e : Diagnostic) (rest : List (Answer Symbol)),
        scanned text = tokenAnswers ts ++ .error e :: rest := by
  obtain ⟨os, -, hscanned⟩ := exists_tiling_scanned text
  rw [hscanned]
  exact Occurrence.draws_cases _ _ os

/-! ## Reports on texts -/

section

variable {text : String} {ts : List (Token Symbol)} {e : Diagnostic} {rest : List (Answer Symbol)}

/-- Without a diagnostic of the scanner, a text ends with the end marker. -/
theorem exists_end_of_scanned (h : scanned text = tokenAnswers ts) :
    ∃ (front : List (Token Symbol)) (last : Token Symbol),
      ts = front ++ [last] ∧ last.symbol.isEnd = true := by
  rcases scanned_cases text with ⟨front, last, hfront, hend⟩ | ⟨front, e, rest, hfront⟩
  · refine ⟨front, last, ?_, hend⟩
    refine (List.map_injective_iff.2 ?_) (h.symm.trans hfront)
    exact fun t u htu => Option.some.inj (Except.ok.inj htu)
  · have he : (.error e : Answer Symbol) ∈ tokenAnswers ts := by
      rw [← h, hfront]
      exact List.mem_append_right _ List.mem_cons_self
    obtain ⟨t, -, ht⟩ := List.mem_map.1 he
    cases ht

/-- A session on a text and a run over the queue of its tokens report the same. -/
theorem report_eq_queue (mode : ErrorMode) (h : scanned text = tokenAnswers ts) :
    (report text mode).outcome = (Automaton.firstReport (Queue.ofList ts) mode).outcome ∧
      (report text mode).diagnostics =
        (Automaton.firstReport (Queue.ofList ts) mode).diagnostics ∧
      (report text mode).stats = (Automaton.firstReport (Queue.ofList ts) mode).stats ∧
      (report text mode).verdicts = (Automaton.firstReport (Queue.ofList ts) mode).verdicts := by
  obtain ⟨front, last, rfl, hend⟩ := exists_end_of_scanned h
  rw [tokenAnswers, List.map_append] at h
  have hscanner := (Scanner.delivers_of_drain (s := .ofString text) rfl h).1
  have halike : TokenSource.Alike .full (Scanner.ofString text) (Queue.ofList (front ++ [last])) := by
    refine ⟨front, _, front, _, hscanner, Queue.delivers front last [] 0, rfl, rfl, ?_⟩
    rintro t ⟨⟩
    exact hend
  have hreports : (Automaton.firstReport (Scanner.ofString text) mode).Alike .full
      (Automaton.firstReport (Queue.ofList (front ++ [last])) mode) :=
    Machine.analyze_alike shrinking mode halike rfl
  rw [verdicts_report]
  exact hreports.eq_of_full

theorem discarded_report (text : String) (mode : ErrorMode) :
    (report text mode).discarded =
      (Automaton.firstReport (Scanner.ofString text) mode).discarded := by
  rw [Analysis.discarded_eq, Analysis.discarded_eq, verdicts_report]

/-- Up to the first diagnostic of the scanner a session judges the tokens in front of it. -/
theorem report_of_error (h : scanned text = tokenAnswers ts ++ .error e :: rest) :
    (report text .resync).outcome = .failed e ∧
      (report text .resync).verdicts = Draft.empty.verdicts ts := by
  obtain ⟨hdelivers, hts⟩ := Scanner.delivers_of_drain (s := .ofString text) rfl h
  obtain ⟨houtcome, -, hverdicts⟩ := analyze_of_error hts hdelivers
  exact ⟨houtcome, (verdicts_report text .resync).trans hverdicts⟩

/-- A session fails on the first token that it may not discard, or else as one that may discard. -/
theorem outcome_abort (h : (report text .resync).outcome = .failed e) :
    (report text .abort).outcome =
      .failed (((report text .resync).discarded.map Token.complaint).head?.getD e) := by
  rw [discarded_report]
  rcases Machine.analyze_abort_cases shrinking (Automaton.ofSource (Scanner.ofString text)) with
    ⟨hnone, hsame⟩ | ⟨t, hcut⟩
  · have hdiscarded : (Automaton.firstReport (Scanner.ofString text) .resync).discarded = [] := hnone
    have houtcome : (report text .abort).outcome = (report text .resync).outcome :=
      congrArg (fun r => r.1.outcome) hsame
    rw [houtcome, h, hdiscarded]
    rfl
  · have hdiscarded : (Automaton.firstReport (Scanner.ofString text) .resync).discarded.head? =
        some t := hcut.first_discarded
    rw [List.head?_map, hdiscarded]
    exact hcut.outcome

theorem diagnostics_report (text : String) (mode : ErrorMode) :
    (report text mode).diagnostics =
      (report text mode).discarded.map Token.complaint ++ (report text mode).fatal?.toList := by
  rw [discarded_report]
  exact Machine.diagnostics_analyze shrinking mode (Automaton.ofSource (Scanner.ofString text))

/-- It makes no difference whether a text is scanned before it is read, or while; a run over a text
that cannot be scanned goes as far as the first diagnostic of the scanner. -/
theorem scanning_on_demand (text : String) :
    ((∃ ts, scanned text = tokenAnswers ts) ∨
      ∃ ts e rest, scanned text = tokenAnswers ts ++ .error e :: rest) ∧
    (∀ ts mode, scanned text = tokenAnswers ts →
      (report text mode).outcome = (Automaton.firstReport (Queue.ofList ts) mode).outcome ∧
      (report text mode).diagnostics =
        (Automaton.firstReport (Queue.ofList ts) mode).diagnostics ∧
      (report text mode).stats = (Automaton.firstReport (Queue.ofList ts) mode).stats ∧
      (report text mode).verdicts = (Automaton.firstReport (Queue.ofList ts) mode).verdicts) ∧
    ∀ ts e rest, scanned text = tokenAnswers ts ++ .error e :: rest →
      (report text .resync).outcome = .failed e ∧
      (report text .resync).verdicts.map Prod.fst = ts ∧
      (report text .resync).verdicts = (reportOn .resync ts none).verdicts ∧
      (report text .resync).diagnostics =
        (report text .resync).discarded.map Token.complaint ++ [e] ∧
      (report text .abort).outcome =
        .failed (((report text .resync).discarded.map Token.complaint).head?.getD e) := by
  refine ⟨?_, fun ts mode => report_eq_queue mode, ?_⟩
  · rcases scanned_cases text with ⟨ts, last, h, -⟩ | h
    · exact .inl ⟨_, h⟩
    · exact .inr h
  · intro ts e rest h
    obtain ⟨houtcome, hverdicts⟩ := report_of_error h
    have hts := (Scanner.delivers_of_drain (s := .ofString text) rfl h).2
    have hqueue := (analyze_resync hts (delivers_inputQueue ts none)).2.2
    refine ⟨houtcome, ?_, hverdicts.trans hqueue.symm, ?_, outcome_abort houtcome⟩
    · rw [hverdicts, Draft.verdicts_fst]
    · rw [diagnostics_report, Analysis.fatal?, houtcome]
      rfl

/-- The witness reads `a )`, all of which are tokens, and `) #`, in which `#` is none. -/
theorem on_demand_stray_bracket :
    (∃ ts, scanned "a )" = tokenAnswers ts ∧
      (report "a )" .resync).diagnostics =
        (Automaton.firstReport (Queue.ofList ts) .resync).diagnostics) ∧
    ∃ t e rest, scanned ") #" = tokenAnswers [t] ++ .error e :: rest ∧
      (report ") #" .resync).outcome = .failed e ∧
      (report ") #" .resync).diagnostics = [t.complaint, e] ∧
      (report ") #" .abort).outcome = .failed t.complaint := by
  constructor
  · have hscanned : scanned "a )" = tokenAnswers [⟨.var "a", some ⟨⟨0, 0⟩, ⟨0, 1⟩⟩⟩,
        ⟨.bracket .closing, some ⟨⟨0, 2⟩, ⟨0, 3⟩⟩⟩, ⟨.endMark, some (.empty ⟨0, 3⟩)⟩] := by
      rw [scanned, Scanner.drain_of_next (by decide +kernel),
        Scanner.drain_of_next (by decide +kernel), Scanner.drain_of_last (by decide +kernel)]
      rfl
    exact ⟨_, hscanned, ((scanning_on_demand "a )").2.1 _ .resync hscanned).2.1⟩
  · have hscanned : scanned ") #" = tokenAnswers [⟨.bracket .closing, some ⟨⟨0, 0⟩, ⟨0, 1⟩⟩⟩] ++
        .error (.tokenize "#" (some ⟨⟨0, 2⟩, ⟨0, 3⟩⟩)) ::
          [.ok (some ⟨.endMark, some (.empty ⟨0, 3⟩)⟩)] := by
      rw [scanned, Scanner.drain_of_next (by decide +kernel),
        Scanner.drain_of_next (by decide +kernel), Scanner.drain_of_last (by decide +kernel)]
      rfl
    have hdiscarded : (report ") #" .resync).discarded =
        [⟨.bracket .closing, some ⟨⟨0, 0⟩, ⟨0, 1⟩⟩⟩] := rfl
    obtain ⟨houtcome, -, -, hdiagnostics, habort⟩ :=
      (scanning_on_demand ") #").2.2 _ _ _ hscanned
    rw [hdiscarded] at hdiagnostics habort
    exact ⟨_, _, _, hscanned, houtcome, hdiagnostics, habort⟩

end

end Arithmetic
end ShiftReduce
