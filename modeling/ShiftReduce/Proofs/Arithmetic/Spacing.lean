import ShiftReduce.Proofs.Arithmetic.Juxtaposition
import ShiftReduce.Proofs.Arithmetic.Progress

/-!
# Spacing — blanks only separate

How many blanks stand between two lexemes, and which, decides nothing; whether there are any matters only
between two characters that would otherwise be read as one run.  So texts that differ in such blanks have
the same lexemes, and all that can be told of a run over the one can be told of a run over the other,
except where things lie.

* `Respacing`, `Respaced`: changes of the blanks of a text.
* `Respaced.lexemes_eq`: that these leave the lexemes alone.
* `Scanner.Behind.map_look_drain`: without places, a scanner answers on the lexemes and nothing else.
* `spacing_is_immaterial`: what a scanner and a session make of such texts.
-/

namespace ShiftReduce

def SpanView.hidden : SpanView :=
  ⟨fun _ => none, rfl, fun _ _ => rfl⟩

namespace Arithmetic

open TokenSource

/-! ## Changes of the blanks -/

/-- One change of the blanks of a text: some of them are replaced by others, or blanks are put in at a
place where, on one side or the other, the nearest character that is no blank is no letter, digit or
point either, or there is none. -/
inductive Respacing : List Char → List Char → Prop
  | replaced {before blanks blanks' behind : List Char} (hsome : blanks ≠ []) (hsome' : blanks' ≠ [])
      (hblanks : ∀ c ∈ blanks, isBlank c = true) (hblanks' : ∀ c ∈ blanks', isBlank c = true) :
      Respacing (before ++ blanks ++ behind) (before ++ blanks' ++ behind)
  | inserted {before blanks behind : List Char} (hblanks : ∀ c ∈ blanks, isBlank c = true)
      (hplace : Stops isRunChar (before.reverse.dropWhile isBlank) ∨
        Stops isRunChar (behind.dropWhile isBlank)) :
      Respacing (before ++ behind) (before ++ blanks ++ behind)

/-- The texts differ by changes of the blanks, in either direction and any number of them. -/
def Respaced : List Char → List Char → Prop :=
  Relation.EqvGen Respacing

/-! ## The same lexemes -/

/-- A blank goes on with no run, and neither does what is behind it. -/
theorem stops_of_dropWhile {cs : List Char} (h : Stops isRunChar (cs.dropWhile isBlank)) :
    Stops isRunChar cs := by
  intro c rest hcs
  cases hblank : isBlank c with
  | false => exact h c rest (by simp [hcs, hblank])
  | true =>
      refine Bool.eq_false_iff.2 fun hrun => ?_
      cases hblank.symm.trans (isBlank_of_isRunChar hrun)

theorem stops_blanks {blanks : List Char} (hsome : blanks ≠ [])
    (hblanks : ∀ c ∈ blanks, isBlank c = true) (rest : List Char) :
    Stops isRunChar (blanks ++ rest) := by
  cases blanks with
  | nil => exact absurd rfl hsome
  | cons c blanks =>
      refine stops_cons ?_ _
      refine Bool.eq_false_iff.2 fun hrun => ?_
      cases (hblanks c List.mem_cons_self).symm.trans (isBlank_of_isRunChar hrun)

theorem lexemes_blanks {blanks : List Char} (hblanks : ∀ c ∈ blanks, isBlank c = true)
    (tail : List Char) : lexemes (blanks ++ tail) = lexemes tail := by
  have hwhole := map_characters_occurrences [] (blanks ++ tail) []
  have htail := map_characters_occurrences blanks tail []
  rw [occurrences_blanks hblanks] at hwhole
  exact hwhole.symm.trans htail

theorem Respacing.lexemes_eq {cs ds : List Char} (h : Respacing cs ds) : lexemes cs = lexemes ds := by
  -- Where there are blanks, a text can be cut, and behind the cut they are skipped.
  have hcut : ∀ {before blanks behind : List Char}, blanks ≠ [] → (∀ c ∈ blanks, isBlank c = true) →
      lexemes (before ++ blanks ++ behind) = lexemes before ++ lexemes behind := by
    intro before blanks behind hsome hblanks
    rw [List.append_assoc, lexemes_append _ _ (.inr (stops_blanks hsome hblanks behind)),
      lexemes_blanks hblanks]
  cases h with
  | replaced hsome hsome' hblanks hblanks' => rw [hcut hsome hblanks, hcut hsome' hblanks']
  | @inserted before blanks behind hblanks hplace =>
      cases blanks with
      | nil => rw [List.append_nil]
      | cons c blanks =>
          rw [hcut (List.cons_ne_nil c blanks) hblanks]
          exact lexemes_append _ _ (hplace.imp stops_of_dropWhile stops_of_dropWhile)

theorem Respaced.lexemes_eq {cs ds : List Char} (h : Respaced cs ds) : lexemes cs = lexemes ds := by
  induction h with
  | rel _ _ hstep => exact hstep.lexemes_eq
  | refl => rfl
  | symm _ _ _ ih => exact ih.symm
  | trans _ _ _ _ _ ih ih' => exact ih.trans ih'

/-! ## Answers without places -/

/-- What is left of an answer if one does not look where things lie: the answer without its span, and
the number of tokens so far. -/
def Draw.look (d : Draw) : Answer Symbol × Nat :=
  (SpanView.hidden.answer d.answer, d.stats.tokens)

def Lexeme.answer (lexeme : List Char) : Answer Symbol :=
  match classify lexeme with
  | some s => .ok (some ⟨s, none⟩)
  | none => .error (.tokenize (.ofList lexeme) none)

/-- The answers on lexemes, and the end marker, each with the number of tokens so far, to which `tokens`
came before. -/
def looks (tokens : Nat) : List (List Char) → List (Answer Symbol × Nat)
  | [] => [(.ok (some ⟨.endMark, none⟩), tokens + 1)]
  | lexeme :: rest =>
      let tokens := tokens + (Lexeme.classify lexeme).isSome.toNat
      (Lexeme.answer lexeme, tokens) :: looks tokens rest

theorem Occurrence.hidden_answer {text : List Char} {o : Occurrence}
    (h : o.symbol? = Lexeme.classify (o.characters text)) :
    SpanView.hidden.answer (o.answer text) = Lexeme.answer (o.characters text) := by
  rw [answer, Lexeme.answer, h]
  cases Lexeme.classify (o.characters text) <;> rfl

theorem Occurrence.map_look_draws {text : List Char} {os : List Occurrence} (tokens : Nat)
    (h : ∀ o ∈ os, o.symbol? = Lexeme.classify (o.characters text)) :
    (draws text tokens os).map Draw.look = looks tokens (os.map fun o => o.characters text) := by
  induction os generalizing tokens with
  | nil => rfl
  | cons o os ih =>
      obtain ⟨ho, hos⟩ := List.forall_mem_cons.1 h
      rw [draws, List.map_cons, ih _ hos, ho, Draw.look, hidden_answer ho]
      rfl

/-- If one does not look where things lie, a scanner answers on the lexemes of its text. -/
theorem Scanner.Behind.map_look_drain {s : Scanner} {before : List Char} {tokens : Nat}
    (h : s.Behind before tokens) : s.drain.map Draw.look = looks tokens (lexemes s.rest) := by
  have hlexemes := map_characters_occurrences before s.rest []
  have hsymbols := map_symbol_occurrences before s.rest
  rw [List.append_nil] at hlexemes
  rw [← hlexemes, List.map_map] at hsymbols
  rw [h.drain_eq, Occurrence.map_look_draws tokens (List.map_inj_left.1 hsymbols), hlexemes]

theorem Respaced.map_look_drain {text text' : String} (h : Respaced text.toList text'.toList) :
    (Scanner.ofString text).drain.map Draw.look = (Scanner.ofString text').drain.map Draw.look := by
  have hlooks : ∀ text : String,
      (Scanner.ofString text).drain.map Draw.look = looks 0 (lexemes text.toList) :=
    fun text => (Scanner.behind_ofList text.toList).map_look_drain
  rw [hlooks, hlooks, h.lexemes_eq]

/-! ## Sources and reports -/

/-- Answers that look the same begin with tokens that look the same. -/
theorem exists_tokenAnswers {v : SpanView} {answers answers' : List (Answer Symbol)}
    {ts : List (Token Symbol)} {last : Answer Symbol} {rest : List (Answer Symbol)}
    (h : answers.map v.answer = answers'.map v.answer)
    (hanswers : answers = tokenAnswers ts ++ last :: rest) :
    ∃ ts' last' rest', answers' = tokenAnswers ts' ++ last' :: rest' ∧
      ts.map v.token = ts'.map v.token ∧ v.answer last = v.answer last' := by
  induction ts generalizing answers answers' with
  | nil =>
      subst hanswers
      obtain ⟨last', rest', rfl, hlast, -⟩ := List.map_eq_cons_iff.1 h.symm
      exact ⟨[], last', rest', rfl, rfl, hlast.symm⟩
  | cons t ts ih =>
      subst hanswers
      obtain ⟨first, behind, rfl, hfirst, hbehind⟩ := List.map_eq_cons_iff.1 h.symm
      obtain ⟨ts', last', rest', rfl, htokens, hlast⟩ := ih hbehind.symm rfl
      rcases SpanView.answer_cases hfirst.symm with ⟨_, _, ht, -⟩ | ⟨ht, -⟩ | ⟨u, t', ht, rfl, hlook⟩
      · cases ht
      · cases ht
      · cases ht
        exact ⟨t' :: ts', last', rest', rfl, congrArg₂ List.cons hlook htokens, hlast⟩

/-- Scanners whose answers look the same are alike. -/
theorem alike_of_map_answer {v : SpanView} {text text' : String}
    (h : (scanned text).map v.answer = (scanned text').map v.answer) :
    TokenSource.Alike v (Scanner.ofString text) (Scanner.ofString text') := by
  -- What counts is what comes before the end marker, or before the first error.
  obtain ⟨ts, last, rest, hscanned, hfinal⟩ : ∃ ts last rest,
      scanned text = tokenAnswers ts ++ last :: rest ∧
        ∀ t, last = .ok (some t) → t.symbol.isEnd = true := by
    rcases scanned_cases text with ⟨ts, last, hscanned, hend⟩ | ⟨ts, e, rest, hscanned⟩
    · refine ⟨ts, .ok (some last), [], by simpa [tokenAnswers] using hscanned, ?_⟩
      rintro t ⟨⟩
      exact hend
    · refine ⟨ts, .error e, rest, hscanned, ?_⟩
      rintro t ⟨⟩
  obtain ⟨ts', last', rest', hscanned', htokens, hlast⟩ := exists_tokenAnswers h hscanned
  exact ⟨ts, last, ts', last', (Scanner.delivers_of_drain rfl hscanned).1,
    (Scanner.delivers_of_drain rfl hscanned').1, htokens, hlast, hfinal⟩

theorem Respaced.report_alike {text text' : String} (h : Respaced text.toList text'.toList)
    (mode : ErrorMode) : (report text mode).Alike .hidden (report text' mode) := by
  have hanswers : (scanned text).map SpanView.hidden.answer =
      (scanned text').map SpanView.hidden.answer := by
    have hlooks := congrArg (List.map Prod.fst) h.map_look_drain
    rw [List.map_map, List.map_map] at hlooks
    rw [scanned, scanned, List.map_map, List.map_map]
    exact hlooks
  have halike := alike_of_map_answer hanswers
  have hfirst : (Automaton.firstReport (Scanner.ofString text) mode).Alike .hidden
      (Automaton.firstReport (Scanner.ofString text') mode) :=
    Machine.analyze_alike shrinking mode halike rfl
  refine ⟨hfirst.outcome, hfirst.diagnostics, hfirst.stats, ?_⟩
  rw [verdicts_report, verdicts_report]
  exact hfirst.verdicts

/-- Where the sessions have got in their texts, as many tokens have been scanned. -/
theorem Respaced.scannerStats_tokens {text text' : String} (h : Respaced text.toList text'.toList)
    (mode : ErrorMode) : (Session.ofString text mode).analyze.2.scannerStats.tokens =
      (Session.ofString text' mode).analyze.2.scannerStats.tokens := by
  obtain ⟨taken, next, rest, hhalts⟩ := exists_haltsOn text mode
  obtain ⟨taken', next', rest', hhalts'⟩ := exists_haltsOn text' mode
  -- Both runs have taken as many answers, so the next one is at the same place among all of them.
  have hlength : (taken.map Draw.look).length = (taken'.map Draw.look).length := by
    have hverdicts := SpanView.length_eq (h.report_alike mode).verdicts
    rw [List.length_map, List.length_map, hhalts.length_taken, hhalts'.length_taken, hverdicts]
  have hdrain := h.map_look_drain
  rw [hhalts.drain, hhalts'.drain, List.map_append, List.map_append] at hdrain
  have hnext : next.look = next'.look := (List.cons.inj (List.append_inj hdrain hlength).2).1
  rw [hhalts.scannerStats, hhalts'.scannerStats]
  exact congrArg Prod.snd hnext

/-- Changes of the blanks change nothing but spans and numbers of characters. -/
theorem spacing_is_immaterial {text text' : String} (h : Respaced text.toList text'.toList) :
    (Scanner.ofString text).drain.map Draw.look = (Scanner.ofString text').drain.map Draw.look ∧
    ∀ mode,
      SpanView.hidden.outcome (report text mode).outcome =
        SpanView.hidden.outcome (report text' mode).outcome ∧
      (report text mode).diagnostics.map SpanView.hidden.diagnostic =
        (report text' mode).diagnostics.map SpanView.hidden.diagnostic ∧
      (report text mode).stats = (report text' mode).stats ∧
      (Session.ofString text mode).analyze.2.scannerStats.tokens =
        (Session.ofString text' mode).analyze.2.scannerStats.tokens := by
  refine ⟨h.map_look_drain, fun mode => ?_⟩
  have halike := h.report_alike mode
  exact ⟨halike.outcome, halike.diagnostics, halike.stats, h.scannerStats_tokens mode⟩

/-- The witness reads `2 x+#` and the same on two lines and with blanks around the operator. -/
theorem spacing_of_sum : Respaced "2 x+#".toList "2\nx + #".toList ∧
    (report "2 x+#" .resync).stats = (report "2\nx + #" .resync).stats ∧
    (report "2\nx + #" .resync).diagnostics.map Diagnostic.message =
      ["unexpected token 'x'", "unrecognized input '#'"] := by
  have hbreak : Respacing (['2'] ++ [' '] ++ ['x', '+', '#']) (['2'] ++ ['\n'] ++ ['x', '+', '#']) :=
    .replaced (List.cons_ne_nil _ _) (List.cons_ne_nil _ _) (List.forall_mem_singleton.2 rfl)
      (List.forall_mem_singleton.2 rfl)
  have hleft : Respacing (['2', '\n', 'x'] ++ ['+', '#']) (['2', '\n', 'x'] ++ [' '] ++ ['+', '#']) :=
    .inserted (List.forall_mem_singleton.2 rfl) (.inr (stops_cons rfl _))
  have hright : Respacing (['2', '\n', 'x', ' ', '+'] ++ ['#'])
      (['2', '\n', 'x', ' ', '+'] ++ [' '] ++ ['#']) :=
    .inserted (List.forall_mem_singleton.2 rfl) (.inr (stops_cons rfl _))
  have h : Respaced "2 x+#".toList "2\nx + #".toList :=
    .trans _ _ _ (.rel _ _ hbreak) (.trans _ _ _ (.rel _ _ hleft) (.rel _ _ hright))
  exact ⟨h, ((spacing_is_immaterial h).2 .resync).2.2.1, by decide +kernel⟩

end Arithmetic
end ShiftReduce
