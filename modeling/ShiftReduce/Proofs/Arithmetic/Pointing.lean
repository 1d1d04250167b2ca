import ShiftReduce.Proofs.Arithmetic.Progress

/-!
# Pointing — where the diagnostics on a text point

A diagnostic on a text is about one of its lexemes or about its end, and that is where it points: at the
lexeme of a token that was rejected, at a lexeme that cannot be classified, or at the empty place behind
the last character.

* `Occurrence.diagnostic`: the diagnostic on a lexeme in its place.
* `Report.rejected`: the lexemes that a report complains about.
* `PointsAt`: what a diagnostic of each kind points at.
* `diagnostics_point_at_lexemes`: the diagnostics of every report on a text.
-/

namespace ShiftReduce
namespace Arithmetic

/-! ## Lexemes and the end -/

namespace Occurrence

/-- The empty place at the end of a text, which stands for the end marker. -/
def atEnd (text : List Char) : Occurrence :=
  ⟨⟨text.length, text.length⟩, some .endMark⟩

/-- What a report says on a lexeme that has no place or cannot be classified, and on the end of a text
that is not complete. -/
def diagnostic (text : List Char) (o : Occurrence) : Diagnostic :=
  match o.symbol? with
  | none => .tokenize (.ofList (o.characters text)) (some (o.span text))
  | some .endMark => .unexpectedEnd (some (o.span text))
  | some s => .unexpected s.text (some (o.span text))

variable {text : List Char} {o : Occurrence} {t : Token Symbol}

theorem answer_atEnd (text : List Char) :
    (atEnd text).answer text = .ok (some ⟨.endMark, some (.empty (.behind text))⟩) := by
  have hspan : (atEnd text).span text = .empty (.behind text) := by
    simp [atEnd, Interval.span, Span.empty]
  rw [← hspan]
  rfl

/-- What a scanner answers are the answers on the lexemes and on the end. -/
theorem map_answer_draws (text : List Char) (tokens : Nat) (os : List Occurrence) :
    (draws text tokens os).map Draw.answer = (os ++ [atEnd text]).map (answer text) := by
  induction os generalizing tokens with
  | nil => simp [draws, answer_atEnd]
  | cons o os ih => simp [draws, ih]

theorem span_diagnostic (text : List Char) (o : Occurrence) :
    (o.diagnostic text).span = some (o.span text) := by
  unfold diagnostic
  split <;> rfl

/-- An answer that is a token is about the symbol of the lexeme and points at the lexeme. -/
theorem eq_of_answer (h : o.answer text = .ok (some t)) :
    o.symbol? = some t.symbol ∧ t.span = some (o.span text) := by
  unfold answer at h
  split at h
  · rename_i s hsymbol
    cases h
    exact ⟨hsymbol, rfl⟩
  · cases h

theorem diagnostic_of_token (h : o.answer text = .ok (some t)) (hend : t.symbol.isEnd = false) :
    o.diagnostic text = t.complaint := by
  obtain ⟨hsymbol, hspan⟩ := eq_of_answer h
  unfold diagnostic Token.complaint
  simp only [hsymbol, hspan]
  split
  · rename_i hnone
    cases hnone
  · rename_i hmark
    rw [Option.some.inj hmark] at hend
    cases hend
  · rename_i s _ hs
    cases hs
    rfl

theorem diagnostic_of_end (h : o.answer text = .ok (some t)) (hend : t.symbol.isEnd = true) :
    o.diagnostic text = .unexpectedEnd t.span := by
  obtain ⟨hsymbol, hspan⟩ := eq_of_answer h
  have hmark : t.symbol = .endMark := by
    cases hs : t.symbol with
    | endMark => rfl
    | _ => rw [hs] at hend; cases hend
  unfold diagnostic
  simp only [hsymbol, hspan, hmark]

theorem diagnostic_of_error {d : Diagnostic} (h : o.answer text = .error d) :
    o.diagnostic text = d := by
  unfold answer at h
  unfold diagnostic
  split at h
  · cases h
  · rename_i hsymbol
    simp only [hsymbol]
    exact Except.error.inj h

end Occurrence

/-! ## Lexemes that are complained about -/

/-- The lexemes that a report complains about, if `read` are those of the tokens that left the source
and `next` is the one in front of which the run ended: those of the tokens that were discarded and, if
the run failed, `next`. -/
def Report.rejected (A : Report) (read : List Occurrence) (next : Occurrence) : List Occurrence :=
  ((read.zip A.verdicts).filter fun v => !v.2.2).map Prod.fst ++
    if A.fatal?.isSome then [next] else []

theorem rejected_sublist {A : Report} {read : List Occurrence} (next : Occurrence)
    (h : read.length = A.verdicts.length) : (A.rejected read next).Sublist (read ++ [next]) := by
  have hread : (read.zip A.verdicts).map Prod.fst = read := List.map_fst_zip (Nat.le_of_eq h)
  refine List.Sublist.append ?_ ?_
  · simpa only [hread] using (List.filter_sublist (l := read.zip A.verdicts)
      (p := fun v => !v.2.2)).map Prod.fst
  · split
    · exact List.Sublist.refl _
    · exact List.nil_sublist _

section

variable {text : List Char} {mode : ErrorMode}

/-- A lexeme that was discarded is complained about as its token. -/
theorem map_diagnostic_discarded {read : List Occurrence} {verdicts : List (Token Symbol × Bool)}
    (h : read.map (Occurrence.answer text) = tokenAnswers (verdicts.map Prod.fst))
    (hend : ∀ v ∈ verdicts, v.1.symbol.isEnd = false) :
    (((read.zip verdicts).filter fun v => !v.2.2).map Prod.fst).map (Occurrence.diagnostic text) =
      ((verdicts.filter fun v => !v.2).map Prod.fst).map Token.complaint := by
  induction verdicts generalizing read with
  | nil => simp
  | cons v verdicts ih =>
      cases read with
      | nil => cases h
      | cons o read =>
          obtain ⟨ho, hread⟩ := List.cons.inj h
          obtain ⟨hv, hverdicts⟩ := List.forall_mem_cons.1 hend
          have hrest := ih hread hverdicts
          obtain ⟨t, kept⟩ := v
          cases kept with
          | true => exact hrest
          | false => exact congrArg₂ List.cons (Occurrence.diagnostic_of_token ho hv) hrest

/-- What a run fails on is the lexeme, or the end, in front of which it ends. -/
theorem map_diagnostic_last {A : Report} {next : Occurrence}
    (h : Closes mode (next.answer text) A.outcome) :
    (if A.fatal?.isSome then [next] else []).map (Occurrence.diagnostic text) = A.fatal?.toList := by
  rw [Analysis.fatal?]
  generalize hanswer : next.answer text = answer at h
  generalize A.outcome = outcome at h
  cases h with
  | accepted | recovered => rfl
  | unexpectedEnd hend =>
      have hnext := Occurrence.diagnostic_of_end hanswer hend
      simp [hnext]
  | unexpected _ hend =>
      have hnext := Occurrence.diagnostic_of_token hanswer hend
      simp [hnext]
  | unclassified d =>
      have hnext := Occurrence.diagnostic_of_error hanswer
      simp [hnext]

end

/-! ## Texts -/

/-- What a diagnostic points at: one about a token or an input that cannot be classified at one of the
lexemes `os`, one about the end at the end. -/
inductive PointsAt (text : List Char) (os : List Occurrence) : Occurrence → DiagnosticKind → Prop
  | token {o : Occurrence} {s : Symbol} (ho : o ∈ os) (hsymbol : o.symbol? = some s) :
      PointsAt text os o .unexpectedSymbol
  | unclassified {o : Occurrence} (ho : o ∈ os) (hsymbol : o.symbol? = none) :
      PointsAt text os o .tokenize
  | atEnd : PointsAt text os (.atEnd text) .unexpectedEnd

namespace Occurrence.Tiling

variable {text : List Char} {os : List Occurrence}

/-- The lexemes and the end come one behind the other, by their characters and by their lines and
columns. -/
theorem pairwise_atEnd (h : Tiling text 0 os) :
    (os ++ [atEnd text]).Pairwise fun o o' =>
      o.stop ≤ o'.start ∧ (o.span text).stop ≤ (o'.span text).start := by
  have horder : (os ++ [atEnd text]).Pairwise fun o o' => o.stop ≤ o'.start := by
    refine List.pairwise_append.2 ⟨h.pairwise, List.pairwise_singleton _ _, ?_⟩
    intro o ho o' ho'
    cases List.mem_singleton.1 ho'
    exact (h.rule o ho).2.1
  exact horder.imp fun hle => ⟨hle, Position.behind_take_le text hle⟩

theorem pointsAt (h : Tiling text 0 os) {o : Occurrence} (ho : o ∈ os ++ [atEnd text]) :
    o.start ≤ o.stop ∧ o.stop ≤ text.length ∧ PointsAt text os o (o.diagnostic text).kind := by
  rcases List.mem_append.1 ho with ho | ho
  · obtain ⟨hlt, hle, hrule⟩ := h.rule o ho
    refine ⟨Nat.le_of_lt hlt, hle, ?_⟩
    cases hsymbol : o.symbol? with
    | none =>
        have hkind : (o.diagnostic text).kind = .tokenize := by
          simp only [diagnostic, hsymbol]
          rfl
        rw [hkind]
        exact .unclassified ho hsymbol
    | some s =>
        -- No lexeme stands for the end marker.
        rw [hsymbol] at hrule
        have hanswer : o.answer text = .ok (some ⟨s, some (o.span text)⟩) := by
          simp only [answer, hsymbol]
        rw [diagnostic_of_token hanswer hrule.isInput.2]
        exact .token ho hsymbol
  · cases List.mem_singleton.1 ho
    exact ⟨Nat.le_refl _, Nat.le_refl _, .atEnd⟩

end Occurrence.Tiling

/-- Diagnostics point at whole lexemes, or at the end of the text; they come in the order of the
text and do not overlap. -/
theorem diagnostics_point_at_lexemes (text : String) (mode : ErrorMode) :
    ∃ os read next behind, Occurrence.Tiling text.toList 0 os ∧
      os ++ [Occurrence.atEnd text.toList] = read ++ next :: behind ∧
      scanned text = (os ++ [Occurrence.atEnd text.toList]).map (Occurrence.answer text.toList) ∧
      read.map (Occurrence.answer text.toList) =
        tokenAnswers ((report text mode).verdicts.map Prod.fst) ∧
      Closes mode (next.answer text.toList) (report text mode).outcome ∧
      (report text mode).diagnostics =
        ((report text mode).rejected read next).map (Occurrence.diagnostic text.toList) ∧
      (∀ o ∈ (report text mode).rejected read next,
        o.start ≤ o.stop ∧ o.stop ≤ text.toList.length ∧
        (o.diagnostic text.toList).span = some (o.span text.toList) ∧
        PointsAt text.toList os o (o.diagnostic text.toList).kind) ∧
      ((report text mode).rejected read next).Pairwise fun o o' =>
        o.stop ≤ o'.start ∧ (o.span text.toList).stop ≤ (o'.span text.toList).start := by
  obtain ⟨os, htiling, hdrain⟩ := (Scanner.behind_ofList text.toList).exists_tiling
  have hscanned : scanned text = (os ++ [Occurrence.atEnd text.toList]).map (Occurrence.answer text.toList) :=
    (congrArg (List.map Draw.answer) hdrain).trans (Occurrence.map_answer_draws _ _ _)
  obtain ⟨taken, answer, rest, hhalts⟩ := exists_haltsOn text mode
  -- The answers are cut where the run ends, and the lexemes with them.
  have hcut := (hscanned.symm.trans (congrArg (List.map Draw.answer) hhalts.drain)).trans
    List.map_append
  obtain ⟨read, left, hos, hread, hleft⟩ := List.map_eq_append_iff.1 hcut
  obtain ⟨next, behind, rfl, hnext, -⟩ := List.map_eq_cons_iff.1 hleft
  have hanswers := hread.trans hhalts.answers
  have hcloses : Closes mode (next.answer text.toList) (report text mode).outcome :=
    hnext ▸ hhalts.closes
  have hlength : read.length = (report text mode).verdicts.length := by
    simpa [tokenAnswers] using congrArg List.length hanswers
  have hwithin : ((report text mode).rejected read next).Sublist (os ++ [Occurrence.atEnd text.toList]) := by
    rw [hos]
    exact (rejected_sublist next hlength).trans
      ((List.sublist_append_left [next] behind).append_left read)
  refine ⟨os, read, next, behind, htiling, hos, hscanned, hanswers, hcloses, ?_, ?_, ?_⟩
  · rw [diagnostics_report, Report.rejected, List.map_append,
      map_diagnostic_discarded hanswers hhalts.isEnd_of_mem_verdicts, map_diagnostic_last hcloses,
      Analysis.discarded_eq]
  · intro o ho
    obtain ⟨hle, hstop, hpoints⟩ := htiling.pointsAt (hwithin.subset ho)
    exact ⟨hle, hstop, o.span_diagnostic text.toList, hpoints⟩
  · exact htiling.pairwise_atEnd.sublist hwithin

/-- A bracket that is discarded on the first line, and what cannot be classified on the second. -/
example : (report "a )\n#" .resync).diagnostics =
    [.unexpected ")" (some ⟨⟨0, 2⟩, ⟨0, 3⟩⟩), .tokenize "#" (some ⟨⟨1, 0⟩, ⟨1, 1⟩⟩)] := by
  decide +kernel

end Arithmetic
end ShiftReduce
