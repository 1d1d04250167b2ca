import ShiftReduce.Proofs.Arithmetic.Canonical
import ShiftReduce.Proofs.Arithmetic.OnDemand
import ShiftReduce.Proofs.Arithmetic.Valuation
import ShiftReduce.Proofs.Text.Lines

/-!
# Remarks — what is said about a text

A diagnostic is about a token or a lexeme of the text, or about its end.  Neither these nor a tree or the
names in it have a newline in their texts, since blanks separate lexemes; so everything that is said
about a text fits on a line.

* `diagnostic_cases`: what the diagnostics of a report are about.
* `oneLine_diagnostics`, `oneLine_tree`, `oneLine_evalError`: that they fit on a line.
-/

namespace ShiftReduce
namespace Arithmetic

open TokenSource

/-! ## What diagnostics are about -/

/-- What a scanner answers with: its lexemes and the end marker. -/
theorem Occurrence.mem_draws {text : List Char} {tokens : Nat} {os : List Occurrence}
    {a : Answer Symbol} (h : a ∈ (draws text tokens os).map Draw.answer) :
    (∃ o ∈ os, a = o.answer text) ∨ ∃ span, a = .ok (some ⟨.endMark, span⟩) := by
  induction os generalizing tokens with
  | nil => exact .inr ⟨_, List.mem_singleton.1 h⟩
  | cons o os ih =>
      rw [draws, List.map_cons] at h
      rcases List.mem_cons.1 h with rfl | h
      · exact .inl ⟨o, List.mem_cons_self, rfl⟩
      · rcases ih h with ⟨o', ho', heq⟩ | hend
        · exact .inl ⟨o', List.mem_cons_of_mem o ho', heq⟩
        · exact .inr hend

theorem mem_scanned {text : String} {a : Answer Symbol} (h : a ∈ scanned text) :
    (∃ o : Occurrence, Lexeme.Rule (text.toList.drop o.stop) (o.characters text.toList) o.symbol? ∧
      a = o.answer text.toList) ∨ ∃ span, a = .ok (some ⟨.endMark, span⟩) := by
  obtain ⟨os, htiling, hscanned⟩ := exists_tiling_scanned text
  rw [hscanned] at h
  rcases Occurrence.mem_draws h with ⟨o, ho, heq⟩ | hend
  · exact .inl ⟨o, (htiling.rule o ho).2.2, heq⟩
  · exact .inr hend

theorem mem_of_mem_discards {D : Draft} {ts : List (Token Symbol)} {t : Token Symbol}
    (h : t ∈ discards (D.verdicts ts)) : t ∈ ts := by
  obtain ⟨v, hv, rfl⟩ := List.mem_map.1 h
  have hfst := List.mem_map_of_mem (f := Prod.fst) (List.mem_filter.1 hv).1
  rwa [Draft.verdicts_fst] at hfst

/-- A diagnostic complains about a token of the text, or it is an answer of the scanner, or it is about
the end. -/
theorem diagnostic_cases {text : String} {d : Diagnostic}
    (h : d ∈ (report text .resync).diagnostics) :
    (∃ t, .ok (some t) ∈ scanned text ∧ d = t.complaint) ∨ .error d ∈ scanned text ∨
      ∃ span, d = .unexpectedEnd span := by
  rcases scanned_cases text with ⟨front, last, hscanned, hend⟩ | ⟨front, e, rest, hscanned⟩
  · -- All lexemes are tokens: the tokens that are dropped, and perhaps the end.
    rw [tokenAnswers, List.map_append] at hscanned
    obtain ⟨hdelivers, hfront⟩ := Scanner.delivers_of_drain (s := .ofString text) rfl hscanned
    obtain ⟨symbol, span⟩ := last
    cases symbol with
    | endMark =>
        have hdiagnostics : (report text .resync).diagnostics = _ :=
          (analyze_resync hfront hdelivers).2.1
        rw [hdiagnostics, List.mem_append, List.mem_map] at h
        rcases h with ⟨t, ht, rfl⟩ | hlast
        · refine .inl ⟨t, ?_, rfl⟩
          rw [hscanned]
          exact List.mem_append_left _ (List.mem_map_of_mem (mem_of_mem_discards ht))
        · rw [Draft.endDiagnostics] at hlast
          split at hlast
          · cases hlast
          · exact .inr (.inr ⟨span, List.mem_singleton.1 hlast⟩)
    | _ => cases hend
  · -- The first lexeme that is none: the tokens that are dropped in front of it, and this.
    obtain ⟨hdelivers, hfront⟩ := Scanner.delivers_of_drain (s := .ofString text) rfl hscanned
    have hdiagnostics : (report text .resync).diagnostics = _ :=
      (analyze_of_error hfront hdelivers).2.1
    rw [hdiagnostics, List.mem_append, List.mem_map, List.mem_singleton] at h
    rw [hscanned]
    rcases h with ⟨t, ht, rfl⟩ | rfl
    · exact .inl ⟨t, List.mem_append_left _ (List.mem_map_of_mem (mem_of_mem_discards ht)), rfl⟩
    · exact .inr (.inl (List.mem_append_right _ List.mem_cons_self))

/-! ## Texts without a newline -/

theorem oneLine_of_run {text : String} {c : Char} {run : List Char} (htext : text.toList = c :: run)
    (hc : c.isAlphanum = true) (hrun : ∀ x ∈ run, isRunChar x = true) : OneLine text := by
  rw [OneLine, htext]
  intro hmem
  rcases List.mem_cons.1 hmem with rfl | hmem
  · exact absurd hc (by decide)
  · exact absurd (hrun _ hmem) (by decide)

theorem Lexeme.Classified.oneLine_text {lexeme : List Char} {s : Symbol} (h : Classified lexeme s) :
    OneLine s.text := by
  have hreadable := fun a => h.readable (a := a)
  cases h with
  | name | numeral =>
      obtain ⟨c, run, htext, hc, hrun, -⟩ := Atom.exists_run (hreadable _ rfl)
      exact oneLine_of_run htext hc hrun
  | bracket b => cases b <;> decide
  | operator op => cases op <;> decide

namespace Lexeme.Rule

variable {lexeme rest : List Char}

theorem oneLine_text {s : Symbol} (h : Rule rest lexeme (some s)) : OneLine s.text := by
  cases h with
  | name hc hrun => exact (Classified.name hc hrun).oneLine_text
  | numeral hc hrun _ hread => exact (Classified.numeral hc hrun hread).oneLine_text
  | bracket b => exact (Classified.bracket b).oneLine_text
  | operator op => exact (Classified.operator op).oneLine_text

theorem oneLine_lexeme (h : Rule rest lexeme none) : OneLine (.ofList lexeme) := by
  cases h with
  | malformed hc hrun => exact oneLine_of_run String.toList_ofList (by simp [Char.isAlphanum, hc]) hrun
  | unknown hblank =>
      rw [oneLine_ofList, List.mem_singleton]
      rintro rfl
      exact absurd hblank (by decide)

end Lexeme.Rule

variable {text : String}

theorem oneLine_of_token {t : Token Symbol} (h : .ok (some t) ∈ scanned text) :
    OneLine t.symbol.text := by
  rcases mem_scanned h with ⟨o, hrule, hanswer⟩ | ⟨span, hanswer⟩
  · rw [Occurrence.answer] at hanswer
    cases hsymbol : o.symbol? with
    | none => rw [hsymbol] at hanswer; cases hanswer
    | some s =>
        rw [hsymbol] at hanswer hrule
        cases hanswer
        exact hrule.oneLine_text
  · cases hanswer
    exact (by decide : OneLine "$")

theorem oneLine_of_error {d : Diagnostic} (h : .error d ∈ scanned text) : OneLine d.message := by
  rcases mem_scanned h with ⟨o, hrule, hanswer⟩ | ⟨span, hanswer⟩
  · rw [Occurrence.answer] at hanswer
    cases hsymbol : o.symbol? with
    | some s => rw [hsymbol] at hanswer; cases hanswer
    | none =>
        rw [hsymbol] at hanswer hrule
        cases hanswer
        have hmessage : (Diagnostic.tokenize (.ofList (o.characters text.toList))
            (some (o.span text.toList))).message =
          "unrecognized input '" ++ String.ofList (o.characters text.toList) ++ "'" := rfl
        rw [hmessage, oneLine_append, oneLine_append]
        exact ⟨⟨by decide, hrule.oneLine_lexeme⟩, by decide⟩
  · cases hanswer

/-- The diagnostics of a report fit on a line each. -/
theorem oneLine_diagnostics {d : Diagnostic} (h : d ∈ (report text .resync).diagnostics) :
    OneLine (toString d) := by
  refine oneLine_diagnostic ?_
  rcases diagnostic_cases h with ⟨t, ht, rfl⟩ | he | ⟨span, rfl⟩
  · have hmessage : t.complaint.message = "unexpected token '" ++ t.symbol.text ++ "'" := rfl
    rw [hmessage, oneLine_append, oneLine_append]
    exact ⟨⟨by decide, oneLine_of_token ht⟩, by decide⟩
  · exact oneLine_of_error he
  · exact (by decide : OneLine "unexpected end of input")

/-! ## Trees -/

theorem Lexes.oneLine_text {cs : List Char} {ss : List Symbol} (h : Lexes cs ss) :
    ∀ s ∈ ss, OneLine s.text := by
  induction h with
  | done => exact List.forall_mem_nil _
  | lexeme _ hclassify _ ih =>
      exact List.forall_mem_cons.2 ⟨(Lexeme.classified_of_classify hclassify).oneLine_text, ih⟩

/-- A tree that was read fits on a line. -/
theorem oneLine_tree {e : Expr} (h : parse text = some e) : OneLine e.text := by
  have hsymbols := (parse_eq_some_iff.1 h).1.oneLine_text
  rw [OneLine, Expr.text_eq_spelling, Expr.toList_spelling, List.mem_flatMap]
  rintro ⟨s, hs, hmem⟩
  exact hsymbols s hs hmem

/-- What the evaluation of a tree fails with that was read fits on a line. -/
theorem oneLine_evalError {E : Environment} {e : Expr} {err : EvalError} (h : parse text = some e)
    (heval : e.eval E = .error err) : OneLine err.message := by
  obtain ⟨name, rfl, hname⟩ := Expr.exists_unbound heval
  have hmessage : (EvalError.unbound name).message = "unbound variable '" ++ name ++ "'" := rfl
  have htext : OneLine name := (parse_eq_some_iff.1 h).1.oneLine_text _ hname
  rw [hmessage, oneLine_append, oneLine_append]
  exact ⟨⟨by decide, htext⟩, by decide⟩

end Arithmetic
end ShiftReduce
