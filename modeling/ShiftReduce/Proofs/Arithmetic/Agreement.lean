import ShiftReduce.Proofs.Arithmetic.Consistency
import ShiftReduce.Proofs.Machine.Modes
import ShiftReduce.Proofs.Machine.Shape

/-!
# Agreement — tree, value and report of a text

A text can be read for its tree, for its value or for a report.  The three agree: there is a tree where
the report accepts, a value where the tree has one, and in every other case the failure says what the
report says.

* `report_cases`: the three ways in which a report ends.
* `Evaluates`, `evaluates`: the ways in which the reading for a value ends, and that there are no more.
* `tree?_report`, `diagnostics_abort`: what the two modes have in common.
* `readings_agree`: all of it together.
-/

namespace ShiftReduce
namespace Arithmetic

/-! ## Reports -/

/-- A report accepts a tree without a diagnostic, or has recovered one after some, or it fails. -/
theorem report_cases (text : String) (mode : ErrorMode) :
    (∃ e, (report text mode).outcome = .accepted (.root e) ∧ (report text mode).diagnostics = []) ∨
      (∃ e, (report text mode).outcome = .recovered (.root e) ∧
        (report text mode).diagnostics ≠ []) ∨
      ∃ d, (report text mode).outcome = .failed d ∧ (report text mode).diagnostics ≠ [] := by
  let M := Automaton.ofSource (Scanner.ofString text)
  obtain ⟨fuel, r, -, hanalyze⟩ := Machine.exists_run_of_analyze shrinking mode M
  have houtcome : (report text mode).outcome = (M.analyze mode).1.outcome := rfl
  have hdiagnostics : (report text mode).diagnostics = (Machine.conclude r).1.diagnostics :=
    congrArg (fun r => r.1.diagnostics) hanalyze
  have hconclude : (report text mode).outcome = (Machine.conclude r).1.outcome :=
    congrArg (fun r => r.1.outcome) hanalyze
  rw [hdiagnostics]
  cases hends : (report text mode).outcome with
  | accepted s =>
      obtain ⟨e, rfl⟩ := root_of_success (.inl (houtcome.symm.trans hends))
      exact .inl ⟨e, rfl, Machine.diagnostics_of_accepted (hconclude.symm.trans hends)⟩
  | recovered s =>
      obtain ⟨e, rfl⟩ := root_of_success (.inr (houtcome.symm.trans hends))
      obtain ⟨hsome, hall⟩ := Machine.diagnostics_of_recovered (hconclude.symm.trans hends)
      exact .inr (.inl ⟨e, rfl, by simpa [hall] using hsome⟩)
  | failed d =>
      refine .inr (.inr ⟨d, rfl, ?_⟩)
      rw [Machine.diagnostics_of_failed (hconclude.symm.trans hends)]
      exact List.append_ne_nil_of_right_ne_nil _ (List.cons_ne_nil _ _)

/-! ## Trees -/

section

variable {text : String} {e : Expr} {d : Diagnostic}

theorem parse_of_accepted (h : (report text .resync).outcome = .accepted (.root e)) :
    parse text = some e :=
  parse_eq_some_iff_accepted.2 h

theorem parse_of_not_accepted (h : ∀ e, (report text .resync).outcome ≠ .accepted (.root e)) :
    parse text = none := by
  rw [Option.eq_none_iff_forall_ne_some]
  exact fun e hparse => h e (parse_eq_some_iff_accepted.1 hparse)

theorem isSome_parse (text : String) : (parse text).isSome = (report text .resync).isAccepted := by
  rcases report_cases text .resync with ⟨e, h, -⟩ | ⟨e, h, -⟩ | ⟨d, h, -⟩
  · rw [parse_of_accepted h, Analysis.isAccepted, h]
    rfl
  · rw [parse_of_not_accepted (by simp [h]), Analysis.isAccepted, h]
    rfl
  · rw [parse_of_not_accepted (by simp [h]), Analysis.isAccepted, h]
    rfl

/-- What raises a diagnostic has no tree. -/
theorem parse_of_diagnostics (h : (report text .resync).diagnostics ≠ []) : parse text = none := by
  rcases report_cases text .resync with ⟨e, -, hnone⟩ | ⟨e, houtcome, -⟩ | ⟨d, houtcome, -⟩
  · exact absurd hnone h
  · exact parse_of_not_accepted (by simp [houtcome])
  · exact parse_of_not_accepted (by simp [houtcome])

/-! ## Modes -/

/-- Both modes read the same tree. -/
theorem tree?_report (text : String) (mode : ErrorMode) : (report text mode).tree? = parse text := by
  cases mode with
  | resync => rfl
  | abort =>
      rcases Machine.analyze_abort_cases shrinking (Automaton.ofSource (Scanner.ofString text)) with
        ⟨-, hsame⟩ | ⟨t, hcut⟩
      · have houtcome : (report text .abort).outcome = (report text .resync).outcome :=
          congrArg (fun r => r.1.outcome) hsame
        rw [parse, Report.tree?, Report.tree?, Analysis.result?, Analysis.result?, houtcome]
      · -- A token that is discarded leaves a diagnostic.
        have houtcome : (report text .abort).outcome = .failed t.complaint := hcut.outcome
        have hfirst : (report text .resync).diagnostics.head? = some t.complaint :=
          hcut.first_diagnostic
        have hsome : (report text .resync).diagnostics ≠ [] := by
          intro hnone
          rw [hnone] at hfirst
          cases hfirst
        rw [parse_of_diagnostics hsome, Report.tree?, Analysis.result?, houtcome]
        rfl

/-- A run that aborts reports the first diagnostic of one that does not. -/
theorem diagnostics_abort (text : String) :
    (report text .abort).diagnostics = (report text .resync).diagnostics.take 1 :=
  Machine.diagnostics_abort shrinking (Automaton.ofSource (Scanner.ofString text))

/-! ## Values -/

/-- How the reading of a text for its value ends. -/
inductive Evaluates (text : String) (E : Environment) : Except Failure Float → Prop
  | failed {d : Diagnostic} (h : (report text .resync).outcome = .failed d) :
      Evaluates text E (.error (.parse d))
  | recovered {s : Symbol} (h : (report text .resync).outcome = .recovered s) :
      Evaluates text E (.error (.invalidExpression (report text .resync).diagnostics))
  | value {e : Expr} {v : Float} (h : parse text = some e) (hvalue : e.eval E = .ok v) :
      Evaluates text E (.ok v)
  | noValue {e : Expr} {err : EvalError} (h : parse text = some e)
      (hvalue : e.eval E = .error err) : Evaluates text E (.error (.eval err))

theorem evaluate_of_failed (h : (report text .resync).outcome = .failed d) (E : Environment) :
    evaluate text E = .error (.parse d) := by
  simp only [evaluate, h]

theorem evaluate_of_recovered {s : Symbol} (h : (report text .resync).outcome = .recovered s)
    (E : Environment) :
    evaluate text E = .error (.invalidExpression (report text .resync).diagnostics) := by
  simp only [evaluate, h]

theorem evaluates (text : String) (E : Environment) : Evaluates text E (evaluate text E) := by
  rcases report_cases text .resync with ⟨e, h, -⟩ | ⟨e, h, -⟩ | ⟨d, h, -⟩
  · have hparse := parse_of_accepted h
    rw [evaluate_of_parse hparse]
    cases hvalue : e.eval E with
    | ok v => exact .value hparse hvalue
    | error err => exact .noValue hparse hvalue
  · rw [evaluate_of_recovered h]
    exact .recovered h
  · rw [evaluate_of_failed h]
    exact .failed h

theorem evaluates_of_eq {result : Except Failure Float} {E : Environment}
    (h : evaluate text E = result) : Evaluates text E result :=
  h ▸ evaluates text E

theorem evaluate_eq_parse_iff (E : Environment) :
    evaluate text E = .error (.parse d) ↔ (report text .resync).outcome = .failed d := by
  refine ⟨fun heval => ?_, fun h => evaluate_of_failed h E⟩
  cases evaluates_of_eq heval with
  | failed h => exact h

theorem evaluate_eq_invalidExpression_iff {ds : List Diagnostic} (E : Environment) :
    evaluate text E = .error (.invalidExpression ds) ↔
      (∃ s, (report text .resync).outcome = .recovered s) ∧
        ds = (report text .resync).diagnostics := by
  constructor
  · intro heval
    cases evaluates_of_eq heval with
    | recovered h => exact ⟨⟨_, h⟩, rfl⟩
  · rintro ⟨⟨s, h⟩, rfl⟩
    exact evaluate_of_recovered h E

theorem evaluate_eq_ok_iff {v : Float} (E : Environment) :
    evaluate text E = .ok v ↔ ∃ e, parse text = some e ∧ e.eval E = .ok v := by
  constructor
  · intro heval
    cases evaluates_of_eq heval with
    | value h hvalue => exact ⟨_, h, hvalue⟩
  · rintro ⟨e, h, hvalue⟩
    rw [evaluate_of_parse h, hvalue]
    rfl

theorem evaluate_eq_eval_iff {err : EvalError} (E : Environment) :
    evaluate text E = .error (.eval err) ↔ ∃ e, parse text = some e ∧ e.eval E = .error err := by
  constructor
  · intro heval
    cases evaluates_of_eq heval with
    | noValue h hvalue => exact ⟨_, h, hvalue⟩
  · rintro ⟨e, h, hvalue⟩
    rw [evaluate_of_parse h, hvalue]
    rfl

end

/-- Value, tree and report of a text agree: what the report stops at or complains of is why there is
no value, and in every other case the tree decides. -/
theorem readings_agree (text : String) (E : Environment) :
    (∀ d, evaluate text E = .error (.parse d) ↔ (report text .resync).outcome = .failed d) ∧
    (∀ ds, evaluate text E = .error (.invalidExpression ds) ↔
      (∃ s, (report text .resync).outcome = .recovered s) ∧
        ds = (report text .resync).diagnostics) ∧
    (∀ s, (report text .resync).outcome = .recovered s → (report text .resync).diagnostics ≠ []) ∧
    (∀ v, evaluate text E = .ok v ↔ ∃ e, parse text = some e ∧ e.eval E = .ok v) ∧
    (∀ err, evaluate text E = .error (.eval err) ↔
      ∃ e, parse text = some e ∧ e.eval E = .error err) ∧
    ((parse text).isSome = (report text .resync).isAccepted) ∧
    ((report text .resync).diagnostics ≠ [] → parse text = none ∧ ∀ v, evaluate text E ≠ .ok v) := by
  refine ⟨fun d => evaluate_eq_parse_iff E, fun ds => evaluate_eq_invalidExpression_iff E, ?_,
    fun v => evaluate_eq_ok_iff E, fun err => evaluate_eq_eval_iff E, isSome_parse text, ?_⟩
  · intro s hs
    rcases report_cases text .resync with ⟨e, h, -⟩ | ⟨e, h, hsome⟩ | ⟨d, h, hsome⟩
    · cases h.symm.trans hs
    · exact hsome
    · exact hsome
  · intro hsome
    have hparse := parse_of_diagnostics hsome
    refine ⟨hparse, fun v hv => ?_⟩
    obtain ⟨e, htree, -⟩ := (evaluate_eq_ok_iff E).1 hv
    cases hparse.symm.trans htree

/-- The witness reads `a )`: without the bracket there would be a value, but there is none. -/
theorem recovered_has_no_value :
    (report "a )" .resync).diagnostics ≠ [] ∧
      (parse "a )" = none ∧ ∀ v, evaluate "a )" (.ofList [("a", 1)]) ≠ .ok v) ∧
      evaluate "a )" (.ofList [("a", 1)]) =
        .error (.invalidExpression [.unexpected ")" (some ⟨⟨0, 2⟩, ⟨0, 3⟩⟩)]) := by
  have hdiagnostics : (report "a )" .resync).diagnostics =
      [.unexpected ")" (some ⟨⟨0, 2⟩, ⟨0, 3⟩⟩)] := by decide +kernel
  have hsome : (report "a )" .resync).diagnostics ≠ [] := by simp [hdiagnostics]
  have hagree := readings_agree "a )" (.ofList [("a", 1)])
  refine ⟨hsome, hagree.2.2.2.2.2.2 hsome, ?_⟩
  exact (hagree.2.1 _).2 ⟨⟨_, rfl⟩, hdiagnostics.symm⟩

end Arithmetic
end ShiftReduce
