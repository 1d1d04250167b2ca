import ShiftReduce.Proofs.Arithmetic.OnDemand
import ShiftReduce.Proofs.Arithmetic.Work
import ShiftReduce.Proofs.Machine.Chronicle

/-!
# Derivation — the journal of a session tells what it has built and what it complains about

The table reduces an operand when its right end is reached, and an operation when both of its operands
have been reduced.  So the reductions of a run that has built a tree are the nodes of the tree, those of
the left operand first, then those of the right operand, then the operation itself; read backwards this
is the rightmost derivation of the tree.  The warnings are the diagnostics, line by line.

* `Expr.productions`, `Symbol.productions_of_build?`: the nodes of a tree in this order.
* `tracing`: they are what the symbols of a run carry.
* `Report.remarks`: the lines of one level in the journal of a report.
* `journal_tells_derivation`: the journal of every session.
-/

namespace ShiftReduce
namespace Arithmetic

/-! ## Trees -/

/-- The productions of the nodes of a tree, those of its operands from left to right before that of the
node. -/
def Expr.productions : Expr → List Production
  | .atomic (.number _) => [.number]
  | .atomic (.var _) => [.var]
  | .binary left _ right => left.productions ++ right.productions ++ [.binary]
  | .bracketed inner => inner.productions ++ [.bracketed]

namespace Symbol

def productions : Symbol → List Production
  | .expression e => e.productions
  | .root e => e.productions ++ [.root]
  | _ => []

theorem productions_of_build? {p : Production} {rhs : List Symbol} {s : Symbol}
    (h : p.build? rhs = some s) : s.productions = rhs.flatMap productions ++ [p] := by
  unfold Production.build? at h
  split at h <;> cases h <;> simp [productions, Expr.productions]

end Symbol

def tracing : grammar.Tracing where
  trace := Symbol.productions
  trace_shifted state s target hterminal _ := by
    cases s with
    | expression e | root e => cases hterminal
    | _ => rfl
  trace_product p rhs c s h := Symbol.productions_of_build? (build?_of_product h)

/-! ## Remarks -/

/-- What a reduction came to is remarked on at the lowest level only. -/
theorem quiet_grammar : grammar.Quiet := by
  intro p rhs c n hn
  simp only [grammar, Production.reduce] at hn
  split at hn
  · rw [List.mem_singleton.1 hn]
  · cases hn

theorem Scanner.level_of_scan (s : Scanner) : ∀ n ∈ s.scan.notes, n.level = .trace := by
  intro n hn
  unfold scan at hn
  dsimp only at hn
  split at hn
  · rw [List.mem_singleton.1 hn]
  · split at hn
    · cases hn
    · rw [List.mem_singleton.1 hn]

instance : QuietSource Scanner where
  level_of_peek s n hn := by
    change n ∈ s.peek.notes at hn
    unfold Scanner.peek at hn
    split at hn
    · cases hn
    · exact s.level_of_scan n hn
  level_of_consume s n hn := by
    change n ∈ s.consume.notes at hn
    unfold Scanner.consume at hn
    split at hn
    · cases hn
    · exact s.level_of_scan n hn

/-- The lines of one level in the journal of a report, without the name of the level. -/
def Report.remarks (A : Report) (l : Level) : List String :=
  (A.notes.filter fun n => n.level = l).map fun n => n.text ()

section

variable {text : String} {mode : ErrorMode}

/-- A session adds a verdict to the journal of its run. -/
theorem remarks_report (text : String) (mode : ErrorMode) (l : Level) :
    (report text mode).remarks l =
      (Automaton.firstReport (Scanner.ofString text) mode).remarks l ++
        if l = .debug then [(report text mode).verdict.text ()] else [] := by
  have hevents : (report text mode).events =
      (Automaton.firstReport (Scanner.ofString text) mode).events ++
        [.noted (report text mode).verdict] := rfl
  have hremarks : ∀ A : Report, A.remarks l = Event.remarks grammar l A.events := fun _ => rfl
  rw [hremarks, hevents, Event.remarks_append]
  cases l <;> rfl

/-- Where a tree was built, its nodes were reduced one by one, and at last the root. -/
theorem remarks_debug_of_success {s : Symbol}
    (h : (report text mode).outcome = .accepted s ∨ (report text mode).outcome = .recovered s) :
    ∃ e : Expr, s = .root e ∧
      (report text mode).remarks .debug =
        (e.productions ++ [Production.root]).map (fun p => "Reduce " ++ p.label) ++
          [(report text mode).verdict.text ()] := by
  have hsuccess :
      ((Automaton.ofSource (Scanner.ofString text)).analyze mode).1.outcome = .accepted s ∨
        ((Automaton.ofSource (Scanner.ofString text)).analyze mode).1.outcome = .recovered s := h
  obtain ⟨e, _, N, N', rfl, hrun, hleads, hhalt, hanalyze⟩ := exists_accept_of_success hsuccess
  have htrace : e.productions ++ [.root] = N'.chronicle.1.reverse :=
    Machine.trace_of_halt tracing hleads hhalt
  have hlines := Machine.remarks_debug_conclude (G := grammar)
    (Machine.calm_of_runWithin quiet_grammar hrun)
  rw [Machine.reductions_conclude, ← htrace] at hlines
  refine ⟨e, rfl, ?_⟩
  rw [remarks_report, Automaton.firstReport, hanalyze]
  exact congrArg (· ++ _) hlines

/-- A warning is about a token that was discarded, or about what stopped the run. -/
theorem remarks_warn_report (text : String) (mode : ErrorMode) :
    ∃ lines, (report text mode).remarks .warn =
        lines ++ (report text mode).fatal?.toList.map (fun d => toString d ++ "; analysis terminated") ∧
      List.Forall₂ (fun t line => ∃ state : State,
          line = toString t.complaint ++ " in state " ++ toString state ++ " was discarded")
        (report text mode).discarded lines := by
  obtain ⟨fuel, r, hrun, hanalyze⟩ := Machine.exists_run_of_analyze shrinking mode
    (Automaton.ofSource (Scanner.ofString text))
  have hfirst : Automaton.firstReport (Scanner.ofString text) mode = (Machine.conclude r).1 :=
    congrArg Prod.fst hanalyze
  have hfatal : (report text mode).fatal? = (Machine.conclude r).1.fatal? :=
    congrArg (fun r => r.1.fatal?) hanalyze
  have hlines := Machine.remarks_warn_conclude (G := grammar)
    (Machine.calm_of_runWithin quiet_grammar hrun)
  -- The diagnostics are known in two ways, which differ in how they tell what was discarded.
  have hnoticed := Machine.diagnostics_eq_dismissals (Machine.noticed_of_runWithin hrun)
  have hdiscarded : (Machine.conclude r).1.diagnostics =
      (Machine.conclude r).1.discarded.map Token.complaint ++
        (Machine.conclude r).1.fatal?.toList := by
    rw [← hfirst]
    exact Machine.diagnostics_analyze shrinking mode (Automaton.ofSource (Scanner.ofString text))
  have hcomplaints := List.append_cancel_right (hdiscarded.symm.trans hnoticed)
  refine ⟨(Machine.conclude r).1.dismissals.map fun x =>
    toString x.1 ++ " in state " ++ toString x.2 ++ " was discarded", ?_, ?_⟩
  · rw [remarks_report, hfirst, hfatal, if_neg (by decide), List.append_nil]
    exact hlines
  · rw [discarded_report, hfirst, List.forall₂_map_right_iff]
    rw [← List.forall₂_eq_eq_eq, List.forall₂_map_left_iff, List.forall₂_map_right_iff]
      at hcomplaints
    exact hcomplaints.imp fun t x hx => ⟨x.2, by rw [hx]⟩

/-- The remarks of a session that has built a tree are the rightmost derivation of it, read
backwards; the warnings of any session are its diagnostics, line by line. -/
theorem journal_tells_derivation (text : String) (mode : ErrorMode) :
    (∀ s, (report text mode).outcome = .accepted s ∨ (report text mode).outcome = .recovered s →
      ∃ e : Expr, s = .root e ∧
        (report text mode).remarks .debug =
          (e.productions ++ [Production.root]).map (fun p => "Reduce " ++ p.label) ++
            [(report text mode).verdict.text ()]) ∧
    (report text mode).diagnostics =
      (report text mode).discarded.map Token.complaint ++ (report text mode).fatal?.toList ∧
    ∃ lines, (report text mode).remarks .warn =
        lines ++ (report text mode).fatal?.toList.map (fun d => toString d ++ "; analysis terminated") ∧
      List.Forall₂ (fun t line => ∃ state : State,
          line = toString t.complaint ++ " in state " ++ toString state ++ " was discarded")
        (report text mode).discarded lines :=
  ⟨fun _ => remarks_debug_of_success, diagnostics_report text mode, remarks_warn_report text mode⟩

/-- The witness reads `a*b)`, in which the bracket is discarded. -/
theorem journal_of_product :
    (report "a*b)" .resync).remarks .debug =
        ["Reduce Expression -> variable", "Reduce Expression -> variable",
          "Reduce Expression -> Expression op Expression", "Reduce Axiom -> Expression",
          "recovered 'a*b' after 1 error(s)"] ∧
      ∃ state : State, (report "a*b)" .resync).remarks .warn =
        ["syntax error: unexpected token ')' at 0:3..0:4 in state " ++ toString state ++
          " was discarded"] := by
  have hrecovered : (report "a*b)" .resync).outcome =
      .recovered (.root (.binary (.atomic (.var "a")) .mul (.atomic (.var "b")))) := rfl
  have hdiscarded : (report "a*b)" .resync).discarded =
      [⟨.bracket .closing, some ⟨⟨0, 3⟩, ⟨0, 4⟩⟩⟩] := rfl
  have hverdict : (report "a*b)" .resync).verdict.text () = "recovered 'a*b' after 1 error(s)" := by
    decide +kernel
  obtain ⟨hdebug, -, lines, hwarn, hlines⟩ := journal_tells_derivation "a*b)" .resync
  obtain ⟨e, he, hremarks⟩ := hdebug _ (.inr hrecovered)
  cases he
  rw [hdiscarded] at hlines
  obtain ⟨line, _, ⟨state, rfl⟩, hnone, rfl⟩ := List.forall₂_cons_left_iff.1 hlines
  cases hnone
  rw [hverdict] at hremarks
  exact ⟨hremarks, state, hwarn⟩

end

end Arithmetic
end ShiftReduce
