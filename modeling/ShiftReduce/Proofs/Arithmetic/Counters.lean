import ShiftReduce.Proofs.Arithmetic.Pointing
import ShiftReduce.Proofs.Arithmetic.Work

/-!
# Counters — what the counters of a session say about its tree

When a session has built a tree, its counters tell the shape of the tree and the length of its text.  Each
terminal of the tree was shifted once, and each of its nodes was reduced once, as was the root.  All other
tokens of the text were discarded with a diagnostic each.  The end marker was scanned once, and examined
once more than there was anything to do in front of it.

* `Occurrence.stats_of_last`: the counters of a scanner at the end of a text.
* `counters_of_success`: all counters of a session that has built a tree.
-/

namespace ShiftReduce
namespace Arithmetic

/-! ## The end of a text -/

/-- Behind the end marker a scanner has read the whole text, and it has counted the tokens in front of
the end marker and the end marker. -/
theorem Occurrence.stats_of_last {text : List Char} {n tokens : Nat} {os : List Occurrence}
    {taken rest : List Draw} {next : Draw} {ts : List (Token Symbol)} (htiling : Tiling text n os)
    (hdraws : draws text tokens os = taken ++ next :: rest)
    (hanswers : taken.map Draw.answer = tokenAnswers ts) (hlast : next.isLast = true) :
    next.stats = ⟨text.length, tokens + ts.length + 1⟩ := by
  induction htiling generalizing tokens taken ts with
  | done =>
      cases taken with
      | nil =>
          obtain rfl : ts = [] := List.map_eq_nil_iff.1 hanswers.symm
          rw [← (List.cons.inj hdraws).1]
          rfl
      | cons d taken => simp [draws] at hdraws
  | @lexeme _ o os _ _ _ _ hrule _ ih =>
      cases taken with
      | nil =>
          -- The answer on a lexeme is no end marker.
          rw [← (List.cons.inj hdraws).1, isLast_answer _ hrule] at hlast
          cases hlast
      | cons d taken =>
          cases ts with
          | nil => cases hanswers
          | cons t ts =>
              obtain ⟨hfirst, hrest⟩ := List.cons.inj hdraws
              obtain ⟨ht, hts⟩ := List.cons.inj hanswers
              rw [← hfirst] at ht
              have hstats := ih hrest hts
              rw [(eq_of_answer ht).1] at hstats
              rw [hstats, List.length_cons, Option.isSome_some, Bool.toNat_true]
              congr 1
              omega

/-- A run that has built a tree ends in front of the end marker. -/
theorem Closes.isLast {mode : ErrorMode} {d : Draw} {outcome : Outcome Symbol} {s : Symbol}
    (h : Closes mode d.answer outcome) (hs : outcome = .accepted s ∨ outcome = .recovered s) :
    d.isLast = true := by
  unfold Draw.isLast
  generalize d.answer = answer at h
  cases h with
  | accepted _ hend | recovered _ hend => exact hend
  | unexpectedEnd | unexpected | unclassified => rcases hs with hs | hs <;> cases hs

/-! ## Reports on texts -/

section

variable {text : String} {mode : ErrorMode} {s : Symbol}

theorem books_report (text : String) (mode : ErrorMode) :
    (report text mode).discarded.length = (report text mode).stats.discarded ∧
      (report text mode).verdicts.length =
        (report text mode).stats.shifts + (report text mode).stats.discarded := by
  obtain ⟨fuel, r, hrun, hanalyze⟩ := Machine.exists_run_of_analyze shrinking mode
    (Automaton.ofSource (Scanner.ofString text))
  have hbooks : r.2.Books grammar := Machine.books_of_runWithin hrun
  have hfirst : Automaton.firstReport (Scanner.ofString text) mode = (Machine.conclude r).1 :=
    congrArg Prod.fst hanalyze
  have hstats : (report text mode).stats = (Machine.conclude r).1.stats :=
    congrArg (fun r => r.1.stats) hanalyze
  rw [discarded_report, verdicts_report, hfirst, hstats]
  exact ⟨hbooks.length_discarded, hbooks.length_verdicts⟩

/-- An analysis leaves the counters that it reports. -/
theorem runStats_analyze (text : String) (mode : ErrorMode) :
    (Session.ofString text mode).analyze.2.runStats = (report text mode).stats := by
  obtain ⟨_, ⟨_ | _, N⟩, _, hanalyze⟩ := Machine.exists_run_of_analyze shrinking mode
    (Automaton.ofSource (Scanner.ofString text))
  · exact (congrArg (fun r => r.2.stats) hanalyze).trans
      (congrArg (fun r => r.1.stats) hanalyze).symm
  · exact (congrArg (fun r => r.2.stats) hanalyze).trans
      (congrArg (fun r => r.1.stats) hanalyze).symm

/-- The counters of the machine at the end of a run that has built a tree. -/
theorem runStats_of_success
    (h : (report text mode).outcome = .accepted s ∨ (report text mode).outcome = .recovered s) :
    ∃ e : Expr, s = .root e ∧ (report text mode).stats.shifts = e.symbols.length ∧
      (report text mode).stats.reductions = e.size + 1 ∧
      (report text mode).stats.gotos = (report text mode).stats.reductions ∧
      (report text mode).stats.tokens = (report text mode).stats.shifts +
        (report text mode).stats.reductions + (report text mode).stats.discarded + 1 := by
  have hsuccess :
      ((Automaton.ofSource (Scanner.ofString text)).analyze mode).1.outcome = .accepted s ∨
        ((Automaton.ofSource (Scanner.ofString text)).analyze mode).1.outcome = .recovered s := h
  obtain ⟨e, _, N, N', rfl, _, hleads, hhalt, hanalyze⟩ := exists_accept_of_success hsuccess
  have hstats : (report text mode).stats = N'.stats := by
    have hconclude := congrArg (fun r => r.1.stats) hanalyze
    exact hconclude.trans (Machine.stats_conclude _)
  -- What the run ends with is worth everything that was shifted and reduced.
  have hshifts := Machine.cost_of_halt terminalCosting hleads hhalt
  have hreductions := Machine.cost_of_halt nodeCosting hleads hhalt
  have hgotos := Machine.gotos_of_halt hleads.balanced hhalt
  rw [hstats]
  refine ⟨e, rfl, ?_, ?_, hgotos.2 (typed_of_leads hleads).not_stranded,
    Machine.tokens_of_success hleads.balanced hhalt⟩
  · simpa [terminalCosting, Symbol.terminals] using hshifts.symm
  · simpa [nodeCosting, Symbol.nodes] using hreductions.symm

/-- Where a tree was built, there is a diagnostic for each token that was discarded and no other. -/
theorem discarded_of_success
    (h : (report text mode).outcome = .accepted s ∨ (report text mode).outcome = .recovered s) :
    (report text mode).stats.discarded = (report text mode).diagnostics.length := by
  have hfatal : (report text mode).fatal? = none := by
    rw [Analysis.fatal?]
    rcases h with h | h <;> rw [h]
  rw [diagnostics_report, hfatal, Option.toList_none, List.append_nil, List.length_map,
    (books_report text mode).1]

/-- Where a tree was built, the whole text has been scanned, and all of its tokens were shifted or
discarded, except for the end marker. -/
theorem scannerStats_of_success
    (h : (report text mode).outcome = .accepted s ∨ (report text mode).outcome = .recovered s) :
    (Session.ofString text mode).analyze.2.scannerStats = ⟨text.toList.length,
      (report text mode).stats.shifts + (report text mode).stats.discarded + 1⟩ := by
  obtain ⟨os, htiling, hdrain⟩ := (Scanner.behind_ofList text.toList).exists_tiling
  obtain ⟨taken, next, rest, hhalts⟩ := exists_haltsOn text mode
  -- The last answer that was scanned is the end marker, so all lexemes are in front of it.
  have hnext := Occurrence.stats_of_last htiling (hdrain.symm.trans hhalts.drain) hhalts.answers
    (hhalts.closes.isLast h)
  rw [List.length_map, (books_report text mode).2, Nat.zero_add] at hnext
  exact hhalts.scannerStats.trans hnext

/-- What the counters of a session that has built a tree come to, in terms of its text, of its
diagnostics and of the nodes of the tree. -/
theorem counters_of_success
    (h : (report text mode).outcome = .accepted s ∨ (report text mode).outcome = .recovered s) :
    ∃ e : Expr, s = .root e ∧
      (report text mode).stats.shifts = e.atoms + e.binaries + 2 * e.brackets ∧
      (report text mode).stats.reductions = e.atoms + e.binaries + e.brackets + 1 ∧
      (report text mode).stats.gotos = e.atoms + e.binaries + e.brackets + 1 ∧
      (report text mode).stats.discarded = (report text mode).diagnostics.length ∧
      (report text mode).stats.tokens = (report text mode).stats.shifts +
        (report text mode).stats.reductions + (report text mode).stats.discarded + 1 ∧
      (Session.ofString text mode).analyze.2.runStats = (report text mode).stats ∧
      (Session.ofString text mode).analyze.2.scannerStats.tokens =
        (report text mode).stats.shifts + (report text mode).stats.discarded + 1 ∧
      (Session.ofString text mode).analyze.2.scannerStats.chars = text.length := by
  obtain ⟨e, rfl, hshifts, hreductions, hgotos, htokens⟩ := runStats_of_success h
  have hscanner := scannerStats_of_success h
  rw [e.length_symbols_eq_nodes] at hshifts
  rw [e.size_eq_nodes] at hreductions
  refine ⟨e, rfl, hshifts, hreductions, hgotos.trans hreductions, discarded_of_success h, htokens,
    runStats_analyze text mode, ?_, ?_⟩
  · rw [hscanner]
  · rw [hscanner, String.length_toList]

/-- The witness reads `(a+*c)/b )`, of which the `*` and the last bracket are discarded. -/
theorem counters_of_quotient : ∃ e : Expr,
    (report "(a+*c)/b )" .resync).outcome = .recovered (.root e) ∧
    e.atoms = 3 ∧ e.binaries = 2 ∧ e.brackets = 1 ∧
    (report "(a+*c)/b )" .resync).stats.shifts = 7 ∧
    (report "(a+*c)/b )" .resync).stats.reductions = 7 ∧
    (report "(a+*c)/b )" .resync).stats.discarded =
      (report "(a+*c)/b )" .resync).diagnostics.length ∧
    (Session.ofString "(a+*c)/b )" .resync).analyze.2.scannerStats.chars = 10 := by
  have hrecovered : (report "(a+*c)/b )" .resync).outcome = .recovered (.root
      (.binary (.bracketed (.binary (.atomic (.var "a")) .add (.atomic (.var "c")))) .div
        (.atomic (.var "b")))) := rfl
  obtain ⟨e, he, hshifts, hreductions, -, hdiscarded, -, -, -, hchars⟩ :=
    counters_of_success (.inr hrecovered)
  cases he
  exact ⟨_, hrecovered, rfl, rfl, rfl, hshifts, hreductions, hdiscarded, hchars⟩

end

end Arithmetic
end ShiftReduce
