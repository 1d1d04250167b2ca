import ShiftReduce.Proofs.Arithmetic.Acceptance
import ShiftReduce.Proofs.Arithmetic.Viability

/-!
# Recovery — what a run that resynchronizes keeps

A run that resynchronizes keeps a token whenever what it has kept so far can still become a sentence
with it.

* `sift`: that rule, said of texts alone.
* `recovery_is_greedy`: both modes follow it.
-/

namespace ShiftReduce
namespace Arithmetic

/-- Goes through a text with `before` kept already, and keeps each token with which the kept ones can
still become a sentence. -/
def sift (before : List Symbol) : List (Token Symbol) → List (Token Symbol × Bool)
  | [] => []
  | t :: ts =>
      if Viable (before ++ [t.symbol]) then (t, true) :: sift (before ++ [t.symbol]) ts
      else (t, false) :: sift before ts

namespace Draft

/-! ## Refusals -/

theorem yield_settle (D : Draft) : D.settle.yield = D.yield := by
  cases D with
  | due S => rfl
  | operand S e => exact S.yield_unwind 0 e

theorem place_settle (D : Draft) : D.settle.place = D.place := by
  cases D with
  | due S => rfl
  | operand S e =>
      rw [settle, place, S.depth_unwind]
      rfl

theorem Placed.settle {D : Draft} (hD : D.Placed) : D.settle.Placed := by
  rw [Placed, yield_settle, place_settle]
  exact hD

theorem Placed.step {D : Draft} (hD : D.Placed) (s : Symbol) : (D.step s).Placed := by
  cases hextend : D.extend? s with
  | some D' =>
      rw [Draft.step, hextend, Option.getD_some]
      exact hD.extend hextend
  | none =>
      rw [Draft.step, hextend, Option.getD_none]
      exact hD.settle

theorem Placed.read {D : Draft} (hD : D.Placed) (ts : List (Token Symbol)) :
    (D.read ts).Placed := by
  induction ts generalizing D with
  | nil => exact hD
  | cons t ts ih => exact ih (hD.step t.symbol)

/-- What has been read is what was kept. -/
theorem yield_read (D : Draft) (ts : List (Token Symbol)) :
    (D.read ts).yield = D.yield ++ (survivors (D.verdicts ts)).map Token.symbol := by
  induction ts generalizing D with
  | nil => simp [Draft.read, verdicts, survivors]
  | cons t ts ih =>
      have hrest := ih (D.step t.symbol)
      rw [Draft.read, List.foldl_cons, ← Draft.read, hrest, verdicts]
      cases hextend : D.extend? t.symbol with
      | some D' =>
          rw [Draft.step, hextend, Option.getD_some, yield_extend hextend]
          simp [survivors]
      | none =>
          rw [Draft.step, hextend, Option.getD_none, yield_settle]
          simp [survivors]

theorem Placed.verdicts_eq_sift {D : Draft} (hD : D.Placed) (ts : List (Token Symbol)) :
    D.verdicts ts = sift D.yield ts := by
  -- A refusal regroups the draft but leaves its terminals, and `sift` looks at terminals only.
  induction ts generalizing D with
  | nil => rfl
  | cons t ts ih =>
      rw [verdicts, ih (hD.step t.symbol), sift]
      cases hextend : D.extend? t.symbol with
      | some D' =>
          have hviable : Viable (D.yield ++ [t.symbol]) := by
            rw [← hD.extend_isSome_iff, hextend]
            rfl
          rw [if_pos hviable, Draft.step, hextend, Option.getD_some, yield_extend hextend]
          rfl
      | none =>
          have hviable : ¬Viable (D.yield ++ [t.symbol]) := by
            rw [← hD.extend_isSome_iff, hextend]
            exact Bool.false_ne_true
          rw [if_neg hviable, Draft.step, hextend, Option.getD_none, yield_settle]
          rfl

end Draft

theorem sift_eq_verdicts (ts : List (Token Symbol)) : sift [] ts = Draft.empty.verdicts ts :=
  (Draft.placed_empty.verdicts_eq_sift ts).symm

theorem complete_read_isSome_iff (ts : List (Token Symbol)) :
    (Draft.empty.read ts).complete?.isSome ↔
      Sentence ((survivors (sift [] ts)).map Token.symbol) := by
  rw [(Draft.placed_empty.read ts).complete_isSome_iff, Draft.yield_read, sift_eq_verdicts]
  rfl

/-- The first token that is thrown away is the one for which there is no place. -/
theorem exists_refused_of_discards {ts rest : List (Token Symbol)} {t : Token Symbol}
    (h : discards (sift [] ts) = t :: rest) :
    ∃ before behind D, ts = before ++ t :: behind ∧
      Draft.empty.follow (before.map Token.symbol) = some D ∧ D.extend? t.symbol = none ∧
      (sift [] ts).takeWhile (fun v => v.2) = before.map fun u => (u, true) := by
  rw [sift_eq_verdicts] at h ⊢
  cases hfollow : Draft.empty.follow (ts.map Token.symbol) with
  | some D =>
      have hnone : discards (ts.map fun t => (t, true)) = [] := by
        simp [discards, List.filter_map, Function.comp_def]
      rw [(Draft.read_of_follow hfollow).2, hnone] at h
      cases h
  | none =>
      -- Up to the first refusal everything is kept, so the two first tokens are one.
      rcases Draft.exists_refused hfollow with ⟨before, u, behind, D, rfl, hbefore, hextend⟩
      rw [Draft.discards_of_refused hbefore hextend] at h
      rcases List.cons.inj h with ⟨rfl, _⟩
      refine ⟨before, behind, D, rfl, hbefore, hextend, ?_⟩
      rcases Draft.read_of_follow hbefore with ⟨hread, hverdicts⟩
      rw [Draft.verdicts_append, hverdicts, hread, Draft.verdicts, hextend,
        List.takeWhile_append_of_pos (by simp)]
      simp

/-- A token is kept if and only if what is kept so far can still become a sentence with it; a run
that aborts goes as far as the first token that is not kept. -/
theorem recovery_is_greedy (ts : List (Token Symbol)) (span : Option Span)
    (hts : ∀ t ∈ ts, t.symbol.isTerminal = true ∧ t.symbol.isEnd = false) :
    (reportOn .resync ts span).verdicts = sift [] ts ∧
    (reportOn .resync ts span).diagnostics = (discards (sift [] ts)).map Token.complaint ++
      (if Sentence ((survivors (sift [] ts)).map Token.symbol) then [] else [.unexpectedEnd span]) ∧
    (Sentence ((survivors (sift [] ts)).map Token.symbol) →
      ∃ e, (reportOn .resync ts span).outcome =
        if discards (sift [] ts) = [] then .accepted (.root e) else .recovered (.root e)) ∧
    (¬Sentence ((survivors (sift [] ts)).map Token.symbol) →
      (reportOn .resync ts span).outcome = .failed (.unexpectedEnd span)) ∧
    ∀ t rest, discards (sift [] ts) = t :: rest →
      (reportOn .abort ts span).outcome = .failed t.complaint ∧
      (reportOn .abort ts span).diagnostics = [t.complaint] ∧
      (reportOn .abort ts span).verdicts = (sift [] ts).takeWhile fun v => v.2 := by
  rcases analyze_resync hts (delivers_inputQueue ts span) with
    ⟨houtcome, hdiagnostics, hverdicts⟩
  have hcomplete := complete_read_isSome_iff ts
  rw [← sift_eq_verdicts] at houtcome hdiagnostics hverdicts
  refine ⟨hverdicts, ?_, ?_, ?_, ?_⟩
  -- Whether the run has a tree is a question about the kept tokens alone.
  · rw [reportOn, hdiagnostics, Draft.endDiagnostics]
    cases htree : (Draft.empty.read ts).complete? with
    | some e => rw [if_pos (hcomplete.1 (by simp [htree]))]
    | none => rw [if_neg fun h => by simpa [htree] using hcomplete.2 h]
  · intro hsentence
    rcases Option.isSome_iff_exists.1 (hcomplete.2 hsentence) with ⟨e, htree⟩
    refine ⟨e, ?_⟩
    rw [reportOn, houtcome, Draft.outcome, htree]
    simp only [List.isEmpty_iff]
  · intro hsentence
    have htree : (Draft.empty.read ts).complete? = none := by
      cases h : (Draft.empty.read ts).complete? with
      | none => rfl
      | some e => exact absurd (hcomplete.1 (by simp [h])) hsentence
    rw [reportOn, houtcome, Draft.outcome, htree]
  · intro t rest hdiscards
    rcases exists_refused_of_discards hdiscards with
      ⟨before, behind, D, rfl, hfollow, hextend, hkept⟩
    rw [hkept]
    exact analyze_abort hts (delivers_inputQueue _ span) hfollow hextend

/-- The witness reads `(a + * b))`. -/
theorem greedy_on_stray_tokens :
    (∀ t ∈ spanless [.bracket .opening, .var "a", .operator .add, .operator .mul, .var "b",
        .bracket .closing, .bracket .closing],
      t.symbol.isTerminal = true ∧ t.symbol.isEnd = false) ∧
    (reportOn .resync (spanless [.bracket .opening, .var "a", .operator .add, .operator .mul,
        .var "b", .bracket .closing, .bracket .closing]) none).diagnostics =
      [.unexpected "*" none, .unexpected ")" none] ∧
    (∃ e, (reportOn .resync (spanless [.bracket .opening, .var "a", .operator .add,
        .operator .mul, .var "b", .bracket .closing, .bracket .closing]) none).outcome =
      .recovered (.root e)) ∧
    (reportOn .abort (spanless [.bracket .opening, .var "a", .operator .add, .operator .mul,
        .var "b", .bracket .closing, .bracket .closing]) none).outcome =
      .failed (.unexpected "*" none) := by
  have hts : ∀ t ∈ spanless [.bracket .opening, .var "a", .operator .add, .operator .mul, .var "b",
      .bracket .closing, .bracket .closing],
      t.symbol.isTerminal = true ∧ t.symbol.isEnd = false := by
    decide
  rcases recovery_is_greedy _ none hts with ⟨_, hdiagnostics, htree, _, habort⟩
  exact ⟨hts, hdiagnostics, htree (by decide), (habort _ _ rfl).1⟩

end Arithmetic
end ShiftReduce
