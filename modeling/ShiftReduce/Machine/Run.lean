import ShiftReduce.Machine.Step

/-!
# Runs — steps until the machine halts

A table may reduce for ever, so a run is given a number of steps and answers nothing if that number
does not suffice.  For a shrinking grammar over a finite source a number that suffices is known
beforehand, and the answer can be had without one.

* `Machine.potential`: the weight of input and stack together.
* `Machine.potential_step_lt`: every step that goes on makes it smaller.
* `Machine.runWithin_isSome`: hence a run with more steps than potential halts.
-/

namespace ShiftReduce

namespace Machine

/-! ## Runs of a given length -/

section Fuel

variable {State Production Symbol Kind Context Source : Type}
  [TokenSource Source Symbol] [GrammarSymbol Symbol Kind] [ToString State] [ToString Kind]

abbrev Result (State Production Symbol Kind Context Source : Type) : Type :=
  Except Diagnostic Symbol × Machine State Production Symbol Kind Context Source

/-- Runs the machine for at most `fuel` steps; nothing if it has not halted by then. -/
def runWithin (G : Grammar State Production Symbol Kind Context) (mode : ErrorMode) :
    Nat → Machine State Production Symbol Kind Context Source →
      Option (Result State Production Symbol Kind Context Source)
  | 0, _ => none
  | fuel + 1, M =>
      match M.step G mode with
      | .next M => runWithin G mode fuel M
      | .halt result M => some (result, M)

/-! ## More steps keep an answer -/

theorem runWithin_succ {G : Grammar State Production Symbol Kind Context} {mode : ErrorMode}
    {fuel : Nat} {M : Machine State Production Symbol Kind Context Source}
    {r : Result State Production Symbol Kind Context Source}
    (h : runWithin G mode fuel M = some r) : runWithin G mode (fuel + 1) M = some r := by
  induction fuel generalizing M with
  | zero => simp [runWithin] at h
  | succ fuel ih =>
      unfold runWithin at h ⊢
      split at h
      · exact ih h
      · exact h

theorem runWithin_mono {G : Grammar State Production Symbol Kind Context} {mode : ErrorMode}
    {fuel fuel' : Nat} {M : Machine State Production Symbol Kind Context Source}
    {r : Result State Production Symbol Kind Context Source} (hle : fuel ≤ fuel')
    (h : runWithin G mode fuel M = some r) : runWithin G mode fuel' M = some r := by
  induction hle with
  | refl => exact h
  | step _ ih => exact runWithin_succ ih

end Fuel

/-! ## The potential of a machine -/

variable {State Production Symbol Kind Context Source : Type}
  [GrammarSymbol Symbol Kind] [TokenSource Source Symbol] [FiniteSource Source]
  {G : Grammar State Production Symbol Kind Context}

/-- The size of the input in units, and the weights of the stacked symbols. -/
def potential (W : G.Shrinking) (M : Machine State Production Symbol Kind Context Source) : Nat :=
  W.unit * FiniteSource.size M.source + load (fun t => W.weight t.symbol) M.tokens

/-- A token other than the end marker that leaves the source pays for any symbol it becomes. -/
theorem unit_mul_size_add_lt (W : G.Shrinking) {s : Source} {t : Token Symbol}
    (hpeek : (TokenSource.peek s).answer = .ok (some t))
    (hend : GrammarSymbol.isEnd t.symbol = false) (symbol : Symbol) :
    W.unit * FiniteSource.size (TokenSource.consume (TokenSource.peek s).source).source +
        W.weight symbol <
      W.unit * FiniteSource.size (TokenSource.peek s).source := by
  have hsize := FiniteSource.size_consume_lt s t hpeek hend
  have hweight := W.weight_lt symbol
  have hmul := Nat.mul_le_mul_left W.unit hsize
  rw [Nat.mul_succ] at hmul
  omega

theorem potential_shift_lt (W : G.Shrinking)
    {M M' : Machine State Production Symbol Kind Context Source} {s : Source} {t : Token Symbol}
    {lookahead : Token Symbol} {target : State} (hsource : M.source = (TokenSource.peek s).source)
    (hpeek : (TokenSource.peek s).answer = .ok (some t))
    (hend : GrammarSymbol.isEnd t.symbol = false) (h : M.shift lookahead target = .next M') :
    potential W M' < potential W M := by
  unfold shift consume at h
  dsimp only at h
  split at h
  · cases h
  · cases h
  · rename_i token N heq
    simp only [Prod.mk.injEq] at heq
    obtain ⟨_, rfl⟩ := heq
    cases h
    have hlt := unit_mul_size_add_lt W hpeek hend token.symbol
    simp only [potential, absorb, tally, push, recordNotes, record, load_cons, hsource]
    omega

theorem potential_reject_lt (W : G.Shrinking) {mode : ErrorMode}
    {M M' : Machine State Production Symbol Kind Context Source} {state : State}
    {span : Option Span} (h : M.reject mode state span = .next M') :
    potential W M' < potential W M := by
  unfold reject peek at h
  dsimp only at h
  split at h
  · cases h
  · cases h
  · rename_i token N heq
    simp only [Prod.mk.injEq] at heq
    obtain ⟨hpeek, rfl⟩ := heq
    split at h
    · cases h
    · rename_i hend
      cases mode with
      | abort => cases h
      | resync =>
          unfold consume at h
          dsimp only at h
          split at h
          · cases h
          · rename_i heq
            simp only [Prod.mk.injEq] at heq
            obtain ⟨_, rfl⟩ := heq
            cases h
            have hlt := unit_mul_size_add_lt W hpeek (by simpa using hend) token.symbol
            have hle := Nat.mul_le_mul_left W.unit (FiniteSource.size_peek_le M.source)
            simp only [potential, absorb, tally, report, recordNotes, record]
            omega

variable [ToString State] [ToString Kind]

theorem potential_goto_eq (W : G.Shrinking)
    {M M' : Machine State Production Symbol Kind Context Source} {token : Token Symbol}
    (h : M.goto G token = .next M') :
    potential W M' = potential W M + W.weight token.symbol := by
  unfold goto at h
  split at h
  · cases h
  · dsimp only at h
    split at h
    · cases h
    · split at h
      · cases h
        simp only [potential, tally, push, record, load_cons]
        omega
      · cases h

theorem potential_reduce_lt (W : G.Shrinking)
    {M M' : Machine State Production Symbol Kind Context Source} {p : Production}
    (h : M.reduce G p = .next M') : potential W M' < potential W M := by
  unfold reduce at h
  dsimp only at h
  split at h
  · cases h
  · split at h
    · cases h
    · rename_i symbol hproduct
      have hlt := W.product_lt _ _ _ _ hproduct
      -- What is popped and what stays make up the old stack.
      have hsplit := congrArg (load fun t => W.weight t.symbol)
        (List.take_append_drop (G.size p) M.tokens)
      simp only [load_map, load_reverse] at hlt
      rw [load_append] at hsplit
      rw [potential_goto_eq W h]
      simp only [potential, tally, pop, recordNotes, record]
      omega

theorem potential_step_lt (W : G.Shrinking) {mode : ErrorMode}
    {M M' : Machine State Production Symbol Kind Context Source}
    (h : M.step G mode = .next M') : potential W M' < potential W M := by
  unfold step peek at h
  dsimp only at h
  split at h
  · cases h
  · split at h
    · cases h
    · cases h
    · rename_i token N heq
      simp only [Prod.mk.injEq] at heq
      obtain ⟨hpeek, rfl⟩ := heq
      have hle := Nat.mul_le_mul_left W.unit (FiniteSource.size_peek_le M.source)
      -- Looking at the source does not enlarge it; the notes it leaves weigh nothing.
      have habsorb : potential W (M.absorb (TokenSource.peek M.source)) ≤ potential W M := by
        simp only [potential, absorb, recordNotes]
        omega
      refine Nat.lt_of_lt_of_le ?_ habsorb
      split at h
      · unfold examine at h
        dsimp only at h
        split at h
        · rename_i target haction
          -- A table that shrinks never shifts the end marker, so the source gets smaller.
          have hend : GrammarSymbol.isEnd token.symbol = false := by
            cases he : GrammarSymbol.isEnd token.symbol with
            | false => rfl
            | true => exact absurd haction (W.end_not_shifted _ _ _ he)
          have hlt := potential_shift_lt W rfl hpeek hend h
          exact hlt
        · have hlt := potential_reduce_lt W h
          exact hlt
        · unfold accept at h
          dsimp only at h
          split at h <;> cases h
        · have hlt := potential_reject_lt W h
          exact hlt
      · cases h

/-! ## Runs that must end -/

/-- A run with more steps than potential halts. -/
theorem runWithin_isSome (W : G.Shrinking) (mode : ErrorMode) {fuel : Nat}
    {M : Machine State Production Symbol Kind Context Source} (h : potential W M < fuel) :
    (runWithin G mode fuel M).isSome := by
  induction fuel generalizing M with
  | zero => omega
  | succ fuel ih =>
      unfold runWithin
      split
      · rename_i N hstep
        have hlt := potential_step_lt W hstep
        exact ih (by omega)
      · rfl

def run (W : G.Shrinking) (mode : ErrorMode)
    (M : Machine State Production Symbol Kind Context Source) :
    Result State Production Symbol Kind Context Source :=
  (runWithin G mode (potential W M + 1) M).get (runWithin_isSome W mode (Nat.lt_succ_self _))

/-- However many steps a run is given, if it halts, it halts with the result of `run`. -/
theorem eq_run_of_runWithin (W : G.Shrinking) {mode : ErrorMode} {fuel : Nat}
    {M : Machine State Production Symbol Kind Context Source}
    {r : Result State Production Symbol Kind Context Source}
    (h : runWithin G mode fuel M = some r) : r = run W mode M := by
  have hrun : runWithin G mode (potential W M + 1) M = some (run W mode M) := by
    simp [run]
  have hleft := runWithin_mono (Nat.le_max_left fuel (potential W M + 1)) h
  have hright := runWithin_mono (Nat.le_max_right fuel (potential W M + 1)) hrun
  exact Option.some.inj (hleft.symm.trans hright)

end Machine

end ShiftReduce
