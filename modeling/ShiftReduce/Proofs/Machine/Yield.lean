import ShiftReduce.Proofs.Machine.Conservation

/-!
# Yield — what is read is what is built

Suppose that a word is written for every symbol, and that each reduction builds a symbol whose word is
those of the right-hand side, side by side.  Then no step changes what the words on the stack say
together, except that a shift adds the word of its token.  So the symbol that a run ends with says what
the tokens that were shifted said, in their order; what was discarded leaves no trace.

* `Grammar.Concatenates`: the words that reductions only put side by side.
* `Machine.Spells`, `Machine.Spells.next`: the invariant, and that each step keeps it.
* `Machine.word_eq_yield`: the symbol of every analysis that succeeds.
-/

namespace ShiftReduce

open TokenSource

variable {State Production Symbol Kind Context Source : Type}

/-- The word of a symbol that a reduction builds is those of its right-hand side, side by side. -/
def Grammar.Concatenates (G : Grammar State Production Symbol Kind Context) (w : Symbol → String) :
    Prop :=
  ∀ p rhs c s, (G.reduce p rhs c).product = .ok s → w s = String.join (rhs.map w)

/-! ## Words of tokens -/

namespace Token

def yield (w : Symbol → String) (ts : List (Token Symbol)) : String :=
  String.join (ts.map fun t => w t.symbol)

variable (w : Symbol → String) (ts ts' : List (Token Symbol)) (t : Token Symbol)

theorem yield_eq_join_symbols : yield w ts = String.join ((ts.map Token.symbol).map w) := by
  rw [yield, List.map_map]
  rfl

@[simp] theorem yield_append : yield w (ts ++ ts') = yield w ts ++ yield w ts' := by
  rw [yield, List.map_append, String.join_append]
  rfl

@[simp] theorem yield_singleton : yield w [t] = w t.symbol := by
  simp [yield]

end Token

namespace Machine

/-! ## The invariant -/

def kept (M : Machine State Production Symbol Kind Context Source) : List (Token Symbol) :=
  (M.account.2.filter fun v => v.2).map Prod.fst

/-- From the bottom up, the stack says what the tokens that were shifted say. -/
def Spells (w : Symbol → String) (M : Machine State Production Symbol Kind Context Source) : Prop :=
  Token.yield w M.tokens.reverse = Token.yield w M.kept.reverse

section Moves

variable {w : Symbol → String} {G : Grammar State Production Symbol Kind Context}
  {M N : Machine State Production Symbol Kind Context Source}

theorem spells_reset (M : Machine State Production Symbol Kind Context Source) (start : State) :
    (M.reset start).Spells w :=
  rfl

/-- A shift adds the same token to the stack and to what was read. -/
theorem Spells.shift {t : Token Symbol} (h : M.Spells w) (htokens : N.tokens = t :: M.tokens)
    (haccount : N.account.2 = (t, true) :: M.account.2) : N.Spells w := by
  have hkept : N.kept = t :: M.kept := by
    rw [kept, haccount, List.filter_cons_of_pos rfl, List.map_cons, kept]
  rw [Spells, htokens, hkept, List.reverse_cons, List.reverse_cons, Token.yield_append,
    Token.yield_append, h]

/-- A reduction puts the words of the right-hand side on top of the stack together. -/
theorem Spells.reduce {p : Production} {lhs : Symbol} {span : Option Span} (hw : G.Concatenates w)
    (h : M.Spells w) (hproduct : (M.reduction G p).product = .ok lhs)
    (htokens : N.tokens = ⟨lhs, span⟩ :: M.tokens.drop (G.size p))
    (haccount : N.account.2 = M.account.2) : N.Spells w := by
  have hlhs : w lhs = Token.yield w (M.handle G p) := by
    rw [hw _ _ _ _ hproduct, Token.yield_eq_join_symbols]
  have hsplit : M.tokens.reverse = (M.tokens.drop (G.size p)).reverse ++ M.handle G p := by
    rw [handle, ← List.reverse_append, List.take_append_drop]
  calc Token.yield w N.tokens.reverse
      = Token.yield w (M.tokens.drop (G.size p)).reverse ++ w lhs := by
        rw [htokens, List.reverse_cons, Token.yield_append, Token.yield_singleton]
    _ = Token.yield w M.tokens.reverse := by rw [hlhs, hsplit, Token.yield_append]
    _ = Token.yield w M.kept.reverse := h
    _ = Token.yield w N.kept.reverse := by rw [kept, kept, haccount]

/-- What is discarded was never on the stack. -/
theorem Spells.discard {t : Token Symbol} (h : M.Spells w) (htokens : N.tokens = M.tokens)
    (haccount : N.account.2 = (t, false) :: M.account.2) : N.Spells w := by
  have hkept : N.kept = M.kept := by
    rw [kept, haccount, List.filter_cons_of_neg Bool.false_ne_true, kept]
  rw [Spells, htokens, hkept]
  exact h

end Moves

/-! ## Runs -/

variable [TokenSource Source Symbol] [GrammarSymbol Symbol Kind] [ToString State] [ToString Kind]
  [HonestSource Source] {w : Symbol → String} {G : Grammar State Production Symbol Kind Context}
  {mode : ErrorMode} {M N M' : Machine State Production Symbol Kind Context Source} {s : Symbol}

theorem Spells.next (hw : G.Concatenates w) (h : M.Spells w) (hstep : M.step G mode = .next N) :
    N.Spells w := by
  cases effect_of_step hstep with
  | shift hmeets _ htaken =>
      -- An honest source hands over the token that is entered in the account.
      cases HonestSource.eq_of_consume_peek _ _ _ hmeets.head htaken
      refine h.shift rfl ?_
      simp only [account_tally, account_push, account_taken]
  | reduce _ _ _ _ hproduct =>
      refine h.reduce hw hproduct rfl ?_
      simp only [account_tally, account_push, account_record, account_popped]
      rfl
  | @discard _ _ u =>
      refine h.discard (t := u) rfl ?_
      simp only [account_tally, account_dropped]

/-- The symbol of a run says what the tokens said that it shifted. -/
theorem word_of_halt (hw : G.Concatenates w) (hleads : Leads G mode (M.reset G.start) N)
    (hhalt : N.step G mode = .halt (.ok s) M') : w s = Token.yield w M'.kept.reverse := by
  have hspells : N.Spells w := hleads.keeps (Spells.next hw) (spells_reset M G.start)
  cases effect_of_step hhalt with
  | @accept _ t last _ _ htokens =>
      -- The symbol is all that there is on the stack.
      rw [Spells, htokens, List.reverse_singleton, Token.yield_singleton] at hspells
      have haccount := N.account_accepted t
      rw [hspells, kept, kept, ← haccount]
      rfl

/-- The symbol of an analysis that succeeds says what the tokens said that were shifted. -/
theorem word_eq_yield (hw : G.Concatenates w) {fuel : Nat}
    {A : Analysis State Production Symbol Kind}
    (h : analyzeWithin G mode fuel M = some (A, M'))
    (hs : A.outcome = .accepted s ∨ A.outcome = .recovered s) : w s = Token.yield w A.shifted := by
  obtain ⟨⟨result, K⟩, hrun, rfl, rfl⟩ := exists_run_of_analyzeWithin h
  obtain rfl : result = .ok s := ok_of_success _ hs
  obtain ⟨N, hleads, hhalt⟩ := exists_halt_of_runWithin hrun
  rw [word_of_halt hw hleads hhalt, Analysis.shifted_eq, verdicts_conclude, kept,
    List.filter_reverse, List.map_reverse]

end Machine
end ShiftReduce
