import ShiftReduce.Arithmetic.Grammar
import ShiftReduce.Proofs.Machine.Effect

/-!
# Discipline — the two stacks of a run grow and shrink together

Shifts and gotos push a token and a state, reductions pop as many of the one as of the other.  So the
start state stays at the bottom, every stacked token has a state of its own on top of it, and the table
leads from the state below a token, by that token, to the state on top.

* `Stacking`: stacks that grew together from a start state.
* `Machine.stacking_of_next`, `Machine.Leads.stacking`: no step that goes on tears them apart.
* `Machine.stacks_keep_in_step`: what holds of the stacks in every round of a run, and behind it.
-/

namespace ShiftReduce

variable {State Production Symbol Kind Context Source : Type}

/-! ## Stacks that grew together -/

/-- Stacks, tops first, that grew together from the state `start`: each token came with a state on top
of it, and `Link` holds between the state below, the token and the state on top. -/
inductive Stacking (start : State) (Link : State → Token Symbol → State → Prop) :
    List State → List (Token Symbol) → Prop
  | base : Stacking start Link [start] []
  | push {state target : State} {t : Token Symbol} {states : List State}
      {tokens : List (Token Symbol)} (below : Stacking start Link (state :: states) tokens)
      (link : Link state t target) :
      Stacking start Link (target :: state :: states) (t :: tokens)

namespace Stacking

variable {start : State} {Link : State → Token Symbol → State → Prop} {states : List State}
  {tokens : List (Token Symbol)}

theorem length_states (h : Stacking start Link states tokens) :
    states.length = tokens.length + 1 := by
  induction h with
  | base => rfl
  | push _ _ ih => rw [List.length_cons, ih, List.length_cons]

theorem getLast?_states (h : Stacking start Link states tokens) : states.getLast? = some start := by
  induction h with
  | base => rfl
  | push _ _ ih => rw [List.getLast?_cons_cons, ih]

/-- Popping as many tokens as states leaves stacks that grew together. -/
theorem drop (h : Stacking start Link states tokens) (n : Nat) (hn : n ≤ tokens.length) :
    Stacking start Link (states.drop n) (tokens.drop n) := by
  induction n generalizing states tokens with
  | zero => exact h
  | succ n ih =>
      cases h with
      | base => cases hn
      | push below link => exact ih below (Nat.le_of_succ_le_succ hn)

theorem exists_link_below (h : Stacking start Link states tokens) {j : Nat}
    (hj : j < tokens.length) :
    ∃ state t target, states[j + 1]? = some state ∧ tokens[j]? = some t ∧
      states[j]? = some target ∧ Link state t target := by
  induction h generalizing j with
  | base => cases hj
  | @push state target t states tokens below link ih =>
      cases j with
      | zero => exact ⟨state, t, target, rfl, rfl, rfl, link⟩
      | succ j => exact ih (Nat.lt_of_succ_lt_succ hj)

/-- Counted from the bottom, the states number `i` and `i + 1` are those below and above the token
number `i`. -/
theorem exists_link (h : Stacking start Link states tokens) {i : Nat} (hi : i < tokens.length) :
    ∃ state t target, states.reverse[i]? = some state ∧ tokens.reverse[i]? = some t ∧
      states.reverse[i + 1]? = some target ∧ Link state t target := by
  have hlength := h.length_states
  have hbelow : states.length - 1 - i = tokens.length - 1 - i + 1 := by omega
  have habove : states.length - 1 - (i + 1) = tokens.length - 1 - i := by omega
  obtain ⟨state, t, target, hstate, ht, htarget, hlink⟩ :=
    h.exists_link_below (j := tokens.length - 1 - i) (by omega)
  refine ⟨state, t, target, ?_, ?_, ?_, hlink⟩
  · rw [List.getElem?_reverse (by omega), hbelow, hstate]
  · rw [List.getElem?_reverse hi, ht]
  · rw [List.getElem?_reverse (by omega), habove, htarget]

end Stacking

/-! ## The stacks of a run -/

namespace Machine

variable [TokenSource Source Symbol] [GrammarSymbol Symbol Kind] [ToString State] [ToString Kind]
  {G : Grammar State Production Symbol Kind Context} {mode : ErrorMode}
  {M N : Machine State Production Symbol Kind Context Source}
  {Link : State → Token Symbol → State → Prop}

/-- Whatever links stacked tokens to their states, a step that goes on keeps it, if it holds where the
table shifts a lookahead and where it leads on from a left-hand side. -/
theorem stacking_of_next
    (hshift : ∀ state t u target, M.Meets state t →
      G.action state (GrammarSymbol.kind t.symbol) = .shift target →
      (TokenSource.consume M.looked.source).answer = .ok (some u) → Link state u target)
    (hgoto : ∀ state t target, G.action state (GrammarSymbol.kind t.symbol) = .shift target →
      Link state t target)
    (h : Stacking G.start Link M.states M.tokens) (hstep : M.step G mode = .next N) :
    Stacking G.start Link N.states N.tokens := by
  cases effect_of_step hstep with
  | @shift state target t u hmeets haction htaken =>
      obtain ⟨lower, hstates⟩ := hmeets.states
      change Stacking G.start Link (target :: M.states) (u :: M.tokens)
      rw [hstates] at h ⊢
      exact .push h (hshift state t u target hmeets haction htaken)
  | @reduce state base target t p lower lhs _ _ hsize hbase _ _ haction =>
      change Stacking G.start Link (target :: M.states.drop (G.size p))
        (⟨lhs, Token.coveringSpan (M.handle G p)⟩ :: M.tokens.drop (G.size p))
      have hfull : G.size p ≤ M.tokens.length := by
        rw [← hsize, handle, List.length_reverse]
        exact List.length_take_le' _ _
      have hdrop := h.drop (G.size p) hfull
      rw [hbase] at hdrop ⊢
      exact .push hdrop (hgoto _ _ _ haction)
  | discard => exact h

/-- Over any source the stacks of a run grew together. -/
theorem Leads.stacking (h : Leads G mode (M.reset G.start) N) :
    Stacking G.start (fun _ _ _ => True) N.states N.tokens := by
  refine h.keeps (P := fun K => Stacking G.start (fun _ _ _ => True) K.states K.tokens) ?_ .base
  intro K K' hK hstep
  exact stacking_of_next (fun _ _ _ _ _ _ _ => trivial) (fun _ _ _ _ => trivial) hK hstep

/-- Over a source that makes no tokens up, it is the table that links them. -/
theorem Leads.stacking_of_honest [HonestSource Source] (h : Leads G mode (M.reset G.start) N) :
    Stacking G.start (fun state t target =>
      G.action state (GrammarSymbol.kind t.symbol) = .shift target) N.states N.tokens := by
  refine h.keeps (P := fun K => Stacking G.start (fun state t target =>
    G.action state (GrammarSymbol.kind t.symbol) = .shift target) K.states K.tokens) ?_ .base
  intro K K' hK hstep
  refine stacking_of_next ?_ (fun _ _ _ haction => haction) hK hstep
  intro state t u target hmeets haction htaken
  cases HonestSource.eq_of_consume_peek K.source t u hmeets.head htaken
  exact haction

/-- In every round of a run the states lead up the stack, token by token, as the table says; behind
an analysis the stacks are empty. -/
theorem stacks_keep_in_step (G : Grammar State Production Symbol Kind Context) (mode : ErrorMode)
    (M : Machine State Production Symbol Kind Context Source) :
    (∀ N, Leads G mode (M.reset G.start) N →
      N.states.length = N.tokens.length + 1 ∧ N.states.getLast? = some G.start) ∧
    (HonestSource Source → ∀ N, Leads G mode (M.reset G.start) N → ∀ i < N.tokens.length,
      ∃ state t target, N.states.reverse[i]? = some state ∧ N.tokens.reverse[i]? = some t ∧
        N.states.reverse[i + 1]? = some target ∧
        G.action state (GrammarSymbol.kind t.symbol) = .shift target) ∧
    ∀ fuel A M', analyzeWithin G mode fuel M = some (A, M') →
      M'.states = [] ∧ M'.tokens = [] ∧ M'.diagnostics = [] := by
  refine ⟨?_, ?_, ?_⟩
  · intro N hleads
    exact ⟨hleads.stacking.length_states, hleads.stacking.getLast?_states⟩
  · intro _ N hleads i hi
    exact hleads.stacking_of_honest.exists_link hi
  · intro fuel A M' h
    obtain ⟨⟨_ | _, N⟩, _, _, rfl⟩ := exists_run_of_analyzeWithin h
    · exact ⟨rfl, rfl, rfl⟩
    · exact ⟨rfl, rfl, rfl⟩

/-- A script of `a + b` that loses the `b`. -/
def lostOperand : Script Arithmetic.Symbol :=
  ⟨[{ token := ⟨.var "a", none⟩ }, { token := ⟨.operator .add, none⟩ },
    { token := ⟨.var "b", none⟩, lost := true }]⟩

/-- The witness reads `a + b` from a script that loses the `b`. -/
theorem stacks_in_step_on_lost_operand : HonestSource (Script Arithmetic.Symbol) ∧
    (∃ N, Leads Arithmetic.grammar .resync
        ((ofSource lostOperand ()).reset Arithmetic.grammar.start) N ∧
      N.tokens.length = 2 ∧ N.states.length = N.tokens.length + 1 ∧
      ∃ state t target, N.states.reverse[1]? = some state ∧ N.tokens.reverse[1]? = some t ∧
        N.states.reverse[2]? = some target ∧
        Arithmetic.grammar.action state (GrammarSymbol.kind t.symbol) = .shift target) ∧
    ∃ A M', analyzeWithin Arithmetic.grammar .resync 4 (ofSource lostOperand ()) = some (A, M') ∧
      A.outcome = .failed (.ofFault .lostLookahead) ∧
      M'.states = [] ∧ M'.tokens = [] ∧ M'.diagnostics = [] := by
  have h := stacks_keep_in_step Arithmetic.grammar .resync (ofSource lostOperand ())
  refine ⟨inferInstance, ?_, ?_⟩
  · have hleads : Leads Arithmetic.grammar .resync
        ((ofSource lostOperand ()).reset Arithmetic.grammar.start) _ :=
      .head rfl (.head rfl (.head rfl .refl))
    exact ⟨_, hleads, rfl, (h.1 _ hleads).1, h.2.1 inferInstance _ hleads 1 (by decide)⟩
  · exact ⟨_, _, rfl, rfl, h.2.2 4 _ _ rfl⟩

end Machine
end ShiftReduce
