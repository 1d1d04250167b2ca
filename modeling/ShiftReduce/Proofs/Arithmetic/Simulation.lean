import ShiftReduce.Arithmetic.Session
import ShiftReduce.Proofs.Arithmetic.Draft
import ShiftReduce.Proofs.Machine.Walk

/-!
# Simulation — the machine works on drafts

The stacks of a run show a draft.  What the machine does with one lookahead, which may take many
reductions, is one change of the draft: it is extended, or the lookahead is refused.  The table
reduces in front of any lookahead, so a refusal leaves its mark: everything that was still open
behind the last bracket is closed.

* `Draft.Shows`: what the stacks look like for a draft.
* `exists_leads_keep`, `exists_leads_drop`: a lookahead that is kept, or thrown away.
* `exists_halt_complete`, `exists_halt_incomplete`, `exists_halt_refused`: how a run halts.
-/

namespace ShiftReduce
namespace Arithmetic

open TokenSource

/-! ## Stacks -/

namespace Kind

/-- How tightly a lookahead binds; anything but an operator closes all operations. -/
def precedence : Kind → Nat
  | .operator op => op.precedence
  | _ => 0

end Kind

namespace Spine

def state : Spine → State
  | .start => .start
  | .opened _ => .opened
  | .after _ _ op => .after op

/-- The state to which an expression behind a spine leads. -/
def goto : Spine → State
  | .start => .top
  | .opened _ => .inner
  | .after _ _ op => .rhs op

def states : Spine → List State
  | .start => [.start]
  | .opened S => .opened :: S.states
  | .after S _ op => .after op :: S.goto :: S.states

def stacked : Spine → List Symbol
  | .start => []
  | .opened S => .bracket .opening :: S.stacked
  | .after S left op => .operator op :: .expression left :: S.stacked

theorem exists_states_eq (S : Spine) : ∃ rest, S.states = S.state :: rest := by
  cases S with
  | start => exact ⟨[], rfl⟩
  | opened S => exact ⟨S.states, rfl⟩
  | after S left op => exact ⟨S.goto :: S.states, rfl⟩

theorem action_state_expression (S : Spine) : S.state.action .expression = .shift S.goto := by
  cases S <;> rfl

/-- Where an operand is due, the table refuses every other terminal. -/
theorem action_state_of_refuse {S : Spine} {s : Symbol} (hterminal : s.isTerminal = true)
    (h : (Draft.due S).extend? s = none) : S.state.action s.kind = .error := by
  cases s with
  | atom a => cases h
  | bracket b =>
      cases b with
      | opening => cases h
      | closing => cases S <;> rfl
  | expression e => cases hterminal
  | root e => cases hterminal
  | _ => cases S <;> rfl

theorem action_rhs {op : Operator} {k : Kind} (h : ¬op.precedence < k.precedence) :
    (State.rhs op).action k = .reduce .binary := by
  cases k with
  | operator op' => exact if_neg h
  | _ => rfl

/-- Behind what an operator leaves of a spine the table shifts it. -/
theorem action_goto_operator {S : Spine} {op : Operator} (h : S.level ≤ op.precedence) :
    S.goto.action (.operator op) = .shift (.after op) := by
  cases S with
  | start => rfl
  | opened S => rfl
  | after S left op' => exact if_pos h

end Spine

namespace Draft

/-- What the stacks look like for a draft.  An operand at the end may not be reduced yet. -/
inductive Shows : Draft → List State → List Symbol → Prop
  | due (S : Spine) : Shows (.due S) S.states S.stacked
  | whole (S : Spine) (e : Expr) :
      Shows (.operand S e) (S.goto :: S.states) (.expression e :: S.stacked)
  | number (S : Spine) (value : Float) :
      Shows (.operand S (.atomic (.number value))) (.number :: S.states)
        (.number value :: S.stacked)
  | var (S : Spine) (name : String) :
      Shows (.operand S (.atomic (.var name))) (.var :: S.states) (.var name :: S.stacked)
  | closed (S : Spine) (inner : Expr) :
      Shows (.operand S (.bracketed inner)) (.closed :: .inner :: .opened :: S.states)
        (.bracket .closing :: .expression inner :: .bracket .opening :: S.stacked)

theorem Shows.exists_states_eq {D : Draft} {states : List State} {symbols : List Symbol}
    (h : D.Shows states symbols) : ∃ state rest, states = state :: rest := by
  cases h with
  | due S =>
      rcases S.exists_states_eq with ⟨rest, hrest⟩
      exact ⟨_, rest, hrest⟩
  | _ => exact ⟨_, _, rfl⟩

theorem shows_due {S : Spine} {states : List State} {symbols : List Symbol}
    (h : (due S).Shows states symbols) : states = S.states ∧ symbols = S.stacked := by
  cases h
  exact ⟨rfl, rfl⟩

theorem exists_shift_due {S : Spine} {s : Symbol} {D : Draft}
    (h : (due S).extend? s = some D) :
    ∃ target, S.state.action s.kind = .shift target ∧
      D.Shows (target :: S.states) (s :: S.stacked) := by
  cases s with
  | atom a =>
      cases h
      cases a with
      | number value => exact ⟨.number, by cases S <;> rfl, .number S value⟩
      | var name => exact ⟨.var, by cases S <;> rfl, .var S name⟩
  | bracket b =>
      cases b with
      | opening =>
          cases h
          exact ⟨.opened, by cases S <;> rfl, .due (.opened S)⟩
      | closing => cases h
  | _ => cases h

/-- Once the lookahead has closed what it closes, the table shifts it. -/
theorem exists_shift_operand {S : Spine} {e : Expr} {s : Symbol} {D : Draft}
    (h : (operand S e).extend? s = some D) :
    let closed := S.unwind s.kind.precedence e
    ∃ target, closed.1.goto.action s.kind = .shift target ∧
      D.Shows (target :: closed.1.goto :: closed.1.states)
        (s :: .expression closed.2 :: closed.1.stacked) := by
  cases s with
  | operator op =>
      cases h
      exact ⟨.after op, Spine.action_goto_operator (S.level_unwind_le op.one_le_precedence e),
        .due _⟩
  | bracket b =>
      cases b with
      | opening => cases h
      | closing =>
          rcases extend?_closing h with ⟨below, inner, hunwind, rfl⟩
          dsimp only [Symbol.kind, Kind.precedence]
          rw [hunwind]
          exact ⟨.closed, rfl, .closed below inner⟩
  | _ => cases h

/-- Behind an operand every lookahead that is refused closes all operations first. -/
theorem precedence_of_refuse {S : Spine} {e : Expr} {s : Symbol}
    (hterminal : s.isTerminal = true) (h : (operand S e).extend? s = none) :
    s.kind.precedence = 0 ∧
      ((s.isEnd = true → (operand S e).complete? = none) →
        (S.unwind 0 e).1.goto.action s.kind = .error) := by
  have hcases := S.unwind_zero_cases e
  cases s with
  | endMark =>
      refine ⟨rfl, ?_⟩
      intro hincomplete
      have hnone := hincomplete rfl
      rcases hcases with ⟨whole, hunwind⟩ | ⟨below, inner, hunwind⟩
      · rw [complete?, hunwind] at hnone
        cases hnone
      · rw [hunwind]
        rfl
  | atom a =>
      cases a <;> refine ⟨rfl, fun _ => ?_⟩ <;>
        rcases hcases with ⟨whole, hunwind⟩ | ⟨below, inner, hunwind⟩ <;> rw [hunwind] <;> rfl
  | bracket b =>
      cases b with
      | opening =>
          refine ⟨rfl, fun _ => ?_⟩
          rcases hcases with ⟨whole, hunwind⟩ | ⟨below, inner, hunwind⟩ <;> rw [hunwind] <;> rfl
      | closing =>
          refine ⟨rfl, fun _ => ?_⟩
          rcases hcases with ⟨whole, hunwind⟩ | ⟨below, inner, hunwind⟩
          · rw [hunwind]
            rfl
          · rw [extend?, hunwind] at h
            cases h
  | operator op => cases h
  | expression e => cases hterminal
  | root e => cases hterminal

/-- What a refused lookahead leaves of a draft: everything that could be closed is closed. -/
def settle : Draft → Draft
  | .due S => .due S
  | .operand S e => .operand (S.unwind 0 e).1 (S.unwind 0 e).2

end Draft

/-! ## Reductions in front of a lookahead -/

variable {Source : Type} [TokenSource Source Symbol] (mode : ErrorMode)
  {M : Automaton Source} {t : Token Symbol}

def Automaton.symbols (M : Automaton Source) : List Symbol :=
  M.tokens.map Token.symbol

/-- The machine gets from `M` to `N` without taking anything from the source. -/
structure Settles (M N : Automaton Source) : Prop where
  leads : Machine.Leads grammar mode M N
  account : N.account = M.account
  head : head N.source = head M.source
  tail : tail N.source = tail M.source

variable {mode} in
theorem Settles.refl (M : Automaton Source) : Settles mode M M :=
  ⟨.refl, rfl, rfl, rfl⟩

variable {mode} in
theorem Settles.trans {M₁ M₂ M₃ : Automaton Source} (h : Settles mode M₁ M₂)
    (h' : Settles mode M₂ M₃) : Settles mode M₁ M₃ :=
  ⟨h.leads.trans h'.leads, h'.account.trans h.account, h'.head.trans h.head,
    h'.tail.trans h.tail⟩

variable [LawfulSource Source]

/-- Every reduction but the last one replaces what it pops by an expression. -/
theorem exists_settles_reduce {S : Spine} {e : Expr} {state : State} (p : Production)
    (popped : List State) (upper : List Symbol) (hhead : head M.source = .ok (some t))
    (hterminal : t.symbol.isTerminal = true)
    (hstates : M.states = (state :: popped) ++ S.states)
    (hsymbols : M.symbols = upper ++ S.stacked)
    (haction : state.action t.symbol.kind = .reduce p)
    (hpopped : (state :: popped).length = p.size) (hupper : upper.length = p.size)
    (hbuild : p.build? upper.reverse = some (.expression e)) :
    ∃ N, Settles mode M N ∧ N.states = S.goto :: S.states ∧
      N.symbols = .expression e :: S.stacked := by
  -- Under the right-hand side lies the state of the spine, from which the expression leads on.
  rcases S.exists_states_eq with ⟨rest, hrest⟩
  rcases List.map_eq_append_iff.1 hsymbols with ⟨tokens, below, htokens, rfl, hbelow⟩
  have hproduct : (grammar.reduce p (tokens.reverse.map Token.symbol) M.context).product =
      .ok (.expression e) := by
    simp only [grammar, Production.reduce, List.map_reverse, hbuild]
  have hsize : tokens.length = p.size := by
    rw [← hupper, List.length_map]
  rcases Machine.exists_step_reduce (G := grammar) mode hstates hhead hterminal haction
    (hstates.trans (by rw [hrest])) hpopped htokens hsize hproduct rfl
    S.action_state_expression with ⟨N, hstep, hN, hNtokens, hsource, haccount⟩
  refine ⟨N, ⟨.single hstep, haccount, ?_, ?_⟩, ?_, ?_⟩
  · rw [hsource, head_peek]
  · rw [hsource, tail_peek]
  · rw [hN, hrest]
  · rw [Automaton.symbols, hNtokens, List.map_cons, hbelow]

theorem exists_settles_whole {S : Spine} {e : Expr} (hhead : head M.source = .ok (some t))
    (hterminal : t.symbol.isTerminal = true)
    (h : (Draft.operand S e).Shows M.states M.symbols) :
    ∃ N, Settles mode M N ∧ N.states = S.goto :: S.states ∧
      N.symbols = .expression e :: S.stacked := by
  generalize hstates : M.states = states at h
  generalize hsymbols : M.symbols = symbols at h
  -- At most one reduction is missing: that of a number, a variable or a pair of brackets.
  cases h with
  | whole => exact ⟨M, .refl M, hstates, hsymbols⟩
  | number _ value =>
      exact exists_settles_reduce mode .number [] [.number value] hhead hterminal hstates
        hsymbols rfl rfl rfl rfl
  | var _ name =>
      exact exists_settles_reduce mode .var [] [.var name] hhead hterminal hstates hsymbols rfl
        rfl rfl rfl
  | closed _ inner =>
      exact exists_settles_reduce mode .bracketed [.inner, .opened]
        [.bracket .closing, .expression inner, .bracket .opening] hhead hterminal hstates hsymbols
        rfl rfl rfl rfl

theorem exists_settles_unwind {S : Spine} {e : Expr} (hhead : head M.source = .ok (some t))
    (hterminal : t.symbol.isTerminal = true) (hstates : M.states = S.goto :: S.states)
    (hsymbols : M.symbols = .expression e :: S.stacked) :
    let closed := S.unwind t.symbol.kind.precedence e
    ∃ N, Settles mode M N ∧ N.states = closed.1.goto :: closed.1.states ∧
      N.symbols = .expression closed.2 :: closed.1.stacked := by
  induction S generalizing M e with
  | start => exact ⟨M, .refl M, hstates, hsymbols⟩
  | opened S ih => exact ⟨M, .refl M, hstates, hsymbols⟩
  | after S left op ih =>
      dsimp only [Spine.unwind]
      split
      · exact ⟨M, .refl M, hstates, hsymbols⟩
      · -- One operation becomes the right operand of the one before it.
        rename_i hlt
        rcases exists_settles_reduce mode .binary [.after op, S.goto]
          [.expression e, .operator op, .expression left] hhead hterminal hstates hsymbols
          (Spine.action_rhs hlt) rfl rfl rfl with ⟨N, hMN, hN, hNsymbols⟩
        rcases ih (hMN.head.trans hhead) hN hNsymbols with ⟨N', hNN', hN'⟩
        exact ⟨N', hMN.trans hNN', hN'⟩

/-- Both together: the machine does in front of a lookahead what the draft does. -/
theorem exists_settles {S : Spine} {e : Expr} (hhead : head M.source = .ok (some t))
    (hterminal : t.symbol.isTerminal = true)
    (h : (Draft.operand S e).Shows M.states M.symbols) :
    let closed := S.unwind t.symbol.kind.precedence e
    ∃ N, Settles mode M N ∧ N.states = closed.1.goto :: closed.1.states ∧
      N.symbols = .expression closed.2 :: closed.1.stacked := by
  rcases exists_settles_whole mode hhead hterminal h with ⟨N, hMN, hN, hNsymbols⟩
  rcases exists_settles_unwind mode (hMN.head.trans hhead) hterminal hN hNsymbols with
    ⟨N', hNN', hN'⟩
  exact ⟨N', hMN.trans hNN', hN'⟩

/-! ## One lookahead -/

/-- In front of a lookahead that extends the draft the machine comes to a state that shifts it. -/
theorem exists_settles_shift {D D' : Draft} (hhead : head M.source = .ok (some t))
    (hterminal : t.symbol.isTerminal = true) (h : D.Shows M.states M.symbols)
    (hextend : D.extend? t.symbol = some D') :
    ∃ N state rest target, Settles mode M N ∧ N.states = state :: rest ∧
      state.action t.symbol.kind = .shift target ∧
      D'.Shows (target :: N.states) (t.symbol :: N.symbols) := by
  cases D with
  | due S =>
      rcases Draft.shows_due h with ⟨hstates, hsymbols⟩
      rcases Draft.exists_shift_due hextend with ⟨target, haction, hshows⟩
      rcases S.exists_states_eq with ⟨rest, hrest⟩
      refine ⟨M, S.state, rest, target, .refl M, hstates.trans hrest, haction, ?_⟩
      rw [hstates, hsymbols]
      exact hshows
  | operand S e =>
      rcases Draft.exists_shift_operand hextend with ⟨target, haction, hshows⟩
      rcases exists_settles mode hhead hterminal h with ⟨N, hMN, hstates, hsymbols⟩
      refine ⟨N, _, _, target, hMN, hstates, haction, ?_⟩
      rw [hstates, hsymbols]
      exact hshows

/-- In front of a lookahead that is refused the machine comes to a state that has no action for
it. -/
theorem exists_settles_refuse {D : Draft} (hhead : head M.source = .ok (some t))
    (hterminal : t.symbol.isTerminal = true) (h : D.Shows M.states M.symbols)
    (hextend : D.extend? t.symbol = none)
    (hend : t.symbol.isEnd = true → D.complete? = none) :
    ∃ N state rest, Settles mode M N ∧ N.states = state :: rest ∧
      state.action t.symbol.kind = .error ∧ D.settle.Shows N.states N.symbols := by
  cases D with
  | due S =>
      rcases Draft.shows_due h with ⟨hstates, hsymbols⟩
      rcases S.exists_states_eq with ⟨rest, hrest⟩
      refine ⟨M, S.state, rest, .refl M, hstates.trans hrest,
        Spine.action_state_of_refuse hterminal hextend, ?_⟩
      exact h
  | operand S e =>
      rcases Draft.precedence_of_refuse hterminal hextend with ⟨hprecedence, haction⟩
      rcases exists_settles mode hhead hterminal h with ⟨N, hMN, hstates, hsymbols⟩
      rw [hprecedence] at hstates hsymbols
      refine ⟨N, _, _, hMN, hstates, haction hend, ?_⟩
      rw [hstates, hsymbols]
      exact .whole _ _

theorem exists_leads_keep {D D' : Draft} (hhead : head M.source = .ok (some t))
    (hterminal : t.symbol.isTerminal = true) (h : D.Shows M.states M.symbols)
    (hextend : D.extend? t.symbol = some D') :
    ∃ N : Automaton Source, Machine.Leads grammar mode M N ∧ D'.Shows N.states N.symbols ∧
      N.source = tail M.source ∧ N.account = (M.account.1, (t, true) :: M.account.2) := by
  rcases exists_settles_shift mode hhead hterminal h hextend with
    ⟨N, state, rest, target, hMN, hstates, haction, hshows⟩
  rcases Machine.exists_step_shift (G := grammar) mode hstates (hMN.head.trans hhead) hterminal
    haction with ⟨N', hstep, hstates', htokens, hsource, haccount⟩
  refine ⟨N', hMN.leads.tail hstep, ?_, ?_, ?_⟩
  · rw [hstates', Automaton.symbols, htokens]
    exact hshows
  · rw [hsource, hMN.tail]
  · rw [haccount, hMN.account]

theorem exists_leads_drop {D : Draft} (hhead : head M.source = .ok (some t))
    (hterminal : t.symbol.isTerminal = true) (hend : t.symbol.isEnd = false)
    (h : D.Shows M.states M.symbols) (hextend : D.extend? t.symbol = none) :
    ∃ N : Automaton Source, Machine.Leads grammar .resync M N ∧
      D.settle.Shows N.states N.symbols ∧ N.source = tail M.source ∧
      N.account = (t.complaint :: M.account.1, (t, false) :: M.account.2) := by
  rcases exists_settles_refuse .resync hhead hterminal h hextend (by simp [hend]) with
    ⟨N, state, rest, hMN, hstates, haction, hshows⟩
  rcases Machine.exists_step_discard (G := grammar) hstates (hMN.head.trans hhead) hterminal
    hend haction with ⟨N', hstep, hstates', htokens, hsource, haccount⟩
  refine ⟨N', hMN.leads.tail hstep, ?_, ?_, ?_⟩
  · rw [hstates', Automaton.symbols, htokens]
    exact hshows
  · rw [hsource, hMN.tail]
  · rw [haccount, hMN.account]

/-! ## The end of a run -/

theorem exists_halt_refused {D : Draft} (hhead : head M.source = .ok (some t))
    (hterminal : t.symbol.isTerminal = true) (hend : t.symbol.isEnd = false)
    (h : D.Shows M.states M.symbols) (hextend : D.extend? t.symbol = none) :
    ∃ N N' : Automaton Source, Machine.Leads grammar .abort M N ∧
      N.step grammar .abort = .halt (.error t.complaint) N' ∧
      N'.account = M.account := by
  rcases exists_settles_refuse .abort hhead hterminal h hextend (by simp [hend]) with
    ⟨N, state, rest, hMN, hstates, haction, hshows⟩
  rcases Machine.exists_halt_reject (G := grammar) hstates (hMN.head.trans hhead) hterminal
    hend haction with ⟨N', hhalt, haccount⟩
  exact ⟨N, N', hMN.leads, hhalt, haccount.trans hMN.account⟩

theorem exists_halt_incomplete {D : Draft} (hhead : head M.source = .ok (some t))
    (hend : t.symbol = .endMark) (h : D.Shows M.states M.symbols) (hincomplete : D.complete? = none) :
    ∃ N N' : Automaton Source, Machine.Leads grammar mode M N ∧
      N.step grammar mode = .halt (.error (.unexpectedEnd t.span)) N' ∧
      N'.account = M.account := by
  -- The end marker extends no draft, so it is refused like any other lookahead.
  have hterminal : t.symbol.isTerminal = true := by rw [hend]; rfl
  have hextend : D.extend? t.symbol = none := by rw [hend]; cases D <;> rfl
  rcases exists_settles_refuse mode hhead hterminal h hextend (fun _ => hincomplete) with
    ⟨N, state, rest, hMN, hstates, haction, hshows⟩
  rcases Machine.exists_halt_end (G := grammar) mode hstates (hMN.head.trans hhead) hterminal
    (by rw [hend]; rfl) haction with ⟨N', hhalt, haccount⟩
  exact ⟨N, N', hMN.leads, hhalt, haccount.trans hMN.account⟩

theorem exists_halt_complete {D : Draft} {e : Expr} (hhead : head M.source = .ok (some t))
    (hend : t.symbol = .endMark) (h : D.Shows M.states M.symbols) (hcomplete : D.complete? = some e) :
    ∃ N N' : Automaton Source, Machine.Leads grammar mode M N ∧
      N.step grammar mode = .halt (.ok (.root e)) N' ∧ N'.account = M.account := by
  have hterminal : t.symbol.isTerminal = true := by rw [hend]; rfl
  cases D with
  | due S => cases hcomplete
  | operand S last =>
      rcases exists_settles mode hhead hterminal h with ⟨N, hMN, hstates, hsymbols⟩
      rw [hend] at hstates hsymbols
      dsimp only [Symbol.kind, Kind.precedence] at hstates hsymbols
      rw [Draft.complete?_operand hcomplete] at hstates hsymbols
      rcases List.map_eq_singleton_iff.1 hsymbols with ⟨token, htokens, hsymbol⟩
      have haction : State.top.action t.symbol.kind = .reduce .root := by rw [hend]; rfl
      have hproduct : (grammar.reduce .root ([token].reverse.map Token.symbol) N.context).product =
          .ok (.root e) := by
        simp only [List.reverse_singleton, List.map_cons, List.map_nil, hsymbol]
        rfl
      have hgoto : grammar.action .start (GrammarSymbol.kind (Symbol.root e)) =
          .shift .accepted := rfl
      -- The root leads to the state that accepts whatever it sees.
      rcases Machine.exists_step_reduce (G := grammar) mode hstates (hMN.head.trans hhead)
        hterminal haction (show N.states = [State.top] ++ State.start :: [] from hstates) rfl
        htokens rfl hproduct rfl hgoto with
        ⟨N', hstep, hstates', htokens', hsource, haccount⟩
      have hhead' : head N'.source = .ok (some t) := by
        rw [hsource, head_peek, hMN.head, hhead]
      rcases Machine.exists_halt_accept (G := grammar) mode hstates' hhead' hterminal rfl htokens'
        with ⟨N'', hhalt, haccount'⟩
      exact ⟨N', N'', hMN.leads.tail hstep, hhalt,
        haccount'.trans (haccount.trans hMN.account)⟩

end Arithmetic
end ShiftReduce
