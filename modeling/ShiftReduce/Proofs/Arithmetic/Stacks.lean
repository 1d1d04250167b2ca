import ShiftReduce.Proofs.Arithmetic.Simulation
import ShiftReduce.Proofs.Machine.Conservation

/-!
# Stacks — what the table asks for can be done

The stacks of a run show a draft, or the root on its own in front of an end marker.  On such stacks
a right-hand side that is to be reduced is there and has the shape that its production wants, its
left-hand side leads on, and only the root is accepted.  Every step keeps the stacks like that.

* `Stacked`: what the stacks look like; `Stacked.shift`, `Stacked.reduce`, `Stacked.accept`: what the
  table does with them.
* `Typed`, `Typed.step`: the machines of a run; `Coherent`: what the table can ask of them can be
  done.
* `Ends`, `Typed.ends_of_halt`: the ways in which a run can end.
-/

namespace ShiftReduce
namespace Arithmetic

open TokenSource

/-! ## Drafts and the table -/

theorem action_top_reduce {k : Kind} {p : Production} (h : State.top.action k = .reduce p) :
    k = .endMark ∧ p = .root := by
  cases k <;> cases h
  exact ⟨rfl, rfl⟩

theorem action_rhs_reduce {op : Operator} {k : Kind} {p : Production}
    (h : (State.rhs op).action k = .reduce p) : p = .binary := by
  cases k with
  | operator op' =>
      rw [State.action] at h
      split at h <;> cases h
      rfl
  | _ => cases h; rfl

theorem eq_accepted_of_accept {state : State} {k : Kind} (h : state.action k = .accept) :
    state = .accepted := by
  have hall : ∀ s ∈ State.all, ∀ k ∈ Kind.all, s.action k = .accept → s = .accepted := by decide
  exact hall state state.mem_all k k.mem_all h

theorem action_ne_shift_accepted {state : State} {s : Symbol} (h : s.isTerminal = true) :
    state.action s.kind ≠ .shift .accepted := by
  have hall : ∀ s ∈ State.all, ∀ k ∈ Kind.all, k.isTerminal = true →
      s.action k ≠ .shift .accepted := by decide
  exact hall state state.mem_all s.kind s.kind.mem_all (s.isTerminal_eq.symm.trans h)

theorem isEnd_of_kind {s : Symbol} (h : s.kind = .endMark) : s.isEnd = true := by
  cases s with
  | endMark => rfl
  | atom a => cases a <;> cases h
  | _ => cases h

theorem Spine.action_state_ne_reduce (S : Spine) (k : Kind) (p : Production) :
    S.state.action k ≠ .reduce p := by
  intro h
  cases S <;> cases k with
  | bracket b => cases b <;> cases h
  | _ => cases h

theorem Spine.goto_ne_accepted (S : Spine) : S.goto ≠ .accepted := by
  cases S <;> exact State.noConfusion

namespace Draft.Shows

variable {D : Draft} {S : Spine} {state target : State} {lower : List State}
  {symbols : List Symbol} {e : Expr} {s : Symbol} {k : Kind} {p : Production}

theorem shift_due (hterminal : s.isTerminal = true)
    (haction : S.state.action s.kind = .shift target) :
    ∃ D : Draft, D.Shows (target :: S.states) (s :: S.stacked) := by
  cases hextend : (Draft.due S).extend? s with
  | none =>
      rw [Spine.action_state_of_refuse hterminal hextend] at haction
      cases haction
  | some D =>
      rcases Draft.exists_shift_due hextend with ⟨target', haction', hshows⟩
      rw [haction] at haction'
      cases haction'
      exact ⟨D, hshows⟩

/-- Behind a whole expression only operators and a closing bracket are shifted. -/
theorem shift_whole (haction : S.goto.action s.kind = .shift target) :
    ∃ D : Draft, D.Shows (target :: S.goto :: S.states) (s :: .expression e :: S.stacked) := by
  cases s with
  | operator op =>
      have htarget : target = .after op := by
        cases S with
        | start | opened => cases haction; rfl
        | after S left op' =>
            by_cases hlt : op'.precedence < op.precedence
            · rw [Spine.goto, Symbol.kind, State.action, if_pos hlt] at haction
              cases haction; rfl
            · rw [Spine.goto, Symbol.kind, State.action, if_neg hlt] at haction
              cases haction
      rw [htarget]
      exact ⟨.due (.after S e op), .due _⟩
  | bracket b =>
      cases S with
      | opened S =>
          cases b with
          | opening => cases haction
          | closing =>
              cases haction
              exact ⟨.operand S (.bracketed e), .closed S e⟩
      | start | after => cases b <;> cases haction
  | atom a => cases a <;> cases S <;> cases haction
  | _ => cases S <;> cases haction

theorem shift (h : D.Shows (state :: lower) symbols) (hterminal : s.isTerminal = true)
    (haction : state.action s.kind = .shift target) :
    ∃ D : Draft, D.Shows (target :: state :: lower) (s :: symbols) := by
  generalize hstates : state :: lower = states at h ⊢
  cases h with
  | due S =>
      rcases S.exists_states_eq with ⟨rest, hrest⟩
      cases hstates.trans hrest
      exact shift_due hterminal haction
  | whole S e =>
      cases hstates
      exact shift_whole haction
  | number | var | closed =>
      cases hstates
      cases haction

end Draft.Shows

/-! ## Stacks -/

/-- On these stacks the production can be reduced to `lhs`: its right-hand side is there and has the
right shape, and from the state `base` below it the left-hand side leads on to `target`. -/
structure Reducible (p : Production) (states : List State) (symbols : List Symbol) (lhs : Symbol)
    (base target : State) : Prop where
  size_le : p.size ≤ symbols.length
  build : p.build? (symbols.take p.size).reverse = some lhs
  nonterminal : lhs.isTerminal = false
  base_eq : ∃ below, states.drop p.size = base :: below
  goto : base.action lhs.kind = .shift target

/-- The stacks show a draft, or hold nothing but the root. -/
inductive Stacked : List State → List Symbol → Prop
  | draft (D : Draft) {states : List State} {symbols : List Symbol} (h : D.Shows states symbols) :
      Stacked states symbols
  | root (e : Expr) : Stacked [.accepted, .start] [.root e]

namespace Stacked

variable {state target : State} {lower : List State} {symbols : List Symbol} {k : Kind}

theorem start : Stacked [.start] [] :=
  .draft .empty (.due .start)

theorem exists_states_eq {states : List State} (h : Stacked states symbols) :
    ∃ state lower, states = state :: lower := by
  cases h with
  | draft D h => exact h.exists_states_eq
  | root e => exact ⟨_, _, rfl⟩

theorem shift {s : Symbol} (h : Stacked (state :: lower) symbols)
    (hterminal : s.isTerminal = true) (haction : state.action s.kind = .shift target) :
    Stacked (target :: state :: lower) (s :: symbols) := by
  generalize hstates : state :: lower = states at h ⊢
  cases h with
  | root e =>
      cases hstates
      cases haction
  | draft D h =>
      subst hstates
      rcases h.shift hterminal haction with ⟨D', hD'⟩
      exact .draft D' hD'

/-- A reduction to an expression leaves a whole expression behind the spine. -/
theorem reduce_onto (S : Spine) {e : Expr} {p : Production} (popped : List State)
    (upper : List Symbol) (hpopped : popped.length = p.size) (hupper : upper.length = p.size)
    (hbuild : p.build? upper.reverse = some (.expression e)) :
    ∃ lhs base target,
      Reducible p (popped ++ S.states) (upper ++ S.stacked) lhs base target ∧
      Stacked (target :: (popped ++ S.states).drop p.size)
        (lhs :: (upper ++ S.stacked).drop p.size) ∧
      (target = .accepted → k = .endMark) := by
  rcases S.exists_states_eq with ⟨below, hbelow⟩
  have hstates : (popped ++ S.states).drop p.size = S.states := by
    rw [← hpopped, List.drop_left]
  refine ⟨.expression e, S.state, S.goto, ⟨?_, ?_, rfl, ?_, ?_⟩, ?_, ?_⟩
  · rw [List.length_append, hupper]
    exact Nat.le_add_right _ _
  · rw [← hupper, List.take_left, hbuild]
  · exact ⟨below, hstates.trans hbelow⟩
  · exact S.action_state_expression
  · rw [hstates, ← hupper, List.drop_left]
    exact .draft (.operand S e) (.whole S e)
  · exact fun h => absurd h S.goto_ne_accepted

/-- In front of what the table reduces there is a whole right-hand side, and its left-hand side leads
on.  The end marker alone has the root reduced. -/
theorem reduce {p : Production} (h : Stacked (state :: lower) symbols)
    (haction : state.action k = .reduce p) :
    ∃ lhs base target, Reducible p (state :: lower) symbols lhs base target ∧
      Stacked (target :: (state :: lower).drop p.size) (lhs :: symbols.drop p.size) ∧
      (target = .accepted → k = .endMark) := by
  generalize hstates : state :: lower = states at h ⊢
  cases h with
  | root e =>
      cases hstates
      cases haction
  | draft D h =>
      cases h with
      | due S =>
          rcases S.exists_states_eq with ⟨rest, hrest⟩
          cases hstates.trans hrest
          exact absurd haction (S.action_state_ne_reduce k p)
      | whole S e =>
          cases hstates
          cases S with
          | start =>
              obtain ⟨rfl, rfl⟩ := action_top_reduce haction
              exact ⟨.root e, .start, .accepted, ⟨Nat.le_refl 1, rfl, rfl, ⟨[], rfl⟩, rfl⟩, .root e,
                fun _ => rfl⟩
          | opened S =>
              -- Inside brackets an expression is never reduced any further.
              cases k with
              | bracket b => cases b <;> cases haction
              | _ => cases haction
          | after S left op =>
              obtain rfl := action_rhs_reduce haction
              exact reduce_onto S [.rhs op, .after op, S.goto]
                [.expression e, .operator op, .expression left] rfl rfl rfl
      | number S value =>
          cases hstates
          cases haction
          exact reduce_onto S [.number] [.number value] rfl rfl rfl
      | var S name =>
          cases hstates
          cases haction
          exact reduce_onto S [.var] [.var name] rfl rfl rfl
      | closed S inner =>
          cases hstates
          cases haction
          exact reduce_onto S [.closed, .inner, .opened]
            [.bracket .closing, .expression inner, .bracket .opening] rfl rfl rfl

/-- Below the state that accepts there is nothing but the root. -/
theorem eq_root_of_accepted (h : Stacked (.accepted :: lower) symbols) :
    ∃ e, symbols = [.root e] := by
  generalize hstates : State.accepted :: lower = states at h
  cases h with
  | root e => exact ⟨e, rfl⟩
  | draft D h =>
      cases h with
      | due S => cases S <;> cases hstates
      | whole S e => exact absurd (List.cons.inj hstates).1.symm S.goto_ne_accepted
      | number | var | closed => cases hstates

theorem accept (h : Stacked (state :: lower) symbols) (haction : state.action k = .accept) :
    ∃ e, symbols = [.root e] := by
  cases eq_accepted_of_accept haction
  exact h.eq_root_of_accepted

end Stacked

/-! ## Machines -/

variable {Source : Type} [TokenSource Source Symbol] {mode : ErrorMode}
  {M N N' : Automaton Source}

omit [TokenSource Source Symbol] in
theorem Reducible.not_underflow {p : Production} {lhs : Symbol} {base target : State}
    (h : Reducible p M.states M.symbols lhs base target) :
    ¬((M.handle grammar p).length < p.size ∨ M.states.drop p.size = []) := by
  obtain ⟨below, hbase⟩ := h.base_eq
  have hsize := h.size_le
  rw [Automaton.symbols, List.length_map] at hsize
  have hlength : (M.handle grammar p).length = p.size := by
    rw [Machine.handle, List.length_reverse, List.length_take]
    exact Nat.min_eq_left hsize
  rw [hlength, hbase]
  simp

/-- The machine of a run: its stacks are in order, and it is about to accept only in front of an end
marker. -/
structure Typed (N : Automaton Source) : Prop where
  stacked : Stacked N.states N.symbols
  ended : N.states.head? = some .accepted →
    ∃ t, head N.source = .ok (some t) ∧ t.symbol.isEnd = true

/-- Whatever the lookahead is: what the table asks for can be done.  A reduction finds its
right-hand side and a state that its left-hand side leads on from, and what is accepted is the root,
which is all there is on the stack. -/
def Coherent (N : Automaton Source) : Prop :=
  ∃ state lower, N.states = state :: lower ∧ ∀ k,
    (∀ p, state.action k = .reduce p →
      ∃ lhs base target, Reducible p N.states N.symbols lhs base target) ∧
    (state.action k = .accept → ∃ e, N.symbols = [.root e])

omit [TokenSource Source Symbol] in
theorem product_reduction {p : Production} {lhs : Symbol}
    (h : p.build? (M.symbols.take p.size).reverse = some lhs) :
    (M.reduction grammar p).product = .ok lhs := by
  have hhandle : (M.handle grammar p).map Token.symbol = (M.symbols.take p.size).reverse := by
    simp only [Machine.handle, Automaton.symbols, grammar, List.map_reverse, List.map_take]
  rw [Machine.reduction, hhandle]
  simp only [grammar, Production.reduce, h]

namespace Typed

theorem coherent (h : Typed N) : Coherent N := by
  rcases h.stacked.exists_states_eq with ⟨state, lower, hstates⟩
  have hstacked := h.stacked
  rw [hstates] at hstacked
  refine ⟨state, lower, hstates, fun k => ⟨fun p haction => ?_, hstacked.accept⟩⟩
  rcases hstacked.reduce haction with ⟨lhs, base, target, hreducible, _⟩
  rw [hstates]
  exact ⟨lhs, base, target, hreducible⟩

theorem reset (M : Automaton Source) : Typed (M.reset grammar.start) :=
  ⟨.start, fun h => State.noConfusion (Option.some.inj h)⟩

theorem stacked_of_meets {state : State} {t : Token Symbol} (h : Typed M)
    (hmeets : M.Meets state t) :
    ∃ lower, M.states = state :: lower ∧ Stacked (state :: lower) M.symbols := by
  obtain ⟨lower, hstates⟩ := hmeets.states
  exact ⟨lower, hstates, hstates ▸ h.stacked⟩

theorem reducible {state : State} {t : Token Symbol} {p : Production} (h : Typed M)
    (hmeets : M.Meets state t) (haction : state.action t.symbol.kind = .reduce p) :
    ∃ lhs base target, Reducible p M.states M.symbols lhs base target := by
  obtain ⟨lower, hstates, hstacked⟩ := h.stacked_of_meets hmeets
  obtain ⟨lhs, base, target, hreducible, _⟩ := hstacked.reduce haction
  rw [hstates]
  exact ⟨lhs, base, target, hreducible⟩

theorem accepting {state : State} {t : Token Symbol} (h : Typed M) (hmeets : M.Meets state t)
    (haction : state.action t.symbol.kind = .accept) :
    ∃ e u, M.symbols = [.root e] ∧ head M.source = .ok (some u) ∧ u.symbol.isEnd = true := by
  obtain ⟨lower, hstates, hstacked⟩ := h.stacked_of_meets hmeets
  obtain ⟨e, hroot⟩ := hstacked.accept haction
  cases eq_accepted_of_accept haction
  obtain ⟨u, hu⟩ := h.ended (by rw [hstates]; rfl)
  exact ⟨e, u, hroot, hu⟩

variable [FaithfulSource Source]

/-- Every step that goes on keeps the stacks in order. -/
theorem step (h : Typed M) (hstep : M.step grammar mode = .next N) : Typed N := by
  cases Machine.effect_of_step hstep with
  | @shift state target t u hmeets haction htaken =>
      cases htaken.symm.trans hmeets.answer_taken
      obtain ⟨lower, hstates, hstacked⟩ := h.stacked_of_meets hmeets
      refine ⟨?_, fun htop => ?_⟩
      · change Stacked (target :: M.states) (t.symbol :: M.symbols)
        rw [hstates]
        exact hstacked.shift hmeets.terminal haction
      · cases Option.some.inj htop
        exact absurd haction (action_ne_shift_accepted hmeets.terminal)
  | @reduce state base target t p below lhs hmeets haction _ hbase hproduct _ hgoto =>
      obtain ⟨lower, hstates, hstacked⟩ := h.stacked_of_meets hmeets
      obtain ⟨lhs', base', target', hreducible, hleft, hend⟩ := hstacked.reduce haction
      -- What the table finds is what there is.
      rw [← hstates] at hreducible hleft
      obtain rfl : lhs = lhs' := by
        rw [product_reduction hreducible.build] at hproduct
        exact (Except.ok.inj hproduct).symm
      obtain ⟨below', hbase'⟩ := hreducible.base_eq
      cases hbase.symm.trans hbase'
      cases hgoto.symm.trans hreducible.goto
      refine ⟨?_, fun htop => ⟨t, hmeets.head_looked, ?_⟩⟩
      · change Stacked (target :: M.states.drop p.size)
          (lhs :: (M.tokens.drop p.size).map Token.symbol)
        rw [List.map_drop]
        exact hleft
      · exact isEnd_of_kind (hend (Option.some.inj htop))
  | @discard state t u answer hmeets haction =>
      refine ⟨h.stacked, fun htop => ?_⟩
      obtain ⟨lower, hstates, _⟩ := h.stacked_of_meets hmeets
      change M.states.head? = _ at htop
      rw [hstates] at htop
      cases Option.some.inj htop
      cases haction

end Typed

/-! ## How a run ends -/

/-- The ways in which a machine of a run can halt, with what its source shows then.  The last but one
is a word of the source itself. -/
inductive Ends (mode : ErrorMode) (N : Automaton Source) : Except Diagnostic Symbol → Prop
  | tree {t : Token Symbol} (e : Expr) (hhead : head N.source = .ok (some t))
      (hend : t.symbol.isEnd = true) : Ends mode N (.ok (.root e))
  | unexpectedEnd {t : Token Symbol} (hhead : head N.source = .ok (some t))
      (hend : t.symbol.isEnd = true) : Ends mode N (.error (.unexpectedEnd t.span))
  | unexpected {t : Token Symbol} (hmode : mode = .abort) (hhead : head N.source = .ok (some t))
      (hend : t.symbol.isEnd = false) : Ends mode N (.error t.complaint)
  | exhausted (hhead : head N.source = .ok none) (span : Option Span) :
      Ends mode N (.error (.streamExhausted span))
  | source {d : Diagnostic} (hhead : head N.source = .error d) : Ends mode N (.error d)
  | stray {t : Token Symbol} (hhead : head N.source = .ok (some t))
      (hterminal : t.symbol.isTerminal = false) :
      Ends mode N (.error (.ofFault (.nonterminalLookahead t.symbol.kind.name)))

variable [FaithfulSource Source]

/-- None of the contradictions between table, reductions and stacks can come up. -/
theorem Typed.ends_of_halt {result : Except Diagnostic Symbol} (h : Typed N)
    (hhalt : N.step grammar mode = .halt result N') : Ends mode N result := by
  cases Machine.effect_of_step hhalt with
  | unready hstates =>
      rcases h.stacked.exists_states_eq with ⟨state, lower, hcons⟩
      cases hstates.symm.trans hcons
  | sourceFailed _ hhead => exact .source hhead
  | exhausted _ hhead => exact .exhausted hhead _
  | stray _ hhead hterminal => exact .stray hhead hterminal
  | shiftFailed hmeets _ htaken => cases htaken.symm.trans hmeets.answer_taken
  | lost hmeets _ htaken => cases htaken.symm.trans hmeets.answer_taken
  -- A reduction that is asked for can be done.
  | underflow hmeets haction hsize =>
      obtain ⟨lhs, base, target, hreducible⟩ := h.reducible hmeets haction
      exact absurd hsize hreducible.not_underflow
  | refused hmeets haction _ _ hproduct =>
      obtain ⟨lhs, base, target, hreducible⟩ := h.reducible hmeets haction
      cases hproduct.symm.trans (product_reduction hreducible.build)
  | terminalProduct hmeets haction _ _ hproduct hlhs =>
      obtain ⟨lhs, base, target, hreducible⟩ := h.reducible hmeets haction
      cases hproduct.symm.trans (product_reduction hreducible.build)
      cases hlhs.symm.trans hreducible.nonterminal
  | missingGoto hmeets haction _ hbase hproduct _ hgoto =>
      obtain ⟨lhs, base, target, hreducible⟩ := h.reducible hmeets haction
      cases hproduct.symm.trans (product_reduction hreducible.build)
      obtain ⟨below, hbase'⟩ := hreducible.base_eq
      cases hbase.symm.trans hbase'
      exact absurd hreducible.goto (hgoto target)
  -- What is accepted is the root.
  | accept hmeets haction htokens =>
      obtain ⟨e, t, hroot, hhead, hend⟩ := h.accepting hmeets haction
      rw [Automaton.symbols, htokens] at hroot
      obtain hroot := (List.cons.inj hroot).1
      rw [hroot]
      exact .tree e hhead hend
  | acceptDepth hmeets haction hdepth =>
      obtain ⟨e, t, hroot, _⟩ := h.accepting hmeets haction
      have hlength := congrArg List.length hroot
      rw [Automaton.symbols, List.length_map] at hlength
      exact absurd hlength hdepth
  | relookFailed hmeets _ hagain => cases hagain.symm.trans hmeets.head_looked
  | vanished hmeets _ hagain => cases hagain.symm.trans hmeets.head_looked
  | ended hmeets _ hagain hend =>
      cases hagain.symm.trans hmeets.head_looked
      exact .unexpectedEnd hmeets.head hend
  | aborted hmeets _ hagain hend hmode =>
      cases hagain.symm.trans hmeets.head_looked
      exact .unexpected hmode hmeets.head hend
  | discardFailed hmeets _ _ _ _ htaken => cases htaken.symm.trans (hmeets.answer_dropped _)

theorem typed_of_leads (h : Machine.Leads grammar mode (M.reset grammar.start) N) : Typed N :=
  h.keeps Typed.step (.reset M)

end Arithmetic
end ShiftReduce
