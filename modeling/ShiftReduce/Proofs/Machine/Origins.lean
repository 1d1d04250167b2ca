import ShiftReduce.Proofs.Machine.Yield
import ShiftReduce.Proofs.Text.Hull

/-!
# Origins — what each stacked token was built from

The events of a run tell which tokens of the source went into each token on the stack: one that was
shifted is made of itself, and one that was built is made of all that its right-hand side was made
of.  From the bottom up these are the tokens that were shifted, in their order.  What holds of
shifted tokens and is handed on by reductions holds of every stacked token and its origins; so the
span of a stacked token is the hull of the spans of its origins.

* `Event.regroup`, `Machine.origins`: the origins of the stacked tokens, read off the events.
* `Grammar.Builds`: the symbols that reductions build from tokens.
* `Grammar.Inherited`: what reductions hand on; `Grammar.inherited_hull`: hulls of spans.
* `Machine.Grouped`, `Machine.Leads.grouped`: the origins are what was shifted.
* `Machine.Leads.forall₂_origins`: stacked tokens and their origins have what is inherited.
-/

namespace ShiftReduce

open TokenSource

variable {State Production Symbol Kind Context Source : Type}

/-- What an event does to the groups of tokens, the top of the stack first, that stacked tokens are
made of. -/
@[simp] def Event.regroup (G : Grammar State Production Symbol Kind Context) :
    Event State Production Symbol Kind → List (List (Token Symbol)) → List (List (Token Symbol))
  | .shifted lookahead _, groups => [lookahead] :: groups
  | .reduced p, groups =>
      (groups.take (G.size p)).reverse.flatten :: groups.drop (G.size p)
  | _, groups => groups

/-- The symbol is built from these tokens, by reductions of groups of them. -/
inductive Grammar.Builds (G : Grammar State Production Symbol Kind Context) :
    List (Token Symbol) → Symbol → Prop
  | token (t : Token Symbol) : G.Builds [t] t.symbol
  | product {p : Production} {c : Context} {groups : List (List (Token Symbol))}
      {rhs : List Symbol} {lhs : Symbol} (parts : List.Forall₂ G.Builds groups rhs)
      (hsize : rhs.length = G.size p) (hproduct : (G.reduce p rhs c).product = .ok lhs) :
      G.Builds groups.flatten lhs

namespace Grammar

/-- A property of tokens and what they are made of holds of tokens that are made of themselves, and
is handed on from a right-hand side to the left-hand side. -/
structure Inherited (G : Grammar State Production Symbol Kind Context)
    (P : List (Token Symbol) → Token Symbol → Prop) : Prop where
  shift : ∀ t, P [t] t
  reduce : ∀ {p : Production} {c : Context} {groups : List (List (Token Symbol))}
    {ts : List (Token Symbol)} {lhs : Symbol}, List.Forall₂ P groups ts → ts.length = G.size p →
      (G.reduce p (ts.map Token.symbol) c).product = .ok lhs →
      P groups.flatten ⟨lhs, Token.coveringSpan ts⟩

variable (G : Grammar State Production Symbol Kind Context)

/-- Symbols are built from what they are made of. -/
theorem inherited_builds : G.Inherited fun group t => G.Builds group t.symbol where
  shift := .token
  reduce hparts hsize hproduct :=
    .product (List.forall₂_map_right_iff.2 hparts) ((List.length_map _).trans hsize) hproduct

/-- The span of a token is the hull of the spans of what it is made of. -/
theorem inherited_hull :
    G.Inherited fun group t => Span.HullOf (Token.spans group) t.span where
  shift := Token.hullOf_spans_singleton
  reduce hparts _ _ := Token.hullOf_coveringSpan hparts

/-- If no right-hand side is empty, every token is made of some token. -/
theorem inherited_ne_nil (hsize : ∀ p, 0 < G.size p) :
    G.Inherited fun group (_ : Token Symbol) => group ≠ [] where
  shift _ := List.cons_ne_nil _ _
  reduce {p} _ _ _ _ hparts hlength _ := by
    have hpos := hsize p
    cases hparts with
    | nil => exact absurd hlength (Nat.ne_of_lt hpos)
    | cons hfirst _ => exact List.append_ne_nil_of_left_ne_nil hfirst _

end Grammar

namespace Machine

/-- The tokens of the source that the stacked tokens were built from, top first. -/
def origins (G : Grammar State Production Symbol Kind Context)
    (M : Machine State Production Symbol Kind Context Source) : List (List (Token Symbol)) :=
  M.events.foldr (Event.regroup G) []

/-! ## Origins in the middle of a step -/

section Stages

variable (G : Grammar State Production Symbol Kind Context)
  (M : Machine State Production Symbol Kind Context Source)

@[simp] theorem origins_record (e : Event State Production Symbol Kind) :
    (M.record e).origins G = e.regroup G (M.origins G) :=
  rfl

@[simp] theorem origins_recordNotes (notes : List Note) :
    (M.recordNotes notes).origins G = M.origins G := by
  have hnotes : ∀ (notes : List Note) (groups : List (List (Token Symbol))),
      ((notes.map Event.noted).foldr (Event.regroup G) groups) = groups := by
    intro notes groups
    induction notes with
    | nil => rfl
    | cons n notes ih => exact ih
  rw [origins, recordNotes, List.foldr_append, ← List.map_reverse, hnotes]
  rfl

@[simp] theorem origins_absorb (pull : Pull Source Symbol) :
    (M.absorb pull).origins G = M.origins G :=
  M.origins_recordNotes G pull.notes

@[simp] theorem origins_tally (f : RunStats → RunStats) : (M.tally f).origins G = M.origins G :=
  rfl

@[simp] theorem origins_push (token : Token Symbol) (state : State) :
    (M.push token state).origins G = M.origins G :=
  rfl

@[simp] theorem origins_report (d : Diagnostic) : (M.report d).origins G = M.origins G :=
  rfl

variable [TokenSource Source Symbol]

@[simp] theorem origins_examined (t : Token Symbol) : (M.examined t).origins G = M.origins G :=
  M.origins_absorb G _

@[simp] theorem origins_taken (t : Token Symbol) (target : State) :
    (M.taken t target).origins G = [t] :: M.origins G := by
  rw [taken, origins_absorb, origins_record, origins_examined]
  rfl

@[simp] theorem origins_popped (t : Token Symbol) (p : Production) :
    (M.popped G t p).origins G =
      ((M.origins G).take (G.size p)).reverse.flatten :: (M.origins G).drop (G.size p) := by
  have hrecord := (M.examined t).origins_record G (.reduced p)
  rw [origins_examined] at hrecord
  exact (origins_recordNotes G _ _).trans hrecord

@[simp] theorem origins_dropped (t u : Token Symbol) (error : Diagnostic) (state : State) :
    (M.dropped t u error state).origins G = M.origins G := by
  rw [dropped, origins_absorb, origins_report, origins_record, relooked, origins_absorb,
    origins_examined]
  rfl

end Stages

/-! ## Induction on a run -/

/-- From the bottom up, group behind group, the origins are the tokens that were shifted. -/
def Grouped (G : Grammar State Production Symbol Kind Context)
    (M : Machine State Production Symbol Kind Context Source) : Prop :=
  (M.origins G).reverse.flatten = M.kept.reverse

section Moves

variable {G : Grammar State Production Symbol Kind Context}
  {M N : Machine State Production Symbol Kind Context Source}

theorem grouped_reset (M : Machine State Production Symbol Kind Context Source) (start : State) :
    (M.reset start).Grouped G :=
  rfl

theorem Grouped.shift {t : Token Symbol} (h : M.Grouped G)
    (horigins : N.origins G = [t] :: M.origins G) (hkept : N.kept = t :: M.kept) :
    N.Grouped G := by
  rw [Grouped, horigins, hkept, List.reverse_cons, List.flatten_append, h, List.flatten_singleton,
    List.reverse_cons]

/-- The groups of a right-hand side are put together where they are. -/
theorem Grouped.reduce {p : Production} (h : M.Grouped G)
    (horigins : N.origins G =
      ((M.origins G).take (G.size p)).reverse.flatten :: (M.origins G).drop (G.size p))
    (hkept : N.kept = M.kept) : N.Grouped G := by
  have hsplit : (M.origins G).reverse =
      ((M.origins G).drop (G.size p)).reverse ++ ((M.origins G).take (G.size p)).reverse := by
    rw [← List.reverse_append, List.take_append_drop]
  calc (N.origins G).reverse.flatten
      = ((M.origins G).drop (G.size p)).reverse.flatten ++
          ((M.origins G).take (G.size p)).reverse.flatten := by
        rw [horigins, List.reverse_cons, List.flatten_append, List.flatten_singleton]
    _ = (M.origins G).reverse.flatten := by rw [hsplit, List.flatten_append]
    _ = M.kept.reverse := h
    _ = N.kept.reverse := by rw [hkept]

end Moves

variable [TokenSource Source Symbol] [GrammarSymbol Symbol Kind] [ToString State] [ToString Kind]
  [HonestSource Source] {G : Grammar State Production Symbol Kind Context} {mode : ErrorMode}
  {M N : Machine State Production Symbol Kind Context Source}

theorem Grouped.next (h : M.Grouped G) (hstep : M.step G mode = .next N) : N.Grouped G := by
  cases effect_of_step hstep with
  | @shift _ _ t _ hmeets _ htaken =>
      -- An honest source hands over the token that is written down.
      cases HonestSource.eq_of_consume_peek _ _ _ hmeets.head htaken
      exact h.shift (t := t) (by simp) (by simp [kept])
  | @reduce _ _ _ _ p => exact h.reduce (p := p) (by simp) (by simp [kept])
  | discard =>
      unfold Grouped at h ⊢
      simpa [kept] using h

/-- What is inherited by stacked tokens holds of what is on the stack, after every step. -/
theorem forall₂_origins_next {P : List (Token Symbol) → Token Symbol → Prop} (hP : G.Inherited P)
    (h : List.Forall₂ P (M.origins G) M.tokens) (hstep : M.step G mode = .next N) :
    List.Forall₂ P (N.origins G) N.tokens := by
  cases effect_of_step hstep with
  | @shift _ target t _ hmeets _ htaken =>
      cases HonestSource.eq_of_consume_peek _ _ _ hmeets.head htaken
      rw [origins_tally, origins_push, origins_taken]
      exact .cons (hP.shift t) h
  | @reduce _ _ _ t p _ lhs _ _ hsize _ hproduct =>
      rw [origins_tally, origins_push, origins_record, origins_tally, origins_popped]
      have hparts : List.Forall₂ P ((M.origins G).take (G.size p)).reverse (M.handle G p) :=
        List.rel_reverse (List.forall₂_take _ h)
      exact .cons (hP.reduce hparts hsize hproduct) (List.forall₂_drop _ h)
  | discard =>
      rw [origins_tally, origins_dropped]
      exact h

theorem Leads.forall₂_origins {P : List (Token Symbol) → Token Symbol → Prop}
    (hleads : Leads G mode (M.reset G.start) N) (hP : G.Inherited P) :
    List.Forall₂ P (N.origins G) N.tokens :=
  hleads.keeps (P := fun K => List.Forall₂ P (K.origins G) K.tokens)
    (forall₂_origins_next hP) .nil

theorem Leads.grouped (hleads : Leads G mode (M.reset G.start) N) : N.Grouped G :=
  hleads.keeps Grouped.next (grouped_reset M G.start)

/-! ## What is on the stack -/

/-- If no right-hand side is empty, the token on top of the stack is built from the last tokens that
were shifted. -/
theorem Leads.exists_top (hsize : ∀ p, 0 < G.size p) (hleads : Leads G mode (M.reset G.start) N)
    (hkept : N.kept ≠ []) :
    ∃ t lower below group last, N.tokens = t :: lower ∧
      N.kept.reverse = below ++ (group ++ [last]) ∧
      Span.HullOf (Token.spans (group ++ [last])) t.span := by
  have hflatten : (N.origins G).reverse.flatten = N.kept.reverse := hleads.grouped
  have hhulls := hleads.forall₂_origins G.inherited_hull
  have hsome := hleads.forall₂_origins (G.inherited_ne_nil hsize)
  cases horigins : N.origins G with
  | nil =>
      rw [horigins] at hflatten
      exact absurd (List.reverse_eq_nil_iff.1 hflatten.symm) hkept
  | cons top groups =>
      rw [horigins] at hflatten hhulls hsome
      obtain ⟨t, lower, htop, -, htokens⟩ := List.forall₂_cons_left_iff.1 hhulls
      obtain ⟨t', lower', hne, -⟩ := List.forall₂_cons_left_iff.1 hsome
      refine ⟨t, lower, groups.reverse.flatten, top.dropLast, top.getLast hne, htokens, ?_, ?_⟩
      · rw [← hflatten, List.reverse_cons, List.flatten_append, List.flatten_singleton,
          List.dropLast_concat_getLast hne]
      · rw [List.dropLast_concat_getLast hne]
        exact htop

end Machine
end ShiftReduce
