import ShiftReduce.Proofs.Arithmetic.Phrase

/-!
# Drafts — what has been built of an expression while it is read

The stack of a run, its spans and its states left aside, is a draft: either an operand is due, or an
operand stands at the end.  To the left of both is a spine of open brackets and of operations that
wait for their right operand.  A new terminal first closes the operations that bind at least as
tightly as it does and then extends the draft.

* `Spine.unwind`: closes operations; `Draft.extend?` reads one terminal, `Draft.follow` many.
* `Draft.parse_eq_some_iff`: reading the terminals of a tree in which precedence is respected gives
  that tree back, and no other text has a tree.
* `Phrase.symbols_injective`: the stratified grammar is unambiguous.
-/

namespace ShiftReduce
namespace Arithmetic

/-! ## Spines -/

/-- What stands to the left of the operand that is read. -/
inductive Spine
  | start
  | opened (below : Spine)
  | after (below : Spine) (left : Expr) (op : Operator)

namespace Spine

def yield : Spine → List Symbol
  | .start => []
  | .opened S => S.yield ++ [.bracket .opening]
  | .after S left op => S.yield ++ (left.symbols ++ [.operator op])

def depth : Spine → Nat
  | .start => 0
  | .opened S => S.depth + 1
  | .after S _ _ => S.depth

/-- The least precedence of an operator that belongs to the operand behind the spine. -/
def level : Spine → Nat
  | .start => 1
  | .opened _ => 1
  | .after _ _ op => op.precedence + 1

/-- Closes the operations at the end of a spine whose operator binds at least as tightly as `n`;
their last right operand is `e`. -/
def unwind (n : Nat) : Spine → Expr → Spine × Expr
  | .start, e => (.start, e)
  | .opened S, e => (.opened S, e)
  | .after S left op, e =>
      if op.precedence < n then (.after S left op, e) else S.unwind n (.binary left op e)

/-- Every left operand respects precedence, and so does every operator. -/
def Sound : Spine → Prop
  | .start => True
  | .opened S => S.Sound
  | .after S left op => S.Sound ∧ S.level ≤ op.precedence ∧ left.Fits op.precedence

theorem level_le (S : Spine) : S.level ≤ 3 := by
  cases S with
  | after S left op => exact op.precedence_lt_three
  | _ => simp [level]

theorem yield_unwind (n : Nat) (S : Spine) (e : Expr) :
    (S.unwind n e).1.yield ++ (S.unwind n e).2.symbols = S.yield ++ e.symbols := by
  induction S generalizing e with
  | start => rfl
  | opened S ih => rfl
  | after S left op ih =>
      unfold unwind
      split
      · rfl
      · rw [ih]
        simp [yield, Expr.symbols]

theorem depth_unwind (n : Nat) (S : Spine) (e : Expr) : (S.unwind n e).1.depth = S.depth := by
  induction S generalizing e with
  | start => rfl
  | opened S ih => rfl
  | after S left op ih =>
      unfold unwind
      split
      · rfl
      · exact ih _

theorem unwind_eq_self {n : Nat} {S : Spine} (h : S.level ≤ n) (e : Expr) :
    S.unwind n e = (S, e) := by
  cases S with
  | start => rfl
  | opened S => rfl
  | after S left op => exact if_pos h

theorem level_unwind_le {n : Nat} (hn : 1 ≤ n) (S : Spine) (e : Expr) :
    (S.unwind n e).1.level ≤ n := by
  induction S generalizing e with
  | start => exact hn
  | opened S ih => exact hn
  | after S left op ih =>
      unfold unwind
      split
      · assumption
      · exact ih _

/-- In front of anything but an operator every operation is closed. -/
theorem unwind_zero_cases (S : Spine) (e : Expr) :
    (∃ whole, S.unwind 0 e = (.start, whole)) ∨
      ∃ below inner, S.unwind 0 e = (.opened below, inner) := by
  induction S generalizing e with
  | start => exact Or.inl ⟨e, rfl⟩
  | opened S ih => exact Or.inr ⟨S, e, rfl⟩
  | after S left op ih =>
      unfold unwind
      rw [if_neg (Nat.not_lt_zero _)]
      exact ih _

/-- Closing operations neither makes nor mends a breach of precedence. -/
theorem sound_unwind_iff (n : Nat) (S : Spine) (e : Expr) :
    (S.unwind n e).1.Sound ∧ (S.unwind n e).2.Fits (S.unwind n e).1.level ↔
      S.Sound ∧ e.Fits S.level := by
  induction S generalizing e with
  | start => exact Iff.rfl
  | opened S ih => exact Iff.rfl
  | after S left op ih =>
      unfold unwind
      split
      · exact Iff.rfl
      · -- What the spine says of the operation is what the tree says of its root.
        rw [ih]
        simp only [Sound, level, Expr.Fits]
        constructor
        · rintro ⟨hS, hle, hl, he⟩
          exact ⟨⟨hS, hle, hl⟩, he⟩
        · rintro ⟨⟨hS, hle, hl⟩, he⟩
          exact ⟨hS, hle, hl, he⟩

theorem fits_unwind {n : Nat} {S : Spine} {e : Expr} (hS : S.Sound) (he : e.Fits S.level)
    (hn : e.Fits n) : (S.unwind n e).2.Fits n := by
  induction S generalizing e with
  | start => exact hn
  | opened S ih => exact hn
  | after S left op ih =>
      unfold unwind
      split
      · exact hn
      · rename_i hlt
        obtain ⟨hS, hle, hl⟩ := hS
        exact ih hS ⟨hle, hl, he⟩ ⟨Nat.le_of_not_lt hlt, hl, he⟩

end Spine

/-! ## Drafts -/

inductive Draft
  | /-- An operand is due. -/ due (S : Spine)
  | /-- An operand stands at the end. -/ operand (S : Spine) (e : Expr)

namespace Draft

def empty : Draft :=
  .due .start

def yield : Draft → List Symbol
  | .due S => S.yield
  | .operand S e => S.yield ++ e.symbols

def extend? : Draft → Symbol → Option Draft
  | .due S, .atom a => some (.operand S (.atomic a))
  | .due S, .bracket .opening => some (.due (.opened S))
  | .operand S e, .operator op =>
      some (.due (.after (S.unwind op.precedence e).1 (S.unwind op.precedence e).2 op))
  | .operand S e, .bracket .closing =>
      match S.unwind 0 e with
      | (.opened below, inner) => some (.operand below (.bracketed inner))
      | _ => none
  | _, _ => none

def follow (D : Draft) (symbols : List Symbol) : Option Draft :=
  symbols.foldlM extend? D

/-- The tree of a draft that can end here. -/
def complete? : Draft → Option Expr
  | .due _ => none
  | .operand S e =>
      match S.unwind 0 e with
      | (.start, whole) => some whole
      | _ => none

def parse (symbols : List Symbol) : Option Expr :=
  (empty.follow symbols).bind complete?

/-- Precedence is respected, and the operand at the end is a factor. -/
def Sound : Draft → Prop
  | .due S => S.Sound
  | .operand S e => S.Sound ∧ e.Fits 3

@[simp] theorem follow_nil (D : Draft) : D.follow [] = some D :=
  rfl

@[simp] theorem follow_cons (D : Draft) (s : Symbol) (symbols : List Symbol) :
    D.follow (s :: symbols) = (D.extend? s).bind fun D' => D'.follow symbols := by
  rw [follow, List.foldlM_cons]
  rfl

theorem follow_append (D : Draft) (symbols symbols' : List Symbol) :
    D.follow (symbols ++ symbols') =
      (D.follow symbols).bind fun D' => D'.follow symbols' := by
  rw [follow, List.foldlM_append]
  rfl

theorem extend?_closing {S : Spine} {e : Expr} {D : Draft}
    (h : (operand S e).extend? (.bracket .closing) = some D) :
    ∃ below inner, S.unwind 0 e = (.opened below, inner) ∧
      D = .operand below (.bracketed inner) := by
  simp only [extend?] at h
  split at h
  · rename_i below inner heq
    exact ⟨below, inner, heq, (Option.some.inj h).symm⟩
  · cases h

theorem complete?_operand {S : Spine} {e whole : Expr}
    (h : (operand S e).complete? = some whole) : S.unwind 0 e = (.start, whole) := by
  simp only [complete?] at h
  split at h
  · rename_i heq
    rw [heq, Option.some.inj h]
  · cases h

/-! ### What one terminal does -/

theorem yield_extend {D D' : Draft} {s : Symbol} (h : D.extend? s = some D') :
    D'.yield = D.yield ++ [s] := by
  cases D with
  | due S =>
      cases s with
      | atom a => cases h; rfl
      | bracket b => cases b <;> cases h; rfl
      | _ => cases h
  | operand S e =>
      cases s with
      | operator op =>
          cases h
          -- Closing operations moves terminals from the spine into the operand.
          have hyield := S.yield_unwind op.precedence e
          simp only [yield, Spine.yield, ← hyield, List.append_assoc]
      | bracket b =>
          cases b with
          | opening => cases h
          | closing =>
              obtain ⟨below, inner, hunwind, rfl⟩ := extend?_closing h
              have hyield := S.yield_unwind 0 e
              rw [hunwind] at hyield
              simp only [yield, ← hyield, Spine.yield, Expr.symbols, List.append_assoc,
                List.cons_append, List.nil_append]
      | _ => cases h

theorem Sound.extend {D D' : Draft} {s : Symbol} (hD : D.Sound) (h : D.extend? s = some D') :
    D'.Sound := by
  cases D with
  | due S =>
      cases s with
      | atom a => cases h; exact ⟨hD, trivial⟩
      | bracket b => cases b <;> cases h; exact hD
      | _ => cases h
  | operand S e =>
      obtain ⟨hS, he⟩ := hD
      have hlevel : e.Fits S.level := he.mono S.level_le
      cases s with
      | operator op =>
          cases h
          refine ⟨((S.sound_unwind_iff _ e).2 ⟨hS, hlevel⟩).1,
            S.level_unwind_le op.one_le_precedence e, ?_⟩
          exact Spine.fits_unwind hS hlevel (he.mono (Nat.le_of_lt op.precedence_lt_three))
      | bracket b =>
          cases b with
          | opening => cases h
          | closing =>
              obtain ⟨below, inner, hunwind, rfl⟩ := extend?_closing h
              have hsound := (S.sound_unwind_iff 0 e).2 ⟨hS, hlevel⟩
              rw [hunwind] at hsound
              exact hsound
      | _ => cases h

/-! ### What a text does -/

theorem yield_follow {D D' : Draft} {symbols : List Symbol} (h : D.follow symbols = some D') :
    D'.yield = D.yield ++ symbols := by
  induction symbols generalizing D with
  | nil => cases h; simp
  | cons s symbols ih =>
      rw [follow_cons] at h
      obtain ⟨D₁, hs, hrest⟩ := Option.bind_eq_some_iff.1 h
      rw [ih hrest, yield_extend hs, List.append_assoc, List.singleton_append]

theorem Sound.follow {D D' : Draft} {symbols : List Symbol} (hD : D.Sound)
    (h : D.follow symbols = some D') : D'.Sound := by
  induction symbols generalizing D with
  | nil => cases h; exact hD
  | cons s symbols ih =>
      rw [follow_cons] at h
      obtain ⟨D₁, hs, hrest⟩ := Option.bind_eq_some_iff.1 h
      exact ih (hD.extend hs) hrest

theorem Sound.complete {D : Draft} {e : Expr} (hD : D.Sound) (h : D.complete? = some e) :
    e.Fits 1 := by
  cases D with
  | due S => cases h
  | operand S last =>
      have hsound := (S.sound_unwind_iff 0 last).2 ⟨hD.1, hD.2.mono S.level_le⟩
      rw [complete?_operand h] at hsound
      exact hsound.2

theorem symbols_complete {D : Draft} {e : Expr} (h : D.complete? = some e) :
    e.symbols = D.yield := by
  cases D with
  | due S => cases h
  | operand S last =>
      have hyield := S.yield_unwind 0 last
      rw [complete?_operand h] at hyield
      exact hyield

/-- Behind a spine that leaves room for it a tree is read to its end.  Its last operations may still
be open, but what comes next cannot tell: it closes them first. -/
theorem follow_symbols {e : Expr} {n : Nat} {S : Spine} (he : e.Fits n) (hS : S.level ≤ n) :
    ∃ S' e', (due S).follow e.symbols = some (operand S' e') ∧
      ∀ p ≤ n, S'.unwind p e' = S.unwind p e := by
  induction e generalizing n S with
  | atomic a => exact ⟨S, .atomic a, rfl, fun _ _ => rfl⟩
  | binary left op right ihl ihr =>
      obtain ⟨hop, hl, hr⟩ := he
      obtain ⟨S₁, e₁, hleft, hunwind⟩ := ihl hl (Nat.le_trans hS hop)
      -- The operator closes what its left operand left open and nothing else.
      have hclosed : S₁.unwind op.precedence e₁ = (S, left) := by
        rw [hunwind _ (Nat.le_refl _), Spine.unwind_eq_self (Nat.le_trans hS hop)]
      obtain ⟨S₂, e₂, hright, hunwind₂⟩ := ihr (S := .after S left op) hr (Nat.le_refl _)
      -- What comes next closes the right operand and then, if it binds no tighter, the operation.
      refine ⟨S₂, e₂, ?_, ?_⟩
      · rw [Expr.symbols, follow_append, hleft, Option.bind_some, follow_cons, extend?, hclosed,
          Option.bind_some]
        exact hright
      · intro p hp
        rw [hunwind₂ p (by omega)]
        exact if_neg (by omega)
  | bracketed inner ih =>
      obtain ⟨S₁, e₁, hinner, hunwind⟩ := ih (S := .opened S) he (Nat.le_refl _)
      -- The closing bracket closes everything down to its opening one.
      have hclosed : S₁.unwind 0 e₁ = (.opened S, inner) := hunwind 0 (by decide)
      refine ⟨S, .bracketed inner, ?_, fun _ _ => rfl⟩
      simp only [Expr.symbols, follow_cons, follow_append, extend?, Option.bind_some, hinner,
        hclosed, follow_nil]

theorem parse_eq_some_iff {symbols : List Symbol} {e : Expr} :
    parse symbols = some e ↔ e.symbols = symbols ∧ e.Fits 1 := by
  constructor
  · intro h
    obtain ⟨D, hfollow, hcomplete⟩ := Option.bind_eq_some_iff.1 h
    have hsound : D.Sound := Sound.follow (D := empty) trivial hfollow
    refine ⟨?_, hsound.complete hcomplete⟩
    rw [symbols_complete hcomplete, yield_follow hfollow]
    rfl
  · rintro ⟨rfl, he⟩
    obtain ⟨S, last, hfollow, hunwind⟩ := follow_symbols (S := .start) he (Nat.le_refl _)
    have hwhole : S.unwind 0 last = (.start, e) := hunwind 0 (by decide)
    rw [parse, empty, hfollow, Option.bind_some, complete?, hwhole]

end Draft

theorem Expr.symbols_injective {e e' : Expr} (he : e.Fits 1) (he' : e'.Fits 1)
    (h : e.symbols = e'.symbols) : e = e' := by
  have hparse := Draft.parse_eq_some_iff.2 ⟨h, he⟩
  rw [Draft.parse_eq_some_iff.2 ⟨rfl, he'⟩] at hparse
  exact (Option.some.inj hparse).symm

theorem Phrase.symbols_injective {d d' : Phrase .expression} (h : d.symbols = d'.symbols) :
    d = d' := by
  apply Phrase.tree_injective
  refine Expr.symbols_injective d.fits_tree d'.fits_tree ?_
  rw [d.symbols_tree, d'.symbols_tree, h]

theorem Draft.parse_eq_some_iff_phrase {symbols : List Symbol} {e : Expr} :
    parse symbols = some e ↔ ∃ d : Phrase .expression, d.symbols = symbols ∧ d.tree = e := by
  rw [parse_eq_some_iff]
  constructor
  · rintro ⟨rfl, he⟩
    obtain ⟨d, rfl⟩ := Expr.exists_phrase (σ := .expression) he
    exact ⟨d, d.symbols_tree.symm, rfl⟩
  · rintro ⟨d, rfl, rfl⟩
    exact ⟨d.symbols_tree, d.fits_tree⟩

end Arithmetic
end ShiftReduce
