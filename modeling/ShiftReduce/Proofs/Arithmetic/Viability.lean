import ShiftReduce.Proofs.Arithmetic.Draft

/-!
# Viability — which texts can still become sentences

Trees and precedence decide how a text is grouped, but not whether it has a tree.  That depends on
two things alone: how many brackets are open, and whether an operand is due.

* `Place.next?`: how a terminal changes the two; `Draft.place_extend` relates it to drafts.
* `sentence_iff_follow`, `viable_iff_follow`: sentences and their beginnings.
* `Draft.Placed.extend_isSome_iff`: a draft has a place for exactly the terminals that keep it viable.
-/

namespace ShiftReduce
namespace Arithmetic

/-- What matters of a text for how it may go on, with the number of open brackets. -/
inductive Place
  | /-- An operand is due. -/ due (depth : Nat)
  | /-- An operand stands at the end. -/ behind (depth : Nat)
  deriving DecidableEq, Repr

namespace Place

def next? : Place → Symbol → Option Place
  | .due depth, .atom _ => some (.behind depth)
  | .due depth, .bracket .opening => some (.due (depth + 1))
  | .behind depth, .operator _ => some (.due depth)
  | .behind (depth + 1), .bracket .closing => some (.behind depth)
  | _, _ => none

def follow (P : Place) (symbols : List Symbol) : Option Place :=
  symbols.foldlM next? P

/-- A shortest text that ends outside all brackets and behind an operand. -/
def ending : Place → List Symbol
  | .due depth => .var "x" :: List.replicate depth (.bracket .closing)
  | .behind depth => List.replicate depth (.bracket .closing)

@[simp] theorem follow_nil (P : Place) : P.follow [] = some P :=
  rfl

@[simp] theorem follow_cons (P : Place) (s : Symbol) (symbols : List Symbol) :
    P.follow (s :: symbols) = (P.next? s).bind fun P' => P'.follow symbols := by
  rw [follow, List.foldlM_cons]
  rfl

theorem follow_append (P : Place) (symbols symbols' : List Symbol) :
    P.follow (symbols ++ symbols') =
      (P.follow symbols).bind fun P' => P'.follow symbols' := by
  rw [follow, List.foldlM_append]
  rfl

theorem follow_ending (P : Place) : P.follow P.ending = some (.behind 0) := by
  have hbehind : ∀ depth : Nat,
      (behind depth).follow (List.replicate depth (.bracket .closing)) = some (.behind 0) := by
    intro depth
    induction depth with
    | zero => rfl
    | succ depth ih =>
        rw [List.replicate_succ, follow_cons]
        exact ih
  cases P with
  | due depth =>
      rw [ending, follow_cons]
      exact hbehind depth
  | behind depth => exact hbehind depth

end Place

namespace Draft

def place : Draft → Place
  | .due S => .due S.depth
  | .operand S _ => .behind S.depth

theorem place_extend (D : Draft) (s : Symbol) :
    (D.extend? s).map place = D.place.next? s := by
  cases D with
  | due S =>
      cases s with
      | bracket b => cases b <;> rfl
      | _ => rfl
  | operand S e =>
      have hdepth := S.depth_unwind
      cases s with
      | operator op =>
          simp only [extend?, Option.map_some, place, Spine.depth, hdepth, Place.next?]
      | bracket b =>
          cases b with
          | opening => cases hd : S.depth <;> simp [extend?, place, hd, Place.next?]
          | closing =>
              -- Behind the operations that are closed stands the bracket to be closed, if any.
              have hdepth' := hdepth 0 e
              rcases S.unwind_zero_cases e with ⟨whole, hunwind⟩ | ⟨below, inner, hunwind⟩
              · rw [hunwind] at hdepth'
                rw [extend?, hunwind, place, ← hdepth']
                rfl
              · rw [hunwind] at hdepth'
                rw [extend?, hunwind, place, ← hdepth']
                rfl
      | _ => cases hd : S.depth <;> simp [extend?, place, hd, Place.next?]

theorem place_follow (D : Draft) (symbols : List Symbol) :
    (D.follow symbols).map place = D.place.follow symbols := by
  induction symbols generalizing D with
  | nil => rfl
  | cons s symbols ih =>
      rw [follow_cons, Place.follow_cons, ← place_extend]
      cases D.extend? s with
      | none => rfl
      | some D' => exact ih D'

theorem complete_isSome_iff (D : Draft) : D.complete?.isSome ↔ D.place = .behind 0 := by
  cases D with
  | due S => simp [complete?, place]
  | operand S e =>
      have hdepth := S.depth_unwind 0 e
      rcases S.unwind_zero_cases e with ⟨whole, hunwind⟩ | ⟨below, inner, hunwind⟩
      · rw [hunwind] at hdepth
        rw [complete?, hunwind]
        simp [place, ← hdepth, Spine.depth]
      · rw [hunwind] at hdepth
        rw [complete?, hunwind]
        simp [place, ← hdepth, Spine.depth]

end Draft

/-! ## Sentences and their beginnings -/

theorem sentence_iff_follow {symbols : List Symbol} :
    Sentence symbols ↔ (Place.due 0).follow symbols = some (.behind 0) := by
  have hplace := Draft.place_follow Draft.empty symbols
  constructor
  · -- A derivation gives a draft that can end here.
    rintro ⟨d, hd⟩
    have hparse := Draft.parse_eq_some_iff_phrase.2 ⟨d, hd, rfl⟩
    obtain ⟨D, hfollow, hcomplete⟩ := Option.bind_eq_some_iff.1 hparse
    have hend := (Draft.complete_isSome_iff D).1 (by simp [hcomplete])
    rw [hfollow, Option.map_some, hend] at hplace
    exact hplace.symm
  · -- Where places lead, a draft can follow; it ends behind an operand and outside all brackets.
    intro h
    have hplace : (Draft.empty.follow symbols).map Draft.place = some (.behind 0) :=
      hplace.trans h
    obtain ⟨D, hfollow, hend⟩ := Option.map_eq_some_iff.1 hplace
    obtain ⟨e, hcomplete⟩ := Option.isSome_iff_exists.1 ((Draft.complete_isSome_iff D).2 hend)
    have hparse : Draft.parse symbols = some e := by
      rw [Draft.parse, hfollow, Option.bind_some, hcomplete]
    obtain ⟨d, hd, _⟩ := Draft.parse_eq_some_iff_phrase.1 hparse
    exact ⟨d, hd⟩

theorem viable_iff_follow {symbols : List Symbol} :
    Viable symbols ↔ ((Place.due 0).follow symbols).isSome := by
  constructor
  · rintro ⟨rest, h⟩
    rw [sentence_iff_follow, Place.follow_append] at h
    obtain ⟨P, hfollow, _⟩ := Option.bind_eq_some_iff.1 h
    simp [hfollow]
  · -- From every place some text leads to the end.
    intro h
    obtain ⟨P, hfollow⟩ := Option.isSome_iff_exists.1 h
    refine ⟨P.ending, ?_⟩
    rw [sentence_iff_follow, Place.follow_append, hfollow, Option.bind_some]
    exact P.follow_ending

instance (symbols : List Symbol) : Decidable (Sentence symbols) :=
  decidable_of_iff _ sentence_iff_follow.symm

instance (symbols : List Symbol) : Decidable (Viable symbols) :=
  decidable_of_iff _ viable_iff_follow.symm

namespace Draft

/-- The draft stands where its own terminals lead; trees that were grouped in another way than
precedence demands do not matter for this. -/
def Placed (D : Draft) : Prop :=
  (Place.due 0).follow D.yield = some D.place

theorem placed_empty : empty.Placed :=
  rfl

theorem Placed.extend {D D' : Draft} {s : Symbol} (hD : D.Placed) (h : D.extend? s = some D') :
    D'.Placed := by
  have hplace := D.place_extend s
  rw [h, Option.map_some] at hplace
  rw [Placed, yield_extend h, Place.follow_append, hD, Option.bind_some, Place.follow_cons,
    ← hplace]
  rfl

theorem Placed.extend_isSome_iff {D : Draft} {s : Symbol} (hD : D.Placed) :
    (D.extend? s).isSome ↔ Viable (D.yield ++ [s]) := by
  rw [viable_iff_follow, Place.follow_append, hD, Option.bind_some, Place.follow_cons,
    ← D.place_extend s]
  cases D.extend? s <;> simp

theorem Placed.complete_isSome_iff {D : Draft} (hD : D.Placed) :
    D.complete?.isSome ↔ Sentence D.yield := by
  rw [sentence_iff_follow, hD, Draft.complete_isSome_iff, Option.some.injEq]

end Draft

end Arithmetic
end ShiftReduce
