import ShiftReduce.Proofs.Arithmetic.Arguments
import ShiftReduce.Proofs.Decimal.Double

/-!
# Rebinding — environments are what their histories make them

Names are bound by collecting a list of bindings, one at a time, or many at once.  Whatever the
calls, an environment depends only on the bindings that they made, one after the other: a name
stands where it was first bound and has the value that it was last bound to.

* `Environment.afterUpdates_eq`: the calls do what one list of all their bindings does.
* `Environment.contains_iff`, `Environment.get_eq_ok_iff`, `Environment.get_eq_error_iff`: lookups
  and entries agree.
* `Environment.beq_iff`: equality of environments.
* `Environment.updates_keep_first_place_and_last_value`: all of this, for every history of calls.
-/

namespace ShiftReduce
namespace Arithmetic

/-- A call that binds names in an environment. -/
inductive Update
  | set (name : String) (value : Float)
  | extend (pairs : List (String × Float))

def Update.bindings : Update → List (String × Float)
  | .set name value => [(name, value)]
  | .extend pairs => pairs

/-- The last of the bindings of a name gives it this value. -/
def BindsLast (bs : List (String × Float)) (name : String) (v : Float) : Prop :=
  ∃ before after, bs = before ++ (name, v) :: after ∧ name ∉ after.map Prod.fst

theorem Entries.find?_eq_some_iff {es : List (String × Float)} (h : (es.map Prod.fst).Nodup)
    (name : String) (v : Float) : find? name es = some v ↔ (name, v) ∈ es := by
  induction es with
  | nil => simp [find?]
  | cons e rest ih =>
      obtain ⟨n, w⟩ := e
      obtain ⟨hnew, hrest⟩ := List.nodup_cons.1 h
      rw [find?, List.mem_cons]
      split
      · -- No later entry has the name of the first one.
        rename_i hn
        subst hn
        have hlater : (n, v) ∉ rest := fun hmem => hnew (List.mem_map.2 ⟨_, hmem, rfl⟩)
        simp [hlater, eq_comm]
      · rename_i hn
        simp [ih hrest, Ne.symm hn]

namespace Environment

/-! ## Histories -/

def update (E : Environment) : Update → Environment
  | .set name value => (E.exchange name value).2
  | .extend pairs => E.extend pairs

/-- The environment that is left by calls, one after the other, on one that was collected. -/
def afterUpdates (start : List (String × Float)) (us : List Update) : Environment :=
  us.foldl update (ofList start)

def history (start : List (String × Float)) (us : List Update) : List (String × Float) :=
  start ++ us.flatMap Update.bindings

theorem update_ofList (bs : List (String × Float)) (u : Update) :
    (ofList bs).update u = ofList (bs ++ u.bindings) := by
  cases u with
  | set name value => exact (ofList_append bs (name, value)).symm
  | extend pairs => simp [update, Update.bindings, ofList, extend]

theorem afterUpdates_eq (start : List (String × Float)) (us : List Update) :
    afterUpdates start us = ofList (history start us) := by
  induction us generalizing start with
  | nil => simp [afterUpdates, history]
  | cons u us ih =>
      have hrest := ih (start ++ u.bindings)
      unfold afterUpdates history at hrest ⊢
      rw [List.foldl_cons, update_ofList, hrest, List.flatMap_cons, List.append_assoc]

/-! ## Entries and lookups -/

variable (E E' : Environment) (name : String)

theorem find?_eq_some_iff (v : Float) : E.find? name = some v ↔ (name, v) ∈ E.entries :=
  Entries.find?_eq_some_iff E.nodup name v

theorem nodup_names : E.names.Nodup :=
  E.nodup

theorem length_names : E.names.length = E.size :=
  List.length_map _

theorem mem_names_iff : name ∈ E.names ↔ ∃ v, E.find? name = some v := by
  simp only [find?_eq_some_iff, names, List.mem_map, Prod.exists, exists_and_right, exists_eq_right]

theorem contains_iff : E.contains name = true ↔ name ∈ E.names := by
  rw [contains, Option.isSome_iff_exists, mem_names_iff]

theorem get_eq_ok_iff (v : Float) : E.get name = .ok v ↔ (name, v) ∈ E.entries := by
  rw [← find?_eq_some_iff, get]
  split <;> rename_i hfind <;> simp [hfind]

theorem get_eq_error_iff (err : EvalError) :
    E.get name = .error err ↔ err = .unbound name ∧ name ∉ E.names := by
  have hcontains := E.contains_iff name
  rw [contains] at hcontains
  rw [← hcontains, get]
  split <;> rename_i hfind <;> simp [hfind, eq_comm]

theorem exchange_fst_eq_some_iff (value old : Float) :
    (E.exchange name value).1 = some old ↔ (name, old) ∈ E.entries := by
  rw [exchange_fst, find?_eq_some_iff]

theorem exchange_fst_eq_none_iff (value : Float) :
    (E.exchange name value).1 = none ↔ name ∉ E.names := by
  rw [exchange_fst, ← contains_iff, contains, Bool.not_eq_true, Option.isSome_eq_false_iff,
    Option.isNone_iff_eq_none]

/-! ## Equality -/

/-- Every name of the one is bound to an equal value by the other. -/
theorem beq_iff_size_and_find? :
    (E == E') = true ↔
      E.size = E'.size ∧
        ∀ name v, E.find? name = some v → ∃ v', E'.find? name = some v' ∧ Binary64.Equal v v' := by
  change (E.size == E'.size && E.entries.all _) = true ↔ _
  rw [Bool.and_eq_true, beq_iff_eq, List.all_eq_true]
  refine and_congr_right fun _ => ⟨fun h name v hv => ?_, fun h p hp => ?_⟩
  · have hpair := h (name, v) ((E.find?_eq_some_iff name v).1 hv)
    cases hv' : E'.find? name with
    | none => simp [hv'] at hpair
    | some v' =>
        simp only [hv', Binary64.beq_iff_equal] at hpair
        exact ⟨v', rfl, hpair⟩
  · obtain ⟨v', hv', hequal⟩ := h p.1 p.2 ((E.find?_eq_some_iff p.1 p.2).2 hp)
    simpa only [hv', Binary64.beq_iff_equal] using hequal

theorem beq_iff :
    (E == E') = true ↔
      (∀ name, name ∈ E.names ↔ name ∈ E'.names) ∧
        ∀ name v v', E.find? name = some v → E'.find? name = some v' → Binary64.Equal v v' := by
  rw [beq_iff_size_and_find?]
  constructor
  · rintro ⟨hsize, hvalues⟩
    have hsubset : E.names ⊆ E'.names := by
      intro name hname
      obtain ⟨v, hv⟩ := (E.mem_names_iff name).1 hname
      obtain ⟨v', hv', -⟩ := hvalues name v hv
      exact (E'.mem_names_iff name).2 ⟨v', hv'⟩
    -- As many names, none of them twice, and all of them names of the other.
    have hperm : E.names.Perm E'.names :=
      (List.subperm_of_subset E.nodup_names hsubset).perm_of_length_le
        (by rw [length_names, length_names, hsize])
    refine ⟨fun name => hperm.mem_iff, fun name v v' hv hv' => ?_⟩
    obtain ⟨w, hw, hequal⟩ := hvalues name v hv
    obtain rfl : w = v' := Option.some.inj (hw.symm.trans hv')
    exact hequal
  · rintro ⟨hnames, hvalues⟩
    have hperm : E.names.Perm E'.names :=
      (List.perm_ext_iff_of_nodup E.nodup_names E'.nodup_names).2 hnames
    refine ⟨by rw [← length_names, ← length_names, hperm.length_eq], fun name v hv => ?_⟩
    have hname := (hnames name).1 ((E.mem_names_iff name).2 ⟨v, hv⟩)
    obtain ⟨v', hv'⟩ := (E'.mem_names_iff name).1 hname
    exact ⟨v', hv', hvalues name v v' hv hv'⟩

/-! ## Histories of any length -/

theorem mem_names_ofList (bs : List (String × Float)) :
    name ∈ (ofList bs).names ↔ name ∈ bs.map Prod.fst := by
  rw [names_ofList, List.mem_eraseDups]

theorem size_ofList (bs : List (String × Float)) :
    (ofList bs).size = (bs.map Prod.fst).toFinset.card := by
  have hset : (bs.map Prod.fst).toFinset = (ofList bs).names.toFinset := by
    ext name
    simp only [List.mem_toFinset, mem_names_ofList]
  rw [hset, List.toFinset_card_of_nodup (ofList bs).nodup_names, length_names]

/-- However its names were bound, an environment has them in the order of their first bindings, with
the values of their last; two are equal if these are, in whatever order. -/
theorem updates_keep_first_place_and_last_value (start : List (String × Float))
    (us : List Update) :
    (afterUpdates start us).entries.map Prod.fst =
        ((history start us).map Prod.fst).eraseDups ∧
      (∀ name v, (name, v) ∈ (afterUpdates start us).entries ↔
        BindsLast (history start us) name v) ∧
      (afterUpdates start us).size = ((history start us).map Prod.fst).toFinset.card ∧
      (∀ name, (afterUpdates start us).contains name = true ↔
        name ∈ (history start us).map Prod.fst) ∧
      (∀ name v, (afterUpdates start us).get name = .ok v ↔
        (name, v) ∈ (afterUpdates start us).entries) ∧
      (∀ name err, (afterUpdates start us).get name = .error err ↔
        err = .unbound name ∧ name ∉ (history start us).map Prod.fst) ∧
      (∀ name value old, ((afterUpdates start us).exchange name value).1 = some old ↔
        BindsLast (history start us) name old) ∧
      (∀ name value, ((afterUpdates start us).exchange name value).1 = none ↔
        name ∉ (history start us).map Prod.fst) ∧
      ∀ start' us', (afterUpdates start us == afterUpdates start' us') = true ↔
        (∀ name, name ∈ (history start us).map Prod.fst ↔
          name ∈ (history start' us').map Prod.fst) ∧
        ∀ name v v', BindsLast (history start us) name v →
          BindsLast (history start' us') name v' → Binary64.Equal v v' := by
  simp only [afterUpdates_eq]
  have hentries : ∀ bs name v, (name, v) ∈ (ofList bs).entries ↔ BindsLast bs name v :=
    fun bs name v => (find?_eq_some_iff _ name v).symm.trans (find?_ofList bs name v)
  refine ⟨names_ofList _, hentries _, size_ofList _, fun name => ?_, fun name v => ?_,
    fun name err => ?_, fun name value old => ?_, fun name value => ?_, fun start' us' => ?_⟩
  · rw [contains_iff, mem_names_ofList]
  · exact get_eq_ok_iff _ name v
  · rw [get_eq_error_iff, mem_names_ofList]
  · rw [exchange_fst_eq_some_iff, hentries]
  · rw [exchange_fst_eq_none_iff, mem_names_ofList]
  · rw [beq_iff]
    simp only [mem_names_ofList, find?_ofList]
    rfl

/-- The witness binds two of three names again, and the same names in another order elsewhere, where
one of them is the other zero. -/
theorem updates_of_three_names :
    (afterUpdates [("a", 1), ("b", 2)] [.set "a" 10, .extend [("c", 0), ("b", 4)]]).entries.map
        Prod.fst = ["a", "b", "c"] ∧
      (afterUpdates [("a", 1), ("b", 2)] [.set "a" 10, .extend [("c", 0), ("b", 4)]]).get "b" =
        .ok 4 ∧
      (afterUpdates [("a", 1), ("b", 2)] [.set "a" 10, .extend [("c", 0), ("b", 4)]]).get "d" =
        .error (.unbound "d") ∧
      ((afterUpdates [("a", 1), ("b", 2)] [.set "a" 10, .extend [("c", 0)]]).exchange "b" 4).1 =
        some 2 ∧
      (afterUpdates [("a", 1), ("b", 2)] [.set "a" 10, .extend [("c", 0), ("b", 4)]] ==
          afterUpdates [] [.extend [("c", -0), ("b", 4), ("a", 10)]]) = true ∧
      Binary64.Equal 0 (-0) := by
  obtain ⟨hnames, hentries, -, -, hget, hunbound, -, -, hequal⟩ :=
    updates_keep_first_place_and_last_value [("a", 1), ("b", 2)]
      [.set "a" 10, .extend [("c", 0), ("b", 4)]]
  obtain ⟨-, -, -, -, -, -, hold, -⟩ :=
    updates_keep_first_place_and_last_value [("a", 1), ("b", 2)] [.set "a" 10, .extend [("c", 0)]]
  have hsame : (afterUpdates [("a", 1), ("b", 2)] [.set "a" 10, .extend [("c", 0), ("b", 4)]] ==
      afterUpdates [] [.extend [("c", -0), ("b", 4), ("a", 10)]]) = true := by decide
  refine ⟨hnames, (hget "b" 4).2 ((hentries "b" 4).2 ?_), (hunbound "d" _).2 ⟨rfl, by decide⟩,
    (hold "b" 4 2).2 ?_, hsame, ((hequal _ _).1 hsame).2 "c" 0 (-0) ?_ ?_⟩
  · exact ⟨[("a", 1), ("b", 2), ("a", 10), ("c", 0)], [], rfl, by simp⟩
  · exact ⟨[("a", 1)], [("a", 10), ("c", 0)], rfl, by simp⟩
  · exact ⟨[("a", 1), ("b", 2), ("a", 10)], [("b", 4)], rfl, by simp⟩
  · exact ⟨[], [("b", 4), ("a", 10)], rfl, by simp⟩

end Environment
end Arithmetic
end ShiftReduce
