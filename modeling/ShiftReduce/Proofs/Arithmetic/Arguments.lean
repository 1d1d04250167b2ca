import Mathlib.Data.List.Forall2
import Mathlib.Data.List.Induction
import ShiftReduce.Arithmetic.Environment

/-!
# Arguments — what binds the variables, and which fault decides

Arguments are read from the left, a name and its value at a time.  A pair whose value is no numeral
stops the reading there, and so it comes before a name at the end that has no value.  When nothing
stops it, a name keeps the place of its first pair and has the value of its last.

* `Environment.names_ofList`, `Environment.find?_ofList`: what a list of bindings leaves.
* `Environment.bindArguments_eq_ok_iff`, `Environment.bindArguments_eq_invalidValue_iff`,
  `Environment.bindArguments_eq_missingValue_iff`: when the reading ends in which way.
* `Environment.first_fault_decides`: the four together, for every list of arguments.
-/

namespace ShiftReduce
namespace Arithmetic
namespace Environment

/-! ## Lists of bindings -/

theorem ofList_append (bs : List (String × Float)) (b : String × Float) :
    ofList (bs ++ [b]) = (ofList bs).set b.1 b.2 := by
  simp [ofList, extend]

/-- The names of a list of bindings, each where it comes first. -/
theorem names_ofList (bs : List (String × Float)) :
    (ofList bs).names = (bs.map Prod.fst).eraseDups := by
  induction bs using List.reverseRecOn with
  | nil => rfl
  | append_singleton bs b ih =>
      rw [ofList_append, names_set, ih, List.map_append, List.eraseDups_append]
      by_cases h : b.1 ∈ bs.map Prod.fst
      · rw [if_pos (List.mem_eraseDups.2 h)]
        simp [List.removeAll, h]
      · rw [if_neg fun hm => h (List.mem_eraseDups.1 hm)]
        simp [List.removeAll, h, List.eraseDups_cons]

/-- The value of a name is that of its last binding. -/
theorem find?_ofList (bs : List (String × Float)) (name : String) (v : Float) :
    (ofList bs).find? name = some v ↔
      ∃ before after, bs = before ++ (name, v) :: after ∧ name ∉ after.map Prod.fst := by
  induction bs using List.reverseRecOn with
  | nil => simp [ofList, extend, find?, empty, Entries.find?]
  | append_singleton bs b ih =>
      rw [ofList_append, find?_set]
      constructor
      · intro h
        split at h
        · rename_i hb
          obtain rfl := Option.some.inj h
          exact ⟨bs, [], by simp [← hb], by simp⟩
        · rename_i hb
          obtain ⟨before, after, rfl, hafter⟩ := ih.1 h
          refine ⟨before, after ++ [b], by simp, ?_⟩
          simp only [List.map_append, List.mem_append, not_or]
          exact ⟨hafter, by simpa using fun hn : name = b.1 => hb hn.symm⟩
      · rintro ⟨before, after, heq, hafter⟩
        -- Whether the binding at the end is the one in question.
        rcases List.eq_nil_or_concat after with rfl | ⟨after, last, rfl⟩
        · obtain ⟨-, hb⟩ := List.append_inj' heq rfl
          obtain rfl := List.singleton_inj.1 hb
          simp
        · rw [List.concat_eq_append, ← List.cons_append, ← List.append_assoc] at heq
          obtain ⟨rfl, hb⟩ := List.append_inj' heq rfl
          obtain rfl := List.singleton_inj.1 hb
          simp only [List.concat_eq_append, List.map_append, List.mem_append, not_or] at hafter
          rw [if_neg fun hn => hafter.2 (by simp [hn])]
          exact ih.2 ⟨before, after, rfl, hafter.1⟩

/-! ## Pairs of arguments -/

/-- The names that have a value behind them, with that value. -/
def argumentPairs : List String → List (String × String)
  | name :: value :: rest => (name, value) :: argumentPairs rest
  | [_] => []
  | [] => []

theorem getElem?_argumentPairs (args : List String) (i : Nat) (name value : String) :
    (argumentPairs args)[i]? = some (name, value) ↔
      args[2 * i]? = some name ∧ args[2 * i + 1]? = some value := by
  induction args using argumentPairs.induct generalizing i with
  | case1 n w rest ih =>
      cases i with
      | zero => simp [argumentPairs]
      | succ i => simpa [argumentPairs, Nat.mul_add] using ih i
  | case2 n => simp [argumentPairs]
  | case3 => simp [argumentPairs]

def Readable (p : String × String) : Prop :=
  ∃ v, Numeral.read p.2.toList = .ok v

/-- Every second argument is the value of a pair. -/
theorem forall_readable_iff (args : List String) :
    (∀ p ∈ argumentPairs args, Readable p) ↔
      ∀ i value, args[2 * i + 1]? = some value → ∃ v, Numeral.read value.toList = .ok v := by
  constructor
  · intro h i value hvalue
    have hlt : 2 * i + 1 < args.length := (List.getElem?_eq_some_iff.1 hvalue).1
    have hname : args[2 * i]? = some args[2 * i] := List.getElem?_eq_getElem (by omega)
    have hpair := (getElem?_argumentPairs args i args[2 * i] value).2 ⟨hname, hvalue⟩
    exact h _ (List.mem_of_getElem? hpair)
  · rintro h ⟨name, value⟩ hp
    obtain ⟨i, hi⟩ := List.mem_iff_getElem?.1 hp
    exact h i value ((getElem?_argumentPairs args i name value).1 hi).2

def Binds (p : String × String) (b : String × Float) : Prop :=
  b.1 = p.1 ∧ Numeral.read p.2.toList = .ok b.2

theorem exists_binds_iff (ps : List (String × String)) :
    (∃ bs, List.Forall₂ Binds ps bs) ↔ ∀ p ∈ ps, Readable p := by
  induction ps with
  | nil => simp
  | cons p ps ih =>
      rw [List.forall_mem_cons, ← ih]
      constructor
      · rintro ⟨_, _ | ⟨hb, hbs⟩⟩
        exact ⟨⟨_, hb.2⟩, _, hbs⟩
      · rintro ⟨⟨v, hv⟩, bs, hbs⟩
        exact ⟨(p.1, v) :: bs, .cons ⟨rfl, hv⟩ hbs⟩

/-! ## How the reading ends -/

theorem bindArguments_eq_ok_iff (E E' : Environment) (args : List String) :
    E.bindArguments args = .ok E' ↔
      args.length % 2 = 0 ∧
        ∃ bs, List.Forall₂ Binds (argumentPairs args) bs ∧ E' = E.extend bs := by
  fun_induction bindArguments E args with
  | case1 E => simp [argumentPairs, extend, eq_comm]
  | case2 E name => simp
  | case3 E name value rest v hv ih =>
      rw [ih]
      simp only [List.length_cons, argumentPairs, List.forall₂_cons_left_iff]
      constructor
      · rintro ⟨heven, bs, hbs, rfl⟩
        exact ⟨by omega, (name, v) :: bs, ⟨_, bs, ⟨rfl, hv⟩, hbs, rfl⟩, rfl⟩
      · rintro ⟨heven, _, ⟨⟨_, v'⟩, bs, ⟨rfl, hb⟩, hbs, rfl⟩, rfl⟩
        obtain rfl : v = v' := Except.ok.inj (hv.symm.trans hb)
        exact ⟨by omega, bs, hbs, rfl⟩
  | case4 E name value rest e he =>
      simp only [argumentPairs, List.forall₂_cons_left_iff, reduceCtorEq, false_iff]
      rintro ⟨-, _, ⟨b, bs, ⟨-, hb⟩, -, -⟩, -⟩
      simp [he] at hb

theorem bindArguments_eq_invalidValue_iff (E : Environment) (args : List String) (name : String)
    (e : NumeralError) :
    E.bindArguments args = .error (.invalidValue name e) ↔
      ∃ before value after, argumentPairs args = before ++ (name, value) :: after ∧
        (∀ p ∈ before, Readable p) ∧ Numeral.read value.toList = .error e := by
  fun_induction bindArguments E args with
  | case1 E => simp [argumentPairs]
  | case2 E n => simp [argumentPairs]
  | case3 E n w rest v hv ih =>
      rw [ih, argumentPairs]
      constructor
      · rintro ⟨before, value, after, hpairs, hbefore, he⟩
        refine ⟨(n, w) :: before, value, after, by rw [hpairs]; rfl, ?_, he⟩
        exact List.forall_mem_cons.2 ⟨⟨v, hv⟩, hbefore⟩
      · rintro ⟨before, value, after, hpairs, hbefore, he⟩
        -- The pair in front is readable, so the fault is not there.
        rcases before with _ | ⟨p, before⟩
        · obtain ⟨rfl, rfl⟩ := Prod.mk.inj (List.cons.inj hpairs).1
          simp [hv] at he
        · obtain ⟨rfl, hrest⟩ := List.cons.inj hpairs
          exact ⟨before, value, after, hrest, (List.forall_mem_cons.1 hbefore).2, he⟩
  | case4 E n w rest e' he' =>
      rw [argumentPairs]
      constructor
      · intro h
        simp only [Except.error.injEq, Failure.invalidValue.injEq] at h
        obtain ⟨rfl, rfl⟩ := h
        exact ⟨[], w, argumentPairs rest, rfl, by simp, he'⟩
      · rintro ⟨before, value, after, hpairs, hbefore, he⟩
        rcases before with _ | ⟨p, before⟩
        · obtain ⟨rfl, rfl⟩ := Prod.mk.inj (List.cons.inj hpairs).1
          rw [Except.error.inj (he'.symm.trans he)]
        · obtain ⟨rfl, -⟩ := List.cons.inj hpairs
          obtain ⟨v, hv⟩ := hbefore _ List.mem_cons_self
          simp [he'] at hv

theorem bindArguments_eq_missingValue_iff (E : Environment) (args : List String) (name : String) :
    E.bindArguments args = .error (.missingValue name) ↔
      args.length % 2 = 1 ∧ (∀ p ∈ argumentPairs args, Readable p) ∧
        args.getLast? = some name := by
  fun_induction bindArguments E args with
  | case1 E => simp
  | case2 E n => simp [argumentPairs]
  | case3 E n w rest v hv ih =>
      have hreadable : Readable (n, w) := ⟨v, hv⟩
      have hlength : (n :: w :: rest).length % 2 = rest.length % 2 := by
        simp only [List.length_cons]
        omega
      rw [ih, hlength]
      -- Behind a complete pair the last argument is that of the rest, unless there is no rest.
      cases rest with
      | nil => simp
      | cons a rest => simp [argumentPairs, hreadable]
  | case4 E n w rest e he =>
      have hreadable : ¬ Readable (n, w) := fun ⟨v, hv⟩ => by simp [he] at hv
      simp [argumentPairs, hreadable]

/-- Nothing else can be wrong with arguments. -/
theorem bindArguments_eq_error {E : Environment} {args : List String} {f : Failure}
    (h : E.bindArguments args = .error f) :
    (∃ name e, f = .invalidValue name e) ∨ ∃ name, f = .missingValue name := by
  fun_induction bindArguments E args with
  | case1 E => cases h
  | case2 E name => exact .inr ⟨name, (Except.error.inj h).symm⟩
  | case3 E name value rest v hv ih => exact ih h
  | case4 E name value rest e he => exact .inl ⟨name, e, (Except.error.inj h).symm⟩

theorem exists_bindArguments_eq_ok_iff (E : Environment) (args : List String) :
    (∃ E', E.bindArguments args = .ok E') ↔
      args.length % 2 = 0 ∧ ∀ p ∈ argumentPairs args, Readable p := by
  rw [← exists_binds_iff]
  constructor
  · rintro ⟨E', hE'⟩
    obtain ⟨heven, bs, hbs, -⟩ := (bindArguments_eq_ok_iff E E' args).1 hE'
    exact ⟨heven, bs, hbs⟩
  · rintro ⟨heven, bs, hbs⟩
    exact ⟨_, (bindArguments_eq_ok_iff E _ args).2 ⟨heven, bs, hbs, rfl⟩⟩

/-- Where a complete pair is at fault, no name without a value is. -/
theorem exists_invalidValue {args : List String} {p : String × String}
    (hp : p ∈ argumentPairs args) (hfault : ¬ Readable p) (E : Environment) :
    ∃ name e, E.bindArguments args = .error (.invalidValue name e) := by
  -- The other two endings leave every complete pair readable.
  cases hread : E.bindArguments args with
  | ok E' =>
      have hreadable := ((exists_bindArguments_eq_ok_iff E args).1 ⟨E', hread⟩).2
      exact absurd (hreadable p hp) hfault
  | error f =>
      rcases bindArguments_eq_error hread with ⟨name, e, rfl⟩ | ⟨name, rfl⟩
      · exact ⟨name, e, rfl⟩
      · have hreadable := ((bindArguments_eq_missingValue_iff E args name).1 hread).2.1
        exact absurd (hreadable p hp) hfault

/-! ## What the bindings are -/

theorem exists_split_of_forall₂ {α β : Type} {R : α → β → Prop} {as : List α} {before after : List β}
    {b : β} (h : List.Forall₂ R as (before ++ b :: after)) :
    ∃ before' a after', as = before' ++ a :: after' ∧ R a b ∧ List.Forall₂ R after' after := by
  have hrest := List.forall₂_drop_append as before (b :: after) h
  obtain ⟨a, after', hab, hafter, hdrop⟩ := List.forall₂_cons_right_iff.1 hrest
  exact ⟨as.take before.length, a, after', by rw [← hdrop, List.take_append_drop], hab, hafter⟩

theorem names_of_binds {ps : List (String × String)} {bs : List (String × Float)}
    (h : List.Forall₂ Binds ps bs) : bs.map Prod.fst = ps.map Prod.fst := by
  induction h with
  | nil => rfl
  | cons hb _ ih => rw [List.map_cons, List.map_cons, ih, hb.1]

/-- The last pair with a name and the last binding of that name are at the same place. -/
theorem find?_of_binds {ps : List (String × String)} {bs : List (String × Float)}
    (h : List.Forall₂ Binds ps bs) (name : String) (v : Float) :
    (ofList bs).find? name = some v ↔
      ∃ before value after, ps = before ++ (name, value) :: after ∧
        name ∉ after.map Prod.fst ∧ Numeral.read value.toList = .ok v := by
  rw [find?_ofList]
  constructor
  · rintro ⟨before, after, rfl, hlast⟩
    obtain ⟨before', ⟨n, value⟩, after', rfl, ⟨rfl, hv⟩, hafter⟩ := exists_split_of_forall₂ h
    exact ⟨before', value, after', rfl, names_of_binds hafter ▸ hlast, hv⟩
  · rintro ⟨before, value, after, rfl, hlast, hv⟩
    obtain ⟨before', ⟨n, v'⟩, after', rfl, ⟨rfl, hv'⟩, hafter⟩ := exists_split_of_forall₂ h.flip
    obtain rfl : v = v' := Except.ok.inj (hv.symm.trans hv')
    exact ⟨before', after', rfl, (names_of_binds hafter.flip).symm ▸ hlast⟩

/-! ## The first fault -/

/-- Arguments bind names, in the order of their first pairs, to the values of their last; the first
pair without a numeral is the fault before a name without a value is. -/
theorem first_fault_decides (args : List String) :
    ((∃ E, ofArguments args = .ok E) ↔
        args.length % 2 = 0 ∧
          ∀ i value, args[2 * i + 1]? = some value → ∃ v, Numeral.read value.toList = .ok v) ∧
      (∀ E, ofArguments args = .ok E →
        E.names = ((argumentPairs args).map Prod.fst).eraseDups ∧
          ∀ name v, E.find? name = some v ↔
            ∃ before value after, argumentPairs args = before ++ (name, value) :: after ∧
              name ∉ after.map Prod.fst ∧ Numeral.read value.toList = .ok v) ∧
      (∀ name e, ofArguments args = .error (.invalidValue name e) ↔
        ∃ before value after, argumentPairs args = before ++ (name, value) :: after ∧
          (∀ p ∈ before, Readable p) ∧ Numeral.read value.toList = .error e) ∧
      (∀ name, ofArguments args = .error (.missingValue name) ↔
        args.length % 2 = 1 ∧ (∀ p ∈ argumentPairs args, Readable p) ∧
          args.getLast? = some name) ∧
      ((∃ p ∈ argumentPairs args, ¬ Readable p) →
        ∃ name e, ofArguments args = .error (.invalidValue name e)) := by
  refine ⟨?_, ?_, fun name e => bindArguments_eq_invalidValue_iff empty args name e,
    fun name => bindArguments_eq_missingValue_iff empty args name, ?_⟩
  · rw [← forall_readable_iff]
    exact exists_bindArguments_eq_ok_iff empty args
  · intro E hE
    obtain ⟨-, bs, hbs, rfl⟩ := (bindArguments_eq_ok_iff empty E args).1 hE
    exact ⟨names_of_binds hbs ▸ names_ofList bs, find?_of_binds hbs⟩
  · rintro ⟨p, hp, hfault⟩
    exact exists_invalidValue hp hfault empty

/-- A name that is bound twice, and a value that is no numeral before a name without a value. -/
theorem fault_before_missing_value :
    (∃ E, ofArguments ["v", "1", "w", "2e3", "v", "0.25"] = .ok E ∧ E.names = ["v", "w"] ∧
      ∃ v, Numeral.read "0.25".toList = .ok v ∧ E.find? "v" = some v) ∧
      ∃ e, ofArguments ["x", "one", "y"] = .error (.invalidValue "x" e) := by
  obtain ⟨E, hE⟩ : ∃ E, ofArguments ["v", "1", "w", "2e3", "v", "0.25"] = .ok E := ⟨_, rfl⟩
  obtain ⟨v, hv⟩ : ∃ v, Numeral.read "0.25".toList = .ok v := ⟨_, rfl⟩
  obtain ⟨hnames, hvalues⟩ := (first_fault_decides _).2.1 E hE
  have hlast : E.find? "v" = some v :=
    (hvalues "v" v).2 ⟨[("v", "1"), ("w", "2e3")], "0.25", [], rfl, by simp, hv⟩
  obtain ⟨e, he⟩ : ∃ e, Numeral.read "one".toList = .error e := ⟨.malformed, rfl⟩
  exact ⟨⟨E, hE, hnames, v, hv, hlast⟩, e,
    ((first_fault_decides _).2.2.1 "x" e).2 ⟨[], "one", [], rfl, by simp, he⟩⟩

end Environment
end Arithmetic
end ShiftReduce
