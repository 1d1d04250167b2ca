import ShiftReduce.Arithmetic.Failure

/-!
# Environments — values of variables, in the order in which they were first bound

Binding a name again replaces its value and keeps its place.

* `Environment.exchange_fst`: binding a name hands back the value it had before.
* `Environment.find?_set`: what a binding changes, and that it changes nothing else.
* `Environment.names_set`: a new name goes to the end; an old one stays where it is.
* `Environment.ofArguments`: the environment of alternating names and values, read from the left;
  the first fault decides.
-/

namespace ShiftReduce
namespace Arithmetic

namespace Entries

def find? (name : String) : List (String × Float) → Option Float
  | [] => none
  | (n, v) :: rest => if n = name then some v else find? name rest

/-- Replaces the value of a name and returns the one it had, or appends the name. -/
def exchange (name : String) (value : Float) :
    List (String × Float) → Option Float × List (String × Float)
  | [] => (none, [(name, value)])
  | (n, v) :: rest =>
      if n = name then
        (some v, (n, value) :: rest)
      else
        let (old, rest) := exchange name value rest
        (old, (n, v) :: rest)

def put (name : String) (value : Float) (es : List (String × Float)) : List (String × Float) :=
  (exchange name value es).2

theorem put_nil (name : String) (value : Float) : put name value [] = [(name, value)] := rfl

theorem put_cons (name n : String) (value v : Float) (rest : List (String × Float)) :
    put name value ((n, v) :: rest) =
      if n = name then (n, value) :: rest else (n, v) :: put name value rest := by
  by_cases h : n = name <;> simp [put, exchange, h]

theorem exchange_fst (name : String) (value : Float) (es : List (String × Float)) :
    (exchange name value es).1 = find? name es := by
  induction es with
  | nil => rfl
  | cons e rest ih =>
      obtain ⟨n, v⟩ := e
      by_cases h : n = name <;> simp [exchange, find?, h, ih]

theorem find?_put (name other : String) (value : Float) (es : List (String × Float)) :
    find? other (put name value es) = if name = other then some value else find? other es := by
  induction es with
  | nil => simp [put_nil, find?]
  | cons e rest ih =>
      obtain ⟨n, v⟩ := e
      by_cases h : n = name <;> by_cases h' : n = other <;> by_cases h'' : name = other <;>
        simp_all [put_cons, find?]

theorem names_put (name : String) (value : Float) (es : List (String × Float)) :
    (put name value es).map Prod.fst =
      if name ∈ es.map Prod.fst then es.map Prod.fst else es.map Prod.fst ++ [name] := by
  induction es with
  | nil => simp [put_nil]
  | cons e rest ih =>
      obtain ⟨n, v⟩ := e
      by_cases h : n = name
      · simp [put_cons, h]
      · have h' : ¬name = n := fun he => h he.symm
        simp only [put_cons, h, if_false, List.map_cons, ih, List.mem_cons, h', false_or]
        split <;> rfl

theorem nodup_put {name : String} {value : Float} {es : List (String × Float)}
    (h : (es.map Prod.fst).Nodup) : ((put name value es).map Prod.fst).Nodup := by
  rw [names_put]
  split
  · exact h
  · rename_i hmem
    -- The name that goes to the end is none of those before it.
    rw [List.nodup_append]
    refine ⟨h, by simp, ?_⟩
    intro a ha b hb hab
    simp only [List.mem_singleton] at hb
    exact hmem (hb ▸ hab ▸ ha)

end Entries

/-- Names with their values; no name occurs twice. -/
structure Environment where
  entries : List (String × Float) := []
  nodup : (entries.map Prod.fst).Nodup := by exact List.nodup_nil

namespace Environment

def empty : Environment :=
  {}

instance : Inhabited Environment := ⟨empty⟩

def names (E : Environment) : List String :=
  E.entries.map Prod.fst

def size (E : Environment) : Nat :=
  E.entries.length

def isEmpty (E : Environment) : Bool :=
  E.entries.isEmpty

def find? (E : Environment) (name : String) : Option Float :=
  Entries.find? name E.entries

def contains (E : Environment) (name : String) : Bool :=
  (E.find? name).isSome

def get (E : Environment) (name : String) : Except EvalError Float :=
  match E.find? name with
  | some v => .ok v
  | none => .error (.unbound name)

def exchange (E : Environment) (name : String) (value : Float) : Option Float × Environment :=
  match h : Entries.exchange name value E.entries with
  | (old, entries) =>
      (old, ⟨entries, by
        have hput : Entries.put name value E.entries = entries := by rw [Entries.put, h]
        exact hput ▸ Entries.nodup_put E.nodup⟩)

def set (E : Environment) (name : String) (value : Float) : Environment :=
  (E.exchange name value).2

def extend (E : Environment) (pairs : List (String × Float)) : Environment :=
  pairs.foldl (fun E p => E.set p.1 p.2) E

def ofList (pairs : List (String × Float)) : Environment :=
  empty.extend pairs

theorem exchange_fst (E : Environment) (name : String) (value : Float) :
    (E.exchange name value).1 = E.find? name :=
  Entries.exchange_fst name value E.entries

theorem find?_set (E : Environment) (name other : String) (value : Float) :
    (E.set name value).find? other = if name = other then some value else E.find? other :=
  Entries.find?_put name other value E.entries

theorem names_set (E : Environment) (name : String) (value : Float) :
    (E.set name value).names = if name ∈ E.names then E.names else E.names ++ [name] :=
  Entries.names_put name value E.entries

/-- Whether two environments bind the same names to equal doubles, in whatever order. -/
instance : BEq Environment where
  beq E E' :=
    E.size == E'.size &&
      E.entries.all fun p =>
        match E'.find? p.1 with
        | some v => p.2 == v
        | none => false

/-- Binds alternating names and numerals from the left.  A name without a value is an error, and so
is a value that is not a numeral; the first one decides. -/
def bindArguments (E : Environment) : List String → Except Failure Environment
  | [] => .ok E
  | [name] => .error (.missingValue name)
  | name :: value :: rest =>
      match Numeral.read value.toList with
      | .ok v => bindArguments (E.set name v) rest
      | .error e => .error (.invalidValue name e)

def ofArguments (args : List String) : Except Failure Environment :=
  empty.bindArguments args

end Environment

end Arithmetic
end ShiftReduce
