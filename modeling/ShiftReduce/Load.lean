/-!
# Loads — what a list weighs

Recursions that work off a list, and runs that work off a stack, end because the list grows lighter.

* `load`: the weights of the entries taken together.
* `load_append`, `load_reverse`, `load_map`: loads of lists put together from other lists.
* `load_le_load`: lighter entries make a lighter list.
-/

namespace ShiftReduce

variable {α β : Type}

def load (weight : α → Nat) : List α → Nat
  | [] => 0
  | a :: as => weight a + load weight as

@[simp] theorem load_nil (weight : α → Nat) : load weight [] = 0 :=
  rfl

@[simp] theorem load_cons (weight : α → Nat) (a : α) (as : List α) :
    load weight (a :: as) = weight a + load weight as :=
  rfl

theorem load_append (weight : α → Nat) (as bs : List α) :
    load weight (as ++ bs) = load weight as + load weight bs := by
  induction as with
  | nil => simp
  | cons a as ih => simp [ih, Nat.add_assoc]

theorem load_reverse (weight : α → Nat) (as : List α) :
    load weight as.reverse = load weight as := by
  induction as with
  | nil => rfl
  | cons a as ih => simp [load_append, ih, Nat.add_comm]

theorem load_le_load {weight weight' : α → Nat} {as : List α} (h : ∀ a ∈ as, weight a ≤ weight' a) :
    load weight as ≤ load weight' as := by
  induction as with
  | nil => exact Nat.le_refl _
  | cons a as ih =>
      have hrest := ih fun b hb => h b (List.mem_cons_of_mem a hb)
      exact Nat.add_le_add (h a List.mem_cons_self) hrest

theorem load_map (weight : β → Nat) (f : α → β) (as : List α) :
    load weight (as.map f) = load (fun a => weight (f a)) as := by
  induction as with
  | nil => rfl
  | cons a as ih => simp [ih]

end ShiftReduce
