import Mathlib.Algebra.Order.Group.Multiset
import Mathlib.Algebra.BigOperators.Group.Multiset.Basic

/-!
# Weighing a pool

A pool is a multiset of interchangeable members (threads by where they stand,
references by who holds them). `weight g` adds up what each member counts for.
Replacing one member changes the weight by the difference of the two, which is
all a counting invariant needs.
-/

namespace Pool

variable {α : Type}

/-- The sum of `g` over the pool. -/
def weight (g : α → Nat) (s : Multiset α) : Nat := (s.map g).sum

@[simp] theorem weight_cons (g : α → Nat) (a : α) (s : Multiset α) :
    weight g (a ::ₘ s) = g a + weight g s := by
  simp [weight]

@[simp] theorem weight_singleton (g : α → Nat) (a : α) :
    weight g ({a} : Multiset α) = g a := by
  simp [weight]

theorem le_weight {g : α → Nat} {a : α} {s : Multiset α} (h : a ∈ s) : g a ≤ weight g s := by
  obtain ⟨rest, rfl⟩ := Multiset.exists_cons_of_mem h
  rw [weight_cons]
  omega

/-- A member that counts for nothing when the whole pool does. -/
theorem eq_zero_of_weight {g : α → Nat} {a : α} {s : Multiset α} (h : a ∈ s)
    (h0 : weight g s = 0) : g a = 0 := by
  have := le_weight (g := g) h
  omega

/-- A pool whose members count for nothing. -/
theorem weight_eq_zero {g : α → Nat} {s : Multiset α} (h : ∀ a ∈ s, g a = 0) : weight g s = 0 := by
  induction s using Multiset.induction with
  | empty => rfl
  | cons a s ih =>
      rw [weight_cons, h a (Multiset.mem_cons_self a s),
        ih fun b hb => h b (Multiset.mem_cons_of_mem hb)]

/-- Weights are monotone in what they count. -/
theorem weight_mono {g g' : α → Nat} (h : ∀ a, g a ≤ g' a) (s : Multiset α) :
    weight g s ≤ weight g' s := by
  induction s using Multiset.induction with
  | empty => simp [weight]
  | cons a s ih =>
      rw [weight_cons, weight_cons]
      have := h a
      omega

theorem weight_add (g g' : α → Nat) (s : Multiset α) :
    weight (fun a => g a + g' a) s = weight g s + weight g' s := by
  simp [weight]

end Pool
