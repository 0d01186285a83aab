import Mathlib.Algebra.BigOperators.Group.Finset.Basic
import Mathlib.Algebra.Group.Action.Defs
import Mathlib.Algebra.Order.BigOperators.Group.Finset
import Mathlib.Algebra.Order.Group.Multiset
import Mathlib.Data.Fintype.BigOperators

/-!
# Buckets

A finite family of buckets, and what is in all of them together. Rewriting one
bucket changes the total by the difference of the two, and draining one takes its
members out of it.
-/

namespace Buckets

variable {ι α M : Type} [Fintype ι]

section

variable [DecidableEq ι] [AddCommMonoid M]

/-- Replacing one bucket, stated without subtraction. -/
theorem sum_update (b : ι → M) (i : ι) (m : M) :
    ∑ j, Function.update b i m j + b i = ∑ j, b j + m := by
  rw [Finset.sum_update_of_mem (Finset.mem_univ i), ← Finset.add_sum_erase _ b (Finset.mem_univ i),
    ← Finset.sdiff_singleton_eq_erase]
  ac_rfl

/-- Replacing one bucket, seen through a measure of the buckets. -/
theorem sum_comp_update {β : Type} (g : β → M) (b : ι → β) (i : ι) (x : β) :
    ∑ j, g (Function.update b i x j) + g (b i) = ∑ j, g (b j) + g x := by
  have h := sum_update (fun j => g (b j)) i (g x)
  have hcomp : ∀ j, Function.update (fun j => g (b j)) i (g x) j = g (Function.update b i x j) := by
    intro j
    by_cases hj : j = i
    · subst hj; simp
    · simp [hj]
  simpa only [hcomp] using h

end

/-- Replacing one bucket, in the total of some of them. -/
theorem sum_comp_update_mem {κ β : Type} [DecidableEq κ] (g : β → Nat) (b : κ → β) {s : Finset κ}
    {i : κ} (hi : i ∈ s) (x : β) :
    ∑ j ∈ s, g (Function.update b i x j) + g (b i) = ∑ j ∈ s, g (b j) + g x := by
  have hrest : ∑ j ∈ s.erase i, g (Function.update b i x j) = ∑ j ∈ s.erase i, g (b j) := by
    refine Finset.sum_congr rfl fun j hj => ?_
    rw [Function.update_of_ne (Finset.ne_of_mem_erase hj)]
  rw [← Finset.sum_erase_add s _ hi, ← Finset.sum_erase_add s (fun j => g (b j)) hi, hrest,
    Function.update_self]
  omega

/-- One bucket that counts for less makes the total less. -/
theorem sum_update_lt [DecidableEq ι] {β : Type} {g : β → Nat} {b : ι → β} {i : ι} {x : β}
    (h : g x < g (b i)) : ∑ j, g (Function.update b i x j) < ∑ j, g (b j) := by
  have hsum := sum_comp_update g b i x
  omega

theorem sum_update_le [DecidableEq ι] {β : Type} {g : β → Nat} {b : ι → β} {i : ι} {x : β}
    (h : g x ≤ g (b i)) : ∑ j, g (Function.update b i x j) ≤ ∑ j, g (b j) := by
  have hsum := sum_comp_update g b i x
  omega

/-- A bound on each bucket bounds the total. -/
theorem sum_le_mul {b : ι → Nat} {k : Nat} (h : ∀ i, b i ≤ k) :
    ∑ i, b i ≤ Fintype.card ι * k := by
  have hsum := Finset.sum_le_card_nsmul Finset.univ b k fun i _ => h i
  rwa [Finset.card_univ, smul_eq_mul] at hsum

/-- All the members of all the buckets. -/
def contents (b : ι → List α) : Multiset α := ∑ i, (b i : Multiset α)

theorem mem_contents {b : ι → List α} {a : α} : a ∈ contents b ↔ ∃ i, a ∈ b i := by
  simp [contents, Multiset.mem_sum]

/-- How many there are. -/
theorem card_contents (b : ι → List α) : (contents b).card = ∑ i, (b i).length := by
  simp [contents, Multiset.card_sum]

/-- One bucket replaced. -/
theorem contents_update [DecidableEq ι] (b : ι → List α) (i : ι) (l : List α) :
    contents (Function.update b i l) + b i = contents b + l :=
  sum_comp_update (fun l : List α => (l : Multiset α)) b i l

/-- One more member in one bucket. -/
theorem contents_push [DecidableEq ι] (b : ι → List α) (i : ι) (a : α) :
    contents (Function.update b i (b i ++ [a])) = contents b + {a} := by
  have h := contents_update b i (b i ++ [a])
  have hb : ((b i ++ [a] : List α) : Multiset α) = {a} + (b i : Multiset α) := by
    rw [← Multiset.coe_add, Multiset.coe_singleton, add_comm]
  rw [hb, ← add_assoc] at h
  exact add_right_cancel h

/-- One bucket emptied. -/
theorem contents_drain [DecidableEq ι] (b : ι → List α) (i : ι) :
    contents (Function.update b i []) + b i = contents b := by
  have h := contents_update b i []
  rw [Multiset.coe_nil, add_zero] at h
  exact h

-- reducing it would enumerate the buckets
attribute [irreducible] contents

end Buckets
