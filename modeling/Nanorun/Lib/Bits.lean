import Mathlib.Tactic.Common

/-!
# Flag words

A 64-bit word used as a set of flags. `bit i` is the mask `1 << i`, `has` is the
test `word & mask != 0`. Setting a flag is `||| bit i`, clearing it is
`&&& ~~~bit i`; the `simp` lemmas below say what each does to every flag, so that
a proof about a state word never looks at its bits.
-/

namespace Bits

/-- A word of flags. -/
abbrev Word := BitVec 64

/-- The mask of flag `i`. -/
def bit (i : Nat) : Word := 1#64 <<< i

/-- `word & mask != 0`. -/
def has (s m : Word) : Bool := s &&& m != 0

theorem bit_getLsbD (i j : Nat) : (bit i).getLsbD j = (decide (i = j) && decide (j < 64)) := by
  simp only [bit, BitVec.getLsbD_shiftLeft, BitVec.getLsbD_one]
  by_cases hj : j < 64
  · by_cases hij : i = j
    · subst hij; simp [hj]
    · by_cases hlt : j < i
      · simp [hj, hij, hlt]
      · have : j - i ≠ 0 := by omega
        simp [hj, hij, hlt, this]
  · simp [hj]

theorem has_bit (s : Word) (i : Nat) : has s (bit i) = s.getLsbD i := by
  by_cases h : s.getLsbD i = true
  · have hi : i < 64 := by
      by_contra hc; rw [BitVec.getLsbD_of_ge s i (by omega)] at h; exact absurd h (by simp)
    have hne : s &&& bit i ≠ 0 := by
      intro h0
      have := congrArg (fun x => BitVec.getLsbD x i) h0
      simp only [BitVec.getLsbD_and, bit_getLsbD, h, hi] at this
      exact absurd this (by simp)
    rw [h, has]
    simpa using hne
  · have heq : s &&& bit i = 0 := by
      apply BitVec.eq_of_getLsbD_eq
      intro j _
      rw [BitVec.getLsbD_and, bit_getLsbD]
      by_cases hij : i = j
      · subst hij; simp [h]
      · simp [hij]
    rw [has, heq]
    simpa using h

@[simp] theorem has_or_bit (s : Word) (i j : Nat) :
    has (s ||| bit i) (bit j) = (has s (bit j) || (decide (i = j) && decide (j < 64))) := by
  rw [has_bit, has_bit, BitVec.getLsbD_or, bit_getLsbD]

@[simp] theorem has_clear_bit (s : Word) (i j : Nat) :
    has (s &&& ~~~bit i) (bit j) = (has s (bit j) && !decide (i = j)) := by
  rw [has_bit, has_bit, BitVec.getLsbD_and, BitVec.getLsbD_not, bit_getLsbD]
  by_cases hj : j < 64
  · simp [hj]
  · simp [BitVec.getLsbD_of_ge s j (by omega)]

/-- Testing two flags at once. -/
@[simp] theorem has_or_mask (s m m' : Word) : has s (m ||| m') = (has s m || has s m') := by
  have h : s &&& (m ||| m') = (s &&& m) ||| (s &&& m') := BitVec.and_or_distrib_left
  have h0 : s &&& (m ||| m') = 0 ↔ s &&& m = 0 ∧ s &&& m' = 0 := by
    rw [h]; exact BitVec.or_eq_zero_iff
  unfold has
  rw [Bool.eq_iff_iff, Bool.or_eq_true, bne_iff_ne, bne_iff_ne, bne_iff_ne]
  rw [Ne, h0]
  exact Decidable.not_and_iff_not_or_not

end Bits
