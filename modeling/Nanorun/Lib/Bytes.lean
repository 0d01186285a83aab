import Mathlib.Algebra.Group.Nat.Defs
import Mathlib.Tactic.Common

/-!
# Words and their bytes

How a machine keeps a word of `n` bytes in memory, for either byte order, and how a record
is laid out over a block of bytes. A word is a bit vector of `8 * n` bits; bytes are counted
from the first address up.

`toBe` is the identity on a big-endian machine and swaps the bytes on a little-endian one.
What it is for is `neBytes_toBe`: stored by any machine, the word has its most significant
byte first.

A block of memory is a function from its addresses. `put` writes bytes at an offset, `slice`
reads some; a read sees a write that covers it and no other.
-/

namespace Bytes

abbrev Byte := BitVec 8

inductive Endian where
  | little
  | big
  deriving DecidableEq, Repr

variable {n N : Nat}

/-! ## Words -/

/-- The bytes of a word, least significant first. -/
def leBytes (v : BitVec (8 * n)) (i : Fin n) : Byte := v.extractLsb' (8 * i.val) 8

/-- The bytes of a word, most significant first. -/
def beBytes (v : BitVec (8 * n)) (i : Fin n) : Byte := leBytes v i.rev

/-- The word with these bytes, least significant first. -/
def ofLe : {n : Nat} → (Fin n → Byte) → BitVec (8 * n)
  | 0, _ => 0#0
  | _ + 1, b => (ofLe fun i => b i.succ) ++ b 0

theorem getLsbD_ofLe (b : Fin n → Byte) (i : Fin n) {j : Nat} (hj : j < 8) :
    (ofLe b).getLsbD (8 * i.val + j) = (b i).getLsbD j := by
  induction n with
  | zero => exact i.elim0
  | succ n ih =>
      rw [ofLe, BitVec.getLsbD_append]
      cases i using Fin.cases with
      | zero =>
          rw [if_pos (by simp only [Fin.val_zero]; omega)]
          simp
      | succ i =>
          rw [if_neg (by simp only [Fin.val_succ]; omega)]
          have hsub : 8 * i.succ.val + j - 8 = 8 * i.val + j := by
            simp only [Fin.val_succ]
            omega
          rw [hsub]
          exact ih (fun i => b i.succ) i

@[simp] theorem leBytes_ofLe (b : Fin n → Byte) : leBytes (ofLe b) = b := by
  funext i
  apply BitVec.eq_of_getLsbD_eq
  intro j hj
  rw [leBytes, BitVec.getLsbD_extractLsb', decide_eq_true hj, Bool.true_and]
  exact getLsbD_ofLe b i hj

@[simp] theorem ofLe_leBytes (v : BitVec (8 * n)) : ofLe (leBytes v) = v := by
  apply BitVec.eq_of_getLsbD_eq
  intro k hk
  have hj : k % 8 < 8 := Nat.mod_lt _ (by decide)
  have h := getLsbD_ofLe (leBytes v) ⟨k / 8, by omega⟩ hj
  rw [leBytes, BitVec.getLsbD_extractLsb', decide_eq_true hj, Bool.true_and] at h
  simp only [Nat.div_add_mod] at h
  exact h

/-! ## Byte order -/

/-- `to_ne_bytes`: the bytes as the machine stores them. -/
def neBytes (e : Endian) (v : BitVec (8 * n)) : Fin n → Byte :=
  match e with
  | .little => leBytes v
  | .big => beBytes v

/-- `from_ne_bytes` -/
def ofNe (e : Endian) (b : Fin n → Byte) : BitVec (8 * n) :=
  match e with
  | .little => ofLe b
  | .big => ofLe fun i => b i.rev

/-- `swap_bytes` -/
def swapBytes (v : BitVec (8 * n)) : BitVec (8 * n) := ofLe (beBytes v)

/-- `to_be` -/
def toBe (e : Endian) (v : BitVec (8 * n)) : BitVec (8 * n) :=
  match e with
  | .little => swapBytes v
  | .big => v

/-- `from_be` -/
def fromBe (e : Endian) (v : BitVec (8 * n)) : BitVec (8 * n) :=
  match e with
  | .little => swapBytes v
  | .big => v

@[simp] theorem neBytes_ofNe (e : Endian) (b : Fin n → Byte) : neBytes e (ofNe e b) = b := by
  cases e with
  | little => exact leBytes_ofLe b
  | big =>
      funext i
      show leBytes (ofLe fun i => b i.rev) i.rev = b i
      rw [leBytes_ofLe, Fin.rev_rev]

@[simp] theorem ofNe_neBytes (e : Endian) (v : BitVec (8 * n)) : ofNe e (neBytes e v) = v := by
  cases e with
  | little => exact ofLe_leBytes v
  | big =>
      show ofLe (fun i => leBytes v i.rev.rev) = v
      simp only [Fin.rev_rev]
      exact ofLe_leBytes v

theorem swapBytes_swapBytes (v : BitVec (8 * n)) : swapBytes (swapBytes v) = v := by
  have hrev : beBytes (ofLe (beBytes v)) = leBytes v := by
    funext i
    rw [beBytes, leBytes_ofLe, beBytes, Fin.rev_rev]
  rw [swapBytes, swapBytes, hrev, ofLe_leBytes]

@[simp] theorem fromBe_toBe (e : Endian) (v : BitVec (8 * n)) : fromBe e (toBe e v) = v := by
  cases e with
  | little => exact swapBytes_swapBytes v
  | big => rfl

@[simp] theorem toBe_fromBe (e : Endian) (v : BitVec (8 * n)) : toBe e (fromBe e v) = v := by
  cases e with
  | little => exact swapBytes_swapBytes v
  | big => rfl

/-- Most significant byte first, whatever the machine. -/
theorem neBytes_toBe (e : Endian) (v : BitVec (8 * n)) : neBytes e (toBe e v) = beBytes v := by
  cases e with
  | little => exact leBytes_ofLe _
  | big => rfl

/-! ## Blocks of memory -/

/-- Write bytes from an offset on. -/
def put (m : Fin N → Byte) (off : Nat) (b : Fin n → Byte) : Fin N → Byte := fun i =>
  if h : off ≤ i.val ∧ i.val < off + n then b ⟨i.val - off, by omega⟩ else m i

/-- The bytes from an offset on; a block ends in zeroes. -/
def slice (m : Fin N → Byte) (off n : Nat) : Fin n → Byte := fun i =>
  if h : off + i.val < N then m ⟨off + i.val, h⟩ else 0

theorem slice_apply (m : Fin N → Byte) {off : Nat} {i : Fin n} (h : off + i.val < N) :
    slice m off n i = m ⟨off + i.val, h⟩ := dif_pos h

theorem put_inside (m : Fin N → Byte) {off : Nat} (b : Fin n → Byte) {i : Fin N}
    (h : off ≤ i.val ∧ i.val < off + n) : put m off b i = b ⟨i.val - off, by omega⟩ := dif_pos h

theorem put_outside (m : Fin N → Byte) {off : Nat} (b : Fin n → Byte) {i : Fin N}
    (h : i.val < off ∨ off + n ≤ i.val) : put m off b i = m i := dif_neg (by omega)

/-- A read sees the write that covers it. -/
theorem slice_put_self (m : Fin N → Byte) {off : Nat} (b : Fin n → Byte) (h : off + n ≤ N) :
    slice (put m off b) off n = b := by
  funext i
  rw [slice_apply _ (by omega), put_inside _ _ (by simp only; omega)]
  simp only [Nat.add_sub_cancel_left]

/-- It does not see one beside it. -/
theorem slice_put_other (m : Fin N → Byte) {off off' k : Nat} (b : Fin n → Byte)
    (h : off' + k ≤ off ∨ off + n ≤ off') : slice (put m off b) off' k = slice m off' k := by
  funext i
  unfold slice
  split
  · rw [put_outside _ _ (by simp only; omega)]
  · rfl

/-- A part of a part. -/
theorem slice_slice (m : Fin N → Byte) {base off k : Nat} (h : off + k ≤ n) (hN : base + n ≤ N) :
    slice (slice m base n) off k = slice m (base + off) k := by
  funext i
  rw [slice_apply _ (by omega), slice_apply _ (by simp only; omega), slice_apply _ (by omega)]
  simp only [Nat.add_assoc]

/-- Writing back what was read from the same place carries an agreement further. -/
theorem put_slice_agrees {m b : Fin N → Byte} {off : Nat} (h : ∀ i, i.val < off → m i = b i) :
    ∀ i, i.val < off + n → put m off (slice b off n) i = b i := by
  intro i hi
  by_cases hlt : i.val < off
  · rw [put_outside _ _ (.inl hlt)]
    exact h i hlt
  · rw [put_inside _ _ ⟨by omega, hi⟩, slice_apply _ (by simp only; omega)]
    congr 1
    exact Fin.ext (by simp only; omega)

end Bytes
