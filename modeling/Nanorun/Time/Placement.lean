import Mathlib.Tactic.Ring
import Nanorun.Lib.Buckets
import Nanorun.Time.Wheel

/-!
# Where the wheel keeps an entry

At level `k` a slot stands for one period of `64 ^ k` ticks. An entry with
deadline `d` sits in the slot of its period `d / 64 ^ k`, and that period lies
after the cursor's and at most one full turn ahead. A full turn ahead shares its
slot with the cursor's own period, which is why the lower bound is strict: when
the cursor enters a period, the slot holds the entries of that period and no
others.

`advance_one` moves the cursor first and then puts the levels right from the top
down. `Staged j` is the state in between: levels from `j` up fit the new cursor,
the ones below still fit the old one. An entry that cascades into a level below
fits both.
-/

namespace Nanorun.Time

open Bits

/-! ## Periods -/

theorem slotOf_val (k tick : Nat) : (slotOf k tick).val = tick / 64 ^ k % 64 := by
  have hpow : (2 : Nat) ^ (6 * k) = 64 ^ k := by rw [Nat.pow_mul]
  show tick >>> (6 * k) &&& 63 = tick / 64 ^ k % 64
  rw [Nat.shiftRight_eq_div_pow, hpow]
  exact Nat.and_two_pow_sub_one_eq_mod _ 6

theorem period_eq (k : Nat) : 1 <<< (6 * k) = 64 ^ k := by
  rw [Nat.shiftLeft_eq, Nat.one_mul, Nat.pow_mul]

theorem maxTicks_eq : maxTicks = 64 ^ 6 := by decide

/-- `level_for` finds the level whose period the delta reaches, but not 64 times over. -/
theorem levelFor_spec {delta : Nat} (h0 : 0 < delta) (hmax : delta < 64 ^ 6) :
    64 ^ (levelFor delta).val ≤ delta ∧ delta < 64 ^ ((levelFor delta).val + 1) := by
  have hne : delta ≠ 0 := by omega
  have hlt : delta.log2 < 36 := (Nat.log2_lt hne).mpr (by omega)
  have hk : (levelFor delta).val = delta.log2 / 6 := by
    unfold levelFor
    simp only
    omega
  have h64 : ∀ j, 64 ^ j = 2 ^ (6 * j) := fun j => by rw [Nat.pow_mul]
  rw [hk, h64, h64]
  constructor
  · exact (Nat.le_log2 hne).mp (by omega)
  · exact (Nat.log2_lt hne).mp (by omega)

/-- The cursor enters a new period exactly at its multiples. -/
theorem div_pred {c P : Nat} (hc : 0 < c) :
    c / P = (c - 1) / P + if c % P = 0 then 1 else 0 := by
  obtain ⟨n, rfl⟩ : ∃ n, c = n + 1 := ⟨c - 1, by omega⟩
  rw [Nat.succ_div, Nat.add_sub_cancel]
  by_cases hd : P ∣ n + 1
  · rw [if_pos hd, if_pos (Nat.mod_eq_zero_of_dvd hd)]
  · rw [if_neg hd, if_neg (fun h => hd (Nat.dvd_of_mod_eq_zero h))]

/-- At a multiple of a higher period it enters a new one of every lower level. -/
theorem div_pred_of_mod {c k j : Nat} (hc : 0 < c) (hmod : c % 64 ^ k = 0) (hjk : j ≤ k) :
    c % 64 ^ j = 0 ∧ c / 64 ^ j = (c - 1) / 64 ^ j + 1 := by
  have hmod' : c % 64 ^ j = 0 :=
    Nat.mod_eq_zero_of_dvd (Nat.dvd_trans (Nat.pow_dvd_pow 64 hjk) (Nat.dvd_of_mod_eq_zero hmod))
  have hq := div_pred (P := 64 ^ j) hc
  rw [if_pos hmod'] at hq
  exact ⟨hmod', hq⟩

/-! ## Placement -/

/-- The entry is in the slot of its period, which comes after the cursor's within one turn. -/
structure Placed (c k : Nat) (s : Fin 64) (e : Entry) : Prop where
  slot : s = slotOf k e.deadline
  after : c / 64 ^ k < e.deadline / 64 ^ k
  within : e.deadline / 64 ^ k ≤ c / 64 ^ k + 64

theorem Placed.cursor_lt {c k : Nat} {s : Fin 64} {e : Entry} (h : Placed c k s e) :
    c < e.deadline := by
  by_contra hle
  have := Nat.div_le_div_right (c := 64 ^ k) (Nat.le_of_not_lt hle)
  have := h.after
  omega

/-- What `insert` chooses is a placement. -/
theorem placed_of_delta {c k : Nat} {e : Entry} (hlo : c + 64 ^ k ≤ e.deadline)
    (hhi : e.deadline < c + 64 ^ (k + 1)) : Placed c k (slotOf k e.deadline) e := by
  have hP : 0 < 64 ^ k := Nat.pow_pos (by decide)
  refine ⟨rfl, ?_, ?_⟩
  · have h1 : (c + 64 ^ k) / 64 ^ k = c / 64 ^ k + 1 := Nat.add_div_right c hP
    have h2 := Nat.div_le_div_right (c := 64 ^ k) hlo
    omega
  · have h1 : (c + 64 * 64 ^ k) / 64 ^ k = c / 64 ^ k + 64 := Nat.add_mul_div_right c 64 hP
    have h2 : e.deadline ≤ c + 64 * 64 ^ k := by rw [Nat.pow_succ] at hhi; omega
    have h3 := Nat.div_le_div_right (c := 64 ^ k) h2
    omega

/-- Inside a period the cursor's move changes no placement. -/
theorem Placed.within_period {c k : Nat} {s : Fin 64} {e : Entry} (h : Placed (c - 1) k s e)
    (hc : 0 < c) (hmod : c % 64 ^ k ≠ 0) : Placed c k s e := by
  have hq := div_pred (P := 64 ^ k) hc
  rw [if_neg hmod, Nat.add_zero] at hq
  exact ⟨h.slot, by rw [hq]; exact h.after, by rw [hq]; exact h.within⟩

/-- At the start of a period its slot holds exactly the entries of that period. -/
theorem Placed.current {c k : Nat} {s : Fin 64} {e : Entry} (h : Placed (c - 1) k s e) (hc : 0 < c)
    (hmod : c % 64 ^ k = 0) :
    if s = slotOf k c then e.deadline / 64 ^ k = c / 64 ^ k else Placed c k s e := by
  have hq := div_pred (P := 64 ^ k) hc
  rw [if_pos hmod] at hq
  have h1 := h.after
  have h2 := h.within
  have hs : s.val = e.deadline / 64 ^ k % 64 := by rw [h.slot, slotOf_val]
  have hcur := slotOf_val k c
  split
  · rename_i heq
    rw [heq, hcur] at hs
    omega
  · rename_i hne
    have hne' : s.val ≠ (slotOf k c).val := fun hv => hne (Fin.ext hv)
    rw [hs, hcur] at hne'
    refine ⟨h.slot, ?_, by omega⟩
    by_contra hle
    have : e.deadline / 64 ^ k = c / 64 ^ k := by omega
    rw [this] at hne'
    exact hne' rfl

/-- An entry of the period that just began is due now, or belongs to a level below. -/
theorem cascade_delta {c k d : Nat} (hmod : c % 64 ^ k = 0) (hd : d / 64 ^ k = c / 64 ^ k) :
    c ≤ d ∧ d < c + 64 ^ k := by
  have hP : 0 < 64 ^ k := Nat.pow_pos (by decide)
  have hc := Nat.div_add_mod c (64 ^ k)
  have hdm := Nat.div_add_mod d (64 ^ k)
  have hlt := Nat.mod_lt d hP
  rw [hd] at hdm
  omega

/-- The level a cascading entry lands in is a lower one. -/
theorem level_lt {delta k : Nat} (h0 : 0 < delta) (hlt : delta < 64 ^ k) (hk : k < 6) :
    (levelFor delta).val < k := by
  have hmax : delta < 64 ^ 6 := Nat.lt_of_lt_of_le hlt (Nat.pow_le_pow_right (by decide) (by omega))
  have hlo := (levelFor_spec h0 hmax).1
  by_contra hge
  have := Nat.pow_le_pow_right (n := 64) (by decide) (Nat.le_of_not_lt hge)
  omega

/-- There it fits the old cursor too, so the levels still to cascade leave it alone. -/
theorem placed_of_cascade {c k j : Nat} {e : Entry} (hc : 0 < c) (hmod : c % 64 ^ k = 0)
    (hjk : j ≤ k) (hlo : c + 64 ^ j ≤ e.deadline) (hhi : e.deadline < c + 64 ^ (j + 1)) :
    Placed (c - 1) j (slotOf j e.deadline) e := by
  have hP : 0 < 64 ^ j := Nat.pow_pos (by decide)
  obtain ⟨hmod', hq⟩ := div_pred_of_mod hc hmod hjk
  have h := placed_of_delta hlo hhi
  have hlt : e.deadline / 64 ^ j < c / 64 ^ j + 64 := by
    rw [Nat.div_lt_iff_lt_mul hP]
    have hcm := Nat.div_add_mod c (64 ^ j)
    rw [hmod', Nat.add_zero] at hcm
    calc e.deadline < c + 64 ^ (j + 1) := hhi
      _ = 64 ^ j * (c / 64 ^ j) + 64 ^ (j + 1) := by rw [hcm]
      _ = (c / 64 ^ j + 64) * 64 ^ j := by ring
  exact ⟨rfl, by have := h.after; omega, by omega⟩

/-! ## The wheel's invariant -/

/-- Everything the wheel stores. -/
def Wheel.stored (w : Wheel) : Multiset Entry := ∑ k, Buckets.contents (w.levels k).slots

theorem Wheel.mem_stored {w : Wheel} {e : Entry} :
    e ∈ w.stored ↔ ∃ k s, e ∈ (w.levels k).slots s := by
  simp [Wheel.stored, Multiset.mem_sum, Buckets.mem_contents]

/-- Bit `s` of the mask is set exactly if slot `s` is not empty. -/
def Level.Marked (l : Level) : Prop := ∀ s : Fin 64, has l.occupied (bit s) = !(l.slots s).isEmpty

/-- Every entry of the level is placed. -/
def Level.Fits (l : Level) (c k : Nat) : Prop := ∀ s, ∀ e ∈ l.slots s, Placed c k s e

/-- Levels from `j` up fit the cursor, the ones below fit the tick before. -/
structure Staged (j : Nat) (w : Wheel) : Prop where
  fits : ∀ k : Fin 6, (w.levels k).Fits (if j ≤ k then w.cursor else w.cursor - 1) k
  marked : ∀ k, (w.levels k).Marked
  counted : w.count = w.stored.card

/-- Between two operations every level fits the cursor. -/
abbrev WheelInv (w : Wheel) : Prop := Staged 0 w

theorem wheelInv_new : WheelInv Wheel.new where
  fits := by
    intro k s e he
    have hnil : ((Wheel.new.levels k).slots s) = [] := rfl
    rw [hnil] at he
    exact absurd he List.not_mem_nil
  marked := by intro k s; simp [Wheel.new, Level.new, has]
  counted := by simp [Wheel.new, Level.new, Wheel.stored, Buckets.contents]

theorem WheelInv.cursor_lt {w : Wheel} (h : WheelInv w) {e : Entry} (he : e ∈ w.stored) :
    w.cursor < e.deadline := by
  obtain ⟨k, s, hs⟩ := Wheel.mem_stored.mp he
  have := h.fits k s e hs
  rw [if_pos (Nat.zero_le _)] at this
  exact this.cursor_lt

/-! ### `put` and `drain` -/

theorem stored_put (w : Wheel) (k : Fin 6) (s : Fin 64) (e : Entry) :
    (w.put k s e).stored = w.stored + {e} := by
  have h := Buckets.sum_comp_update (fun l : Level => Buckets.contents l.slots) w.levels k
    ((w.levels k).insert s e)
  have hl : Buckets.contents ((w.levels k).insert s e).slots
      = {e} + Buckets.contents (w.levels k).slots := by
    rw [add_comm]; exact Buckets.contents_push _ _ _
  simp only [hl, ← add_assoc] at h
  unfold Wheel.stored
  exact add_right_cancel h

theorem stored_drain (w : Wheel) (k : Fin 6) (s : Fin 64) :
    (w.drain k s).1.stored + (w.drain k s).2 = w.stored := by
  have h := Buckets.sum_comp_update (fun l : Level => Buckets.contents l.slots) w.levels k
    ((w.levels k).drainSlot s).1
  have hl : Buckets.contents ((w.levels k).drainSlot s).1.slots + (w.drain k s).2
      = Buckets.contents (w.levels k).slots := Buckets.contents_drain _ _
  rw [← hl, ← add_assoc, add_right_comm] at h
  unfold Wheel.stored
  exact add_right_cancel h

theorem mem_insert_slot {l : Level} {s s' : Fin 64} {e e' : Entry}
    (h : e' ∈ (l.insert s e).slots s') : e' ∈ l.slots s' ∨ (s' = s ∧ e' = e) := by
  by_cases hs : s' = s
  · subst hs
    simp only [Level.insert, Function.update_self, List.mem_append, List.mem_singleton] at h
    exact h.imp_right fun he => ⟨rfl, he⟩
  · simp only [Level.insert, Function.update_of_ne hs] at h
    exact .inl h

theorem mem_drain_slot {l : Level} {s s' : Fin 64} {e : Entry}
    (h : e ∈ (l.drainSlot s).1.slots s') : s' ≠ s ∧ e ∈ l.slots s' := by
  by_cases hs : s' = s
  · subst hs; exact absurd h (by simp [Level.drainSlot])
  · simp only [Level.drainSlot, Function.update_of_ne hs] at h
    exact ⟨hs, h⟩

theorem marked_insert {l : Level} (h : l.Marked) (s : Fin 64) (e : Entry) :
    (l.insert s e).Marked := by
  intro s'
  have h0 := h s'
  by_cases hs : s' = s
  · subst hs; simp [Level.insert]
  · have hne : ¬ s.val = s'.val := fun hv => hs (Fin.ext hv.symm)
    simp [Level.insert, hs, h0, hne]

theorem marked_drain {l : Level} (h : l.Marked) (s : Fin 64) : (l.drainSlot s).1.Marked := by
  intro s'
  have h0 := h s'
  by_cases hs : s' = s
  · subst hs; simp [Level.drainSlot]
  · have hne : ¬ s.val = s'.val := fun hv => hs (Fin.ext hv.symm)
    simp [Level.drainSlot, hs, h0, hne]

/-- The masks and the count agree with the slots. This does not depend on where entries are. -/
structure Books (w : Wheel) : Prop where
  marked : ∀ k, (w.levels k).Marked
  counted : w.count = w.stored.card

theorem Staged.books {j : Nat} {w : Wheel} (h : Staged j w) : Books w := ⟨h.marked, h.counted⟩

theorem Books.put {w : Wheel} (h : Books w) (k : Fin 6) (s : Fin 64) (e : Entry) :
    Books (w.put k s e) where
  marked := by
    intro k'
    by_cases hk : k' = k
    · subst hk; simp only [Wheel.put, Function.update_self]; exact marked_insert (h.marked k') s e
    · simp only [Wheel.put, Function.update_of_ne hk]; exact h.marked k'
  counted := by
    rw [stored_put, Multiset.card_add, Multiset.card_singleton, ← h.counted]
    rfl

theorem Books.drain {w : Wheel} (h : Books w) (k : Fin 6) (s : Fin 64) : Books (w.drain k s).1 where
  marked := by
    intro k'
    by_cases hk : k' = k
    · subst hk; simp only [Wheel.drain, Function.update_self]; exact marked_drain (h.marked k') _
    · simp only [Wheel.drain, Function.update_of_ne hk]; exact h.marked k'
  counted := by
    have hs := congrArg Multiset.card (stored_drain w k s)
    rw [Multiset.card_add, Multiset.coe_card, ← h.counted] at hs
    show w.count - (w.drain k s).2.length = _
    omega

/-- An entry placed for its level's stage keeps the wheel staged. -/
theorem Staged.put {j : Nat} {w : Wheel} (h : Staged j w) {k : Fin 6} {s : Fin 64} {e : Entry}
    (he : Placed (if j ≤ k then w.cursor else w.cursor - 1) k s e) : Staged j (w.put k s e) where
  fits := by
    intro k' s' e' he'
    by_cases hk : k' = k
    · subst hk
      simp only [Wheel.put, Function.update_self] at he' ⊢
      rcases mem_insert_slot he' with hold | ⟨rfl, rfl⟩
      · exact h.fits k' s' e' hold
      · exact he
    · simp only [Wheel.put, Function.update_of_ne hk] at he' ⊢
      exact h.fits k' s' e' he'
  marked := (h.books.put k s e).marked
  counted := (h.books.put k s e).counted

/-- The cursor has entered a period of level `k`: draining its slot brings the level up to date. -/
theorem Staged.drain {w : Wheel} {k : Fin 6} (h : Staged (k + 1) w) (hc : 0 < w.cursor)
    (hmod : w.cursor % 64 ^ k.val = 0) :
    Staged k (w.drain k (slotOf k w.cursor)).1
      ∧ ∀ e ∈ (w.drain k (slotOf k w.cursor)).2, e.deadline / 64 ^ k.val = w.cursor / 64 ^ k.val := by
  -- what the old cursor says about an entry of level `k`
  have hold : ∀ s, ∀ e ∈ (w.levels k).slots s, Placed (w.cursor - 1) k s e := by
    intro s e he
    have := h.fits k s e he
    rwa [if_neg (by omega)] at this
  refine ⟨⟨?_, ?_, ?_⟩, ?_⟩
  · intro k' s e he
    by_cases hk : k' = k
    · subst hk
      simp only [Wheel.drain, Function.update_self] at he ⊢
      obtain ⟨hs, he⟩ := mem_drain_slot he
      have := (hold s e he).current hc hmod
      rw [if_neg hs] at this
      rw [if_pos (Nat.le_refl _)]
      exact this
    · simp only [Wheel.drain, Function.update_of_ne hk] at he ⊢
      have hf := h.fits k' s e he
      have hne : k'.val ≠ k.val := fun hv => hk (Fin.ext hv)
      by_cases hle : k.val ≤ k'.val
      · rw [if_pos (by omega)] at hf
        rw [if_pos hle]
        exact hf
      · rw [if_neg (by omega)] at hf
        rw [if_neg hle]
        exact hf
  · exact (h.books.drain k _).marked
  · exact (h.books.drain k _).counted
  · intro e he
    have := (hold (slotOf k w.cursor) e he).current hc hmod
    rwa [if_pos rfl] at this

/-- Inside a period of level `k` the level is up to date as it is. -/
theorem Staged.skip {w : Wheel} {k : Fin 6} (h : Staged (k + 1) w) (hc : 0 < w.cursor)
    (hmod : w.cursor % 64 ^ k.val ≠ 0) : Staged k w where
  fits := by
    intro k' s e he
    have hf := h.fits k' s e he
    by_cases hk : k' = k
    · subst hk
      rw [if_neg (by omega)] at hf
      rw [if_pos (Nat.le_refl _)]
      exact hf.within_period hc hmod
    · have hne : k'.val ≠ k.val := fun hv => hk (Fin.ext hv)
      by_cases hle : k.val ≤ k'.val
      · rw [if_pos (by omega)] at hf
        rw [if_pos hle]
        exact hf
      · rw [if_neg (by omega)] at hf
        rw [if_neg hle]
        exact hf
  marked := h.marked
  counted := h.counted

end Nanorun.Time
