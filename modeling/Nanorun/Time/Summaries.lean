import Mathlib.Order.Bounds.Basic
import Nanorun.Time.NextTick
import Nanorun.Time.Turning

/-!
# The wheel's summaries

`count` and the masks of the levels repeat what the slots say. They are written where an
entry is put into a slot and where a slot is drained, and a cascade does both: it takes
the drained entries off the count and adds those it puts back, one by one. `Books` is kept by
every step, so the summaries agree with the slots in the middle of a turn as well.

What the driver asks of them is `next_tick`, and `advance_to` itself whether it may jump.
-/

namespace Nanorun.Time

open Bits Transition

theorem card_stored (w : Wheel) :
    w.stored.card = ∑ k, ∑ i, ((w.levels k).slots i).length := by
  simp only [Wheel.stored, Multiset.card_sum, Buckets.card_contents]

theorem stored_eq_zero {w : Wheel} : w.stored = 0 ↔ ∀ k i, (w.levels k).slots i = [] := by
  constructor
  · intro h k i
    rw [List.eq_nil_iff_forall_not_mem]
    intro e he
    have hmem : e ∈ w.stored := Wheel.mem_stored.mpr ⟨k, i, he⟩
    rw [h] at hmem
    exact absurd hmem (Multiset.notMem_zero e)
  · intro h
    rw [Multiset.eq_zero_iff_forall_notMem]
    intro e he
    obtain ⟨k, i, hs⟩ := Wheel.mem_stored.mp he
    rw [h k i] at hs
    exact absurd hs List.not_mem_nil

namespace Books

/-- No slot holds more than the count, so draining one takes nothing below zero. -/
theorem length_le {w : Wheel} (h : Books w) (k : Fin 6) (i : Fin 64) :
    ((w.levels k).slots i).length ≤ w.count := by
  have hsum := congrArg Multiset.card (stored_drain w k i)
  rw [Multiset.card_add, Multiset.coe_card, ← h.counted] at hsum
  have hlen : (w.drain k i).2.length = ((w.levels k).slots i).length := rfl
  omega

theorem occupied_iff {w : Wheel} (h : Books w) (k : Fin 6) (i : Fin 64) :
    has (w.levels k).occupied (bit i) = true ↔ (w.levels k).slots i ≠ [] := by
  rw [h.marked k i, Bool.not_eq_true', ← Bool.not_eq_true, List.isEmpty_iff]

theorem stored_of_count {w : Wheel} (h : Books w) (h0 : w.count = 0) : w.stored = 0 := by
  rw [← Multiset.card_eq_zero, ← h.counted, h0]

/-- `next_tick` finds nothing exactly in an empty wheel. -/
theorem nextTick_none {w : Wheel} (h : Books w) : w.nextTick = none ↔ w.stored = 0 := by
  constructor
  · intro hnone
    rw [Multiset.eq_zero_iff_forall_notMem]
    intro e he
    obtain ⟨t, ht, _⟩ := nextTick_le h he
    rw [hnone] at ht
    exact absurd ht (by simp)
  · intro hz
    cases ht : w.nextTick with
    | none => rfl
    | some t =>
        obtain ⟨e, he, _⟩ := mem_of_nextTick ht
        rw [hz] at he
        exact absurd he (Multiset.notMem_zero e)

theorem nextTick_isLeast {w : Wheel} (h : Books w) {t : Nat} (ht : w.nextTick = some t) :
    IsLeast {d | ∃ e ∈ w.stored, e.deadline = d} t := by
  refine ⟨mem_of_nextTick ht, ?_⟩
  rintro d ⟨e, he, rfl⟩
  obtain ⟨t', ht', hle⟩ := nextTick_le h he
  rw [ht] at ht'
  obtain rfl := Option.some.inj ht'
  exact hle

end Books

/-- The cursor moves by one tick at the start of a turn, or jumps in an empty wheel. -/
theorem step_moves {s s' : Turning} {a : Act} (h : Books s.wheel) (hs : s.step a = some s')
    (hne : s'.wheel.cursor ≠ s.wheel.cursor) :
    (s'.wheel.cursor = s.wheel.cursor + 1 ∧ ∃ now, s'.pc = .level now 5) ∨ s.wheel.stored = 0 := by
  cases step_cases hs with
  | tick _ => exact .inl ⟨rfl, _, rfl⟩
  | jump _ h0 => exact .inr (h.stored_of_count h0)
  | jumpAfter h0 => exact .inr (h.stored_of_count h0)
  | insert => exact absurd (insert_cursor _ _) hne
  | reinsert => exact absurd (reinsert_cursor _ _) hne
  | clear | stay _ | enter _ _ | leave _ | skip _ | drain _ | next | finish | again _ =>
      exact absurd rfl hne

/--
**The summaries never drift, and `next_tick` is the minimum.**

In every state of every run without overflow, also in the middle of a turn, `count` is the
number of stored entries, no slot holds more than that, and bit `i` of a level's mask is
set exactly if its slot `i` is not empty. Between two calls `next_tick` is `None` exactly
if nothing is stored and else the earliest stored deadline, which is still ahead of the
cursor. A step that moves the cursor begins a turn of one tick, or jumps in a wheel that
stores nothing.
-/
theorem summaries_exact {s : Turning} (h : turning.ReachableVia NoOverflow s) :
    (s.wheel.count = ∑ k, ∑ i, ((s.wheel.levels k).slots i).length
      ∧ (∀ k i, ((s.wheel.levels k).slots i).length ≤ s.wheel.count)
      ∧ ∀ (k : Fin 6) (i : Fin 64),
          has (s.wheel.levels k).occupied (bit i) = true ↔ (s.wheel.levels k).slots i ≠ [])
    ∧ (s.pc = .rest →
        (s.wheel.nextTick = none ↔ ∀ k i, (s.wheel.levels k).slots i = [])
        ∧ ∀ t, s.wheel.nextTick = some t →
            IsLeast {d | ∃ e ∈ s.wheel.stored, e.deadline = d} t ∧ s.wheel.cursor < t)
    ∧ ∀ a s', s.step a = some s' → s'.wheel.cursor ≠ s.wheel.cursor →
        (s'.wheel.cursor = s.wheel.cursor + 1 ∧ ∃ now, s'.pc = .level now 5)
        ∨ s.wheel.stored = 0 := by
  have hi := turningInv_reachable h
  have hb := hi.staged.books
  refine ⟨⟨?_, hb.length_le, hb.occupied_iff⟩, ?_, fun a s' hs hne => step_moves hb hs hne⟩
  · rw [hb.counted, card_stored]
  · intro hrest
    have hw : WheelInv s.wheel := hi.wheel (by rw [hrest]; rfl)
    refine ⟨hb.nextTick_none.trans stored_eq_zero, fun t ht => ⟨hb.nextTick_isLeast ht, ?_⟩⟩
    obtain ⟨e, he, hd⟩ := mem_of_nextTick ht
    rw [← hd]
    exact hw.cursor_lt he

/-- Two timers; the first expires, and the second stays at level 1. -/
def firstExpires : List Act :=
  [.insert ⟨7, 2⟩, .insert ⟨8, 70⟩, .advanceTo 3] ++ List.replicate 25 .go

theorem summaries_exact_firstExpires :
    ∃ s, turning.ReachableVia NoOverflow s ∧ s.pc = .rest ∧ s.expired = [⟨7, 2⟩]
      ∧ s.wheel.nextTick = some 70 ∧ s.wheel.cursor < 70 := by
  have hm : turning.Meets NoOverflow Turning.new firstExpires := by decide +kernel
  obtain ⟨s, hrun, hr⟩ := hm.run (.init rfl)
  have hend : ∀ s ∈ turning.run Turning.new firstExpires,
      s.pc = .rest ∧ s.expired = [⟨7, 2⟩] ∧ s.wheel.nextTick = some 70 := by
    decide +kernel
  obtain ⟨hrest, hex, ht⟩ := hend s hrun
  exact ⟨s, hr, hrest, hex, ht, (((summaries_exact hr).2.1 hrest).2 70 ht).2⟩

end Nanorun.Time
