import Nanorun.Time.NextTick
import Nanorun.Time.Turning

/-!
# Cascades only go down

The slot of an entry forgets which turn of its level the entry belongs to: one that is 64
periods ahead shares its slot with the cursor's own period. The placement keeps the two
apart by a strict bound below. Hence what the cursor finds in the current slot of a level is
due within one period of that level, and goes back into a level further down.

There its slot is not the current one. The levels below are drained in the same turn, each
in its current slot, and leave the entry where it is.
-/

namespace Nanorun.Time

open Transition

/-! ## The slot of an entry that is put back -/

/-- It is not the current slot of its level. -/
theorem slot_ne_current {c k i : Nat} {e : Entry} (hc : 0 < c) (hmod : c % 64 ^ k = 0) (hik : i ≤ k)
    (hlo : c + 64 ^ i ≤ e.deadline) (hhi : e.deadline < c + 64 ^ (i + 1)) :
    slotOf i e.deadline ≠ slotOf i c := by
  have hq := (div_pred_of_mod hc hmod hik).2
  -- less than a full turn ahead of the new cursor, since it fits the old one too
  have hafter := (placed_of_delta hlo hhi).after
  have hwithin := (placed_of_cascade hc hmod hik hlo hhi).within
  intro heq
  have hval := congrArg Fin.val heq
  rw [slotOf_val, slotOf_val] at hval
  omega

theorem mem_put {w : Wheel} {i : Fin 6} {sl : Fin 64} {e : Entry} (he : e ∈ (w.levels i).slots sl)
    (k : Fin 6) (s : Fin 64) (x : Entry) : e ∈ ((w.put k s x).levels i).slots sl := by
  by_cases hk : i = k
  · subst hk
    by_cases hs : sl = s
    · subst hs
      simp only [Wheel.put, Level.insert, Function.update_self]
      exact List.mem_append_left _ he
    · simp only [Wheel.put, Level.insert, Function.update_self, Function.update_of_ne hs]
      exact he
  · simp only [Wheel.put, Function.update_of_ne hk]
    exact he

theorem mem_put_self (w : Wheel) (k : Fin 6) (s : Fin 64) (e : Entry) :
    e ∈ ((w.put k s e).levels k).slots s := by
  simp [Wheel.put, Level.insert]

theorem mem_drain {w : Wheel} {i k : Fin 6} {sl s : Fin 64} {e : Entry}
    (he : e ∈ (w.levels i).slots sl) (hne : i = k → sl ≠ s) :
    e ∈ ((w.drain k s).1.levels i).slots sl := by
  by_cases hk : i = k
  · subst hk
    simp only [Wheel.drain, Level.drainSlot, Function.update_self, Function.update_of_ne (hne rfl)]
    exact he
  · simp only [Wheel.drain, Function.update_of_ne hk]
    exact he

theorem mem_reinsert {r : Wheel × List Entry} {i : Fin 6} {sl : Fin 64} {e : Entry}
    (he : e ∈ (r.1.levels i).slots sl) (x : Entry) :
    e ∈ ((Wheel.reinsert r x).1.levels i).slots sl := by
  rcases insert_cases r.1 x with hr | ⟨k, s, hr⟩
  · rw [Wheel.reinsert]
    simp only [hr]
    exact he
  · rw [Wheel.reinsert]
    simp only [hr]
    exact mem_put he k s _

/-! ## The rest of a turn -/

/-- The step is one of `advance_one`. -/
def InTurn (s : Turning) (a : Act) : Prop := 0 < s.pc.stage ∧ a = .go

/-- An entry off the current slots is where it was, and the cursor too. -/
theorem turn_leaves {s s' : Turning} {a : Act} {i : Fin 6} {sl : Fin 64} {e : Entry}
    (he : e ∈ (s.wheel.levels i).slots sl) (hne : sl ≠ slotOf i s.wheel.cursor)
    (hin : InTurn s a) (hs : s.step a = some s') :
    e ∈ (s'.wheel.levels i).slots sl ∧ s'.wheel.cursor = s.wheel.cursor := by
  have hstage := hin.1
  cases step_cases hs with
  | skip _ | next => exact ⟨he, rfl⟩
  | @drain w ex now j _ =>
      refine ⟨mem_drain he ?_, rfl⟩
      rintro rfl
      exact hne
  | finish =>
      refine ⟨mem_drain he ?_, rfl⟩
      rintro rfl
      exact hne
  | reinsert => exact ⟨mem_reinsert he _, reinsert_cursor _ _⟩
  | insert | clear | stay _ | jump _ _ | enter _ _ | tick _ | leave _ | jumpAfter _ | again _ =>
      exact absurd hstage (Nat.lt_irrefl 0)

/-- So it stays there to the end of the turn. -/
theorem rest_of_turn_leaves {s s' : Turning} {i : Fin 6} {sl : Fin 64} {e : Entry}
    (he : e ∈ (s.wheel.levels i).slots sl) (hne : sl ≠ slotOf i s.wheel.cursor)
    (h : (turning.startedAt s).ReachableVia InTurn s') : e ∈ (s'.wheel.levels i).slots sl := by
  have hkeep : e ∈ (s'.wheel.levels i).slots sl ∧ s'.wheel.cursor = s.wheel.cursor := by
    refine h.invariant (I := fun m => e ∈ (m.wheel.levels i).slots sl
      ∧ m.wheel.cursor = s.wheel.cursor) ?_ ?_
    · rintro m rfl
      exact ⟨he, rfl⟩
    · intro m a m' hm hin hstep
      obtain ⟨hmem, hcur⟩ := turn_leaves hm.1 (by rw [hm.2]; exact hne) hin hstep
      exact ⟨hmem, hcur.trans hm.2⟩
  exact hkeep.1

/-! ## Placement and descent -/

theorem Placed.shifts {c k : Nat} {s : Fin 64} {e : Entry} (h : Placed c k s e) :
    s.val = e.deadline >>> (6 * k) % 64
    ∧ c >>> (6 * k) < e.deadline >>> (6 * k)
    ∧ e.deadline >>> (6 * k) ≤ c >>> (6 * k) + 64 := by
  have hshift : ∀ n : Nat, n >>> (6 * k) = n / 64 ^ k := by
    intro n
    rw [Nat.shiftRight_eq_div_pow, Nat.pow_mul]
  rw [hshift, hshift, h.slot, slotOf_val]
  exact ⟨rfl, h.after, h.within⟩

/-- What is in the current slot of a level whose period begins is due within the period. -/
theorem TurningInv.current {s : Turning} (h : TurningInv s) {now : Nat} {k : Fin 6}
    (hpc : s.pc = .level now k) (hmod : s.wheel.cursor % 64 ^ k.val = 0) {e : Entry}
    (he : e ∈ (s.wheel.levels k).slots (slotOf k s.wheel.cursor)) :
    s.wheel.cursor ≤ e.deadline ∧ e.deadline < s.wheel.cursor + 64 ^ k.val := by
  have hst := h.staged
  have hpos := h.moved
  rw [hpc] at hst hpos
  exact cascade_delta hmod ((Staged.drain (k := k) hst (hpos (Nat.succ_pos _)) hmod).2 e he)

/-- Putting one drained entry back. -/
theorem TurningInv.descends {w : Wheel} {ex : List Entry} {now : Nat} {j : Fin 5} {e : Entry}
    {rest : List Entry} (h : TurningInv ⟨w, .entries now j (e :: rest), ex⟩)
    (hc : w.cursor < e.deadline → w.cursor ≤ cursorMax) :
    (e.deadline = w.cursor ∧ Wheel.reinsert (w, ex) e = (w, ex ++ [e]))
    ∨ ∃ i : Fin 6, i < j.succ
        ∧ Wheel.reinsert (w, ex) e = (w.put i (slotOf i e.deadline) e, ex)
        ∧ slotOf i e.deadline ≠ slotOf i w.cursor := by
  obtain ⟨hmod, hes⟩ := h.drained now j (e :: rest) rfl
  rcases reinsert_cases ex hc hmod (hes e List.mem_cons_self) with hdue | ⟨i, hik, hlo, hhi, hr⟩
  · exact .inl hdue
  · exact .inr ⟨i, hik, hr,
      slot_ne_current (h.moved (Nat.succ_pos _)) hmod (Nat.le_of_lt hik) hlo hhi⟩

/--
**Entries are placed within one turn, and cascades go strictly down.**

In every run without overflow: between two calls an entry with deadline `d` at level `k`,
slot `i` has `i = (d >> 6k) mod 64` and `cursor >> 6k < d >> 6k ≤ (cursor >> 6k) + 64`.
When `advance_one` crosses a boundary of `64 ^ k`, what it finds in the current slot of
level `k` has `cursor ≤ d < cursor + 64 ^ k`. Each drained entry expires at once, with `d`
equal to the cursor, or is put as it is into a lower level, where it is still in its slot
after any of the remaining steps of the same `advance_one`.
-/
theorem placement_descends {s : Turning} (h : turning.ReachableVia NoOverflow s) :
    (s.pc = .rest → ∀ (k : Fin 6) (i : Fin 64), ∀ e ∈ (s.wheel.levels k).slots i,
      i.val = e.deadline >>> (6 * k.val) % 64
      ∧ s.wheel.cursor >>> (6 * k.val) < e.deadline >>> (6 * k.val)
      ∧ e.deadline >>> (6 * k.val) ≤ s.wheel.cursor >>> (6 * k.val) + 64)
    ∧ (∀ now k, s.pc = .level now k → s.wheel.cursor % 64 ^ k.val = 0 →
        ∀ e ∈ (s.wheel.levels k).slots (slotOf k s.wheel.cursor),
          s.wheel.cursor ≤ e.deadline ∧ e.deadline < s.wheel.cursor + 64 ^ k.val)
    ∧ ∀ now j e rest, s.pc = .entries now j (e :: rest) →
        s.wheel.cursor ≤ e.deadline ∧ e.deadline < s.wheel.cursor + 64 ^ (j.val + 1)
        ∧ ∀ s', NoOverflow s .go → s.step .go = some s' →
          (e.deadline = s.wheel.cursor ∧ s'.wheel = s.wheel ∧ s'.expired = s.expired ++ [e])
          ∨ ∃ i : Fin 6, i.val < j.val + 1 ∧ s'.expired = s.expired
              ∧ s'.wheel = s.wheel.put i (slotOf i e.deadline) e
              ∧ ∀ s'', (turning.startedAt s').ReachableVia InTurn s'' →
                  e ∈ (s''.wheel.levels i).slots (slotOf i e.deadline) := by
  have hi := turningInv_reachable h
  refine ⟨?_, fun now k hpc hmod e he => hi.current hpc hmod he, ?_⟩
  · intro hrest k i e he
    have hw : WheelInv s.wheel := hi.wheel (by rw [hrest]; rfl)
    have hp := hw.fits k i e he
    rw [if_pos (Nat.zero_le _)] at hp
    exact hp.shifts
  · intro now j e rest hpc
    obtain ⟨w, pc, ex⟩ := s
    obtain rfl : pc = .entries now j (e :: rest) := hpc
    obtain ⟨hmod, hes⟩ := hi.drained now j (e :: rest) rfl
    obtain ⟨hle, hlt⟩ := cascade_delta hmod (hes e List.mem_cons_self)
    refine ⟨hle, hlt, ?_⟩
    intro s' hok hs
    cases hs
    rcases hi.descends (hok e rfl) with ⟨hdue, hr⟩ | ⟨i, hij, hr, hne⟩
    · left
      rw [hr]
      exact ⟨hdue, rfl, rfl⟩
    · right
      rw [hr]
      refine ⟨i, hij, rfl, rfl, fun s'' hs'' => ?_⟩
      exact rest_of_turn_leaves (mem_put_self w i (slotOf i e.deadline) e) hne hs''

/-- The cursor jumps to 63; a timer for 127 goes to level 1 and is drained at the boundary 64. -/
def boundary : List Act :=
  [.advanceTo 63, .insert ⟨7, 127⟩, .advanceTo 100] ++ List.replicate 6 .go

theorem placement_descends_boundary :
    ∃ s s', turning.ReachableVia NoOverflow s ∧ s.wheel.cursor = 64
      ∧ s.pc = .entries 100 0 [⟨7, 127⟩] ∧ s.step .go = some s'
      ∧ ∃ i : Fin 6, i.val < 1 ∧ ∀ s'', (turning.startedAt s').ReachableVia InTurn s'' →
          ⟨7, 127⟩ ∈ (s''.wheel.levels i).slots (slotOf i 127) := by
  have hm : turning.Meets NoOverflow Turning.new boundary := by decide +kernel
  obtain ⟨s, hrun, hr⟩ := hm.run (.init rfl)
  have hend : ∀ s ∈ turning.run Turning.new boundary,
      s.wheel.cursor = 64 ∧ s.pc = .entries 100 0 [⟨7, 127⟩] ∧ NoOverflow s .go
        ∧ (s.step .go).isSome = true := by
    decide +kernel
  obtain ⟨hcur, hpc, hok, hsome⟩ := hend s hrun
  obtain ⟨s', hs⟩ := Option.isSome_iff_exists.mp hsome
  obtain ⟨_, _, hput⟩ := (placement_descends hr).2.2 100 0 ⟨7, 127⟩ [] hpc
  rcases hput s' hok hs with ⟨hdue, _⟩ | ⟨i, hi, _, _, hstays⟩
  · rw [hcur] at hdue
    exact absurd hdue (by decide)
  · exact ⟨s, s', hr, hcur, hpc, hs, i, hi, hstays⟩

end Nanorun.Time
