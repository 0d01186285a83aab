import Nanorun.Time.Advance
import Nanorun.Time.Driver

/-!
# The earliest tick, and entries that stay

`next_tick` is a lower bound of the stored deadlines, whatever the wheel has been
through: it needs the masks and the count to be right, and these never depend on
the cursor.

For the same reason nothing here asks the cursor to stay in range. Past the range
the clamp of `insert` wraps around and a cascade may move an entry's deadline, but
only to an earlier tick, and no entry is lost: `advance_to` returns it or keeps it.
-/

namespace Nanorun.Time

open Bits

/-! ## `next_tick` -/

/-- A fold that keeps `P` and reaches it at some member. -/
theorem foldl_reaches {α β : Type} {f : β → α → β} {P : β → Prop} {l : List α} {a : α} (b : β)
    (hkeep : ∀ b a, P b → P (f b a)) (ha : a ∈ l) (hset : ∀ b, P (f b a)) : P (l.foldl f b) := by
  induction l generalizing b with
  | nil => exact absurd ha List.not_mem_nil
  | cons x xs ih =>
      rcases List.mem_cons.mp ha with rfl | ha
      · exact List.foldlRecOn xs f (hset b) (fun b hb a _ => hkeep b a hb)
      · exact ih _ ha

/-- A minimum found so far that is at most `d`. -/
def AtMost (d : Nat) (m : Option Nat) : Prop := ∃ t, m = some t ∧ t ≤ d

/-- A level with an entry has a bit set. -/
theorem occupied_of_mem {l : Level} (h : l.Marked) {s : Fin 64} {e : Entry} (he : e ∈ l.slots s) :
    l.occupied ≠ 0 := by
  intro hzero
  have hs := h s
  rw [hzero] at hs
  have hne : (l.slots s).isEmpty = false := by
    cases hl : l.slots s with
    | nil => rw [hl] at he; exact absurd he List.not_mem_nil
    | cons x xs => rfl
  rw [hne] at hs
  exact absurd hs (by simp [has])

theorem nextTick_le {w : Wheel} (h : Books w) {e : Entry} (he : e ∈ w.stored) :
    AtMost e.deadline w.nextTick := by
  obtain ⟨k, s, hs⟩ := Wheel.mem_stored.mp he
  have hcount : w.count ≠ 0 := by
    rw [h.counted]
    intro h0
    rw [Multiset.card_eq_zero.mp h0] at he
    exact absurd he (Multiset.notMem_zero e)
  -- one entry more can only lower the minimum
  have hentry : ∀ (b : Option Nat) (x : Entry), AtMost e.deadline b →
      AtMost e.deadline (some (b.elim x.deadline fun m => Nat.min m x.deadline)) := by
    rintro b x ⟨t, rfl, ht⟩
    exact ⟨_, rfl, Nat.le_trans (Nat.min_le_left _ _) ht⟩
  have hslot : ∀ (l : List Entry) (b : Option Nat), AtMost e.deadline b →
      AtMost e.deadline (l.foldl (fun min entry =>
        some (min.elim entry.deadline fun m => Nat.min m entry.deadline)) b) :=
    fun l b hb => List.foldlRecOn l _ hb (fun b hb x _ => hentry b x hb)
  unfold Wheel.nextTick
  rw [if_neg hcount]
  -- the three nested loops: levels, slots of a level, entries of a slot
  refine foldl_reaches none ?_ (List.mem_finRange k) ?_
  · intro b k' hb
    split
    · exact hb
    · exact List.foldlRecOn _ _ hb (fun b' hb' s' _ => hslot _ b' hb')
  · intro b
    -- the level of the entry is not skipped, since its mask is not zero
    rw [if_neg (occupied_of_mem (h.marked k) hs)]
    refine foldl_reaches b (fun b' s' hb' => hslot _ b' hb') (List.mem_finRange s) ?_
    intro b'
    refine foldl_reaches b' hentry hs ?_
    intro b''
    cases b'' with
    | none => exact ⟨_, rfl, Nat.le_refl _⟩
    | some m => exact ⟨_, rfl, Nat.min_le_right _ _⟩

/-- The earliest tick is the deadline of a stored entry. -/
theorem mem_of_nextTick {w : Wheel} {t : Nat} (h : w.nextTick = some t) :
    ∃ e ∈ w.stored, e.deadline = t := by
  -- carried through the three loops: nothing found yet, or the deadline of an entry
  let Found : Option Nat → Prop := fun m => ∀ t, m = some t → ∃ e ∈ w.stored, e.deadline = t
  have hentry : ∀ (b : Option Nat) (e : Entry), e ∈ w.stored → Found b →
      Found (some (b.elim e.deadline fun m => Nat.min m e.deadline)) := by
    intro b e he hb t ht
    cases b with
    | none => exact ⟨e, he, Option.some.inj ht⟩
    | some m =>
        have ht : min m e.deadline = t := Option.some.inj ht
        by_cases hle : m ≤ e.deadline
        · exact hb t (by rw [← ht, Nat.min_eq_left hle])
        · exact ⟨e, he, by rw [← ht, Nat.min_eq_right (by omega)]⟩
  have hfound : Found w.nextTick := by
    have hnone : Found none := by
      intro t ht
      exact absurd ht (by simp)
    unfold Wheel.nextTick
    split
    · exact hnone
    · refine List.foldlRecOn _ _ hnone (fun b hb k _ => ?_)
      split
      · exact hb
      · refine List.foldlRecOn _ _ hb (fun b hb s _ => ?_)
        refine List.foldlRecOn _ _ hb (fun b hb e he => ?_)
        exact hentry b e (Wheel.mem_stored.mpr ⟨k, s, he⟩) hb
  exact hfound t h

/-! ## Entries stay, or expire -/

/-- The tick under which `insert` stores a deadline, as it computes it. -/
def Wheel.effective (w : Wheel) (deadline : Nat) : Nat :=
  if deadline > wrappingSub (wrappingAdd w.cursor maxTicks) 1 then
    wrappingSub (wrappingAdd w.cursor maxTicks) 1
  else deadline

theorem Wheel.effective_le (w : Wheel) (deadline : Nat) : w.effective deadline ≤ deadline := by
  unfold Wheel.effective
  split <;> omega

/-- `insert` refuses an entry or stores it under its effective tick. -/
theorem insert_cases (w : Wheel) (e : Entry) :
    w.insert e = (w, .error e)
    ∨ ∃ k s, w.insert e = (w.put k s ⟨e.id, w.effective e.deadline⟩, .ok ()) := by
  by_cases hdue : e.deadline ≤ w.cursor
  · exact .inl (insert_due hdue)
  · have he : (if e.deadline > wrappingSub (wrappingAdd w.cursor maxTicks) 1 then
        { e with deadline := wrappingSub (wrappingAdd w.cursor maxTicks) 1 } else e)
          = ⟨e.id, w.effective e.deadline⟩ := by
      unfold Wheel.effective
      split <;> rfl
    rw [Wheel.insert, if_neg hdue]
    simp only [he]
    exact .inr ⟨_, _, rfl⟩

/-- Each of the entries is among the expired ones, or still stored at the same tick or before. -/
def Carries (es : Multiset Entry) (r : Wheel × List Entry) : Prop :=
  ∀ e ∈ es, (∃ e' ∈ r.1.stored, e'.id = e.id ∧ e'.deadline ≤ e.deadline) ∨ ∃ e' ∈ r.2, e'.id = e.id

/-- The books are kept, the expired entries only grow, and what was stored is carried. -/
structure Turns (r r' : Wheel × List Entry) : Prop where
  books : Books r.1 → Books r'.1
  grows : r.2 ⊆ r'.2
  carries : Carries r.1.stored r'

theorem Turns.refl (r : Wheel × List Entry) : Turns r r :=
  ⟨id, List.Subset.refl _, fun e he => .inl ⟨e, he, rfl, Nat.le_refl _⟩⟩

theorem Turns.trans {r r' r'' : Wheel × List Entry} (h : Turns r r') (h' : Turns r' r'') :
    Turns r r'' := by
  refine ⟨h'.books ∘ h.books, List.Subset.trans h.grows h'.grows, ?_⟩
  intro e he
  rcases h.carries e he with ⟨e', he', hid, hle⟩ | ⟨e', he', hid⟩
  · rcases h'.carries e' he' with ⟨e'', he'', hid', hle'⟩ | ⟨e'', he'', hid'⟩
    · exact .inl ⟨e'', he'', hid'.trans hid, Nat.le_trans hle' hle⟩
    · exact .inr ⟨e'', he'', hid'.trans hid⟩
  · exact .inr ⟨e', h'.grows he', hid⟩

/-- A drained entry goes back or expires, and nothing else moves. -/
theorem reinsert_turns (r : Wheel × List Entry) (e : Entry) :
    Turns r (Wheel.reinsert r e) ∧ Carries {e} (Wheel.reinsert r e) := by
  obtain ⟨w, expired⟩ := r
  rcases insert_cases w e with hr | ⟨k, s, hr⟩
  · have hre : Wheel.reinsert (w, expired) e = (w, expired ++ [e]) := by
      rw [Wheel.reinsert]; simp only [hr]
    rw [hre]
    refine ⟨⟨id, List.subset_append_left _ _, fun x hx => .inl ⟨x, hx, rfl, Nat.le_refl _⟩⟩, ?_⟩
    intro x hx
    rw [Multiset.mem_singleton.mp hx]
    exact .inr ⟨e, by simp, rfl⟩
  · have hre : Wheel.reinsert (w, expired) e
        = (w.put k s ⟨e.id, w.effective e.deadline⟩, expired) := by
      rw [Wheel.reinsert]; simp only [hr]
    rw [hre]
    refine ⟨⟨fun hb => hb.put _ _ _, List.Subset.refl _, ?_⟩, ?_⟩
    · intro x hx
      exact .inl ⟨x, by rw [stored_put]; exact Multiset.mem_add.mpr (.inl hx), rfl, Nat.le_refl _⟩
    · intro x hx
      rw [Multiset.mem_singleton.mp hx]
      refine .inl ⟨⟨e.id, w.effective e.deadline⟩, ?_, rfl, w.effective_le _⟩
      rw [stored_put]
      exact Multiset.mem_add.mpr (.inr (Multiset.mem_singleton_self _))

theorem reinsert_all_turns (es : List Entry) (r : Wheel × List Entry) :
    Turns r (es.foldl Wheel.reinsert r) ∧ Carries es (es.foldl Wheel.reinsert r) := by
  induction es generalizing r with
  | nil => exact ⟨Turns.refl r, by intro e he; exact absurd he (by simp)⟩
  | cons e es ih =>
      obtain ⟨hturn, hcarry⟩ := reinsert_turns r e
      obtain ⟨hturns, hcarries⟩ := ih (Wheel.reinsert r e)
      refine ⟨hturn.trans hturns, ?_⟩
      intro x hx
      rcases List.mem_cons.mp (Multiset.mem_coe.mp hx) with rfl | hx
      · -- where the first one went, the others do not touch it
        rcases hcarry x (Multiset.mem_singleton_self x) with ⟨x', hx', hid, hle⟩ | ⟨x', hx', hid⟩
        · rcases hturns.carries x' hx' with ⟨y, hy, hid', hle'⟩ | ⟨y, hy, hid'⟩
          · exact .inl ⟨y, hy, hid'.trans hid, Nat.le_trans hle' hle⟩
          · exact .inr ⟨y, hy, hid'.trans hid⟩
        · exact .inr ⟨x', hturns.grows hx', hid⟩
      · exact hcarries x (Multiset.mem_coe.mpr hx)

theorem cascade_turns (r : Wheel × List Entry) (k : Fin 6) : Turns r (Wheel.cascade r k) := by
  unfold Wheel.cascade
  simp only
  split
  · obtain ⟨hturn, hcarry⟩ := reinsert_all_turns (r.1.drain k (slotOf k r.1.cursor)).2
      ((r.1.drain k (slotOf k r.1.cursor)).1, r.2)
    refine ⟨fun hb => hturn.books (hb.drain _ _), hturn.grows, ?_⟩
    intro e he
    -- what was stored is what the drain left and what it took out
    rw [← stored_drain r.1 k (slotOf k r.1.cursor), Multiset.mem_add] at he
    rcases he with he | he
    · exact hturn.carries e he
    · exact hcarry e he
  · exact Turns.refl r

theorem advanceOne_turns (w : Wheel) (expired : List Entry) :
    Turns (w, expired) (w.advanceOne expired) := by
  have hmove : Turns (w, expired) ({ w with cursor := w.cursor + 1 }, expired) :=
    ⟨fun hb => ⟨hb.marked, hb.counted⟩, List.Subset.refl _,
      fun e he => .inl ⟨e, he, rfl, Nat.le_refl _⟩⟩
  have hlevels : ∀ (ks : List (Fin 6)) (r : Wheel × List Entry), Turns r (ks.foldl Wheel.cascade r) := by
    intro ks
    induction ks with
    | nil => intro r; exact Turns.refl r
    | cons k ks ih => intro r; exact (cascade_turns r k).trans (ih _)
  unfold Wheel.advanceOne
  simp only
  refine (hmove.trans (hlevels [5, 4, 3, 2, 1] _)).trans ?_
  generalize [5, 4, 3, 2, 1].foldl Wheel.cascade ({ w with cursor := w.cursor + 1 }, expired) = r
  -- the slot of the current tick expires as a whole
  refine ⟨fun hb => hb.drain _ _, List.subset_append_left _ _, ?_⟩
  intro e he
  rw [← stored_drain r.1 0 (slotOf 0 r.1.cursor), Multiset.mem_add] at he
  rcases he with he | he
  · exact .inl ⟨e, he, rfl, Nat.le_refl _⟩
  · exact .inr ⟨e, List.mem_append.mpr (.inr he), rfl⟩

theorem advanceWhile_turns (now fuel : Nat) (w : Wheel) (expired : List Entry) :
    Turns (w, expired) (Wheel.advanceWhile now fuel w expired) := by
  induction fuel generalizing w expired with
  | zero => exact Turns.refl _
  | succ fuel ih =>
      have hone := advanceOne_turns w expired
      rw [Wheel.advanceWhile]
      split
      · simp only
        split
        -- an empty wheel jumps to `now` at once
        · exact hone.trans ⟨fun hb => ⟨hb.marked, hb.counted⟩, List.Subset.refl _,
            fun e he => .inl ⟨e, he, rfl, Nat.le_refl _⟩⟩
        · exact hone.trans (ih _ _)
      · exact Turns.refl _

theorem advanceTo_turns (w : Wheel) (now : Nat) : Turns (w, []) (w.advanceTo now) := by
  unfold Wheel.advanceTo
  split
  · exact Turns.refl _
  · split
    · exact ⟨fun hb => ⟨hb.marked, hb.counted⟩, List.Subset.refl _,
        fun e he => .inl ⟨e, he, rfl, Nat.le_refl _⟩⟩
    · exact advanceWhile_turns _ _ _ _

end Nanorun.Time
