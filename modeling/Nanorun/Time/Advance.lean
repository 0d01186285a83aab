import Nanorun.Time.Placement

/-!
# What the wheel's operations do

One specification per operation: what happens to the stored entries, to the
cursor and to the invariant. `advance_one` is followed level by level; each
drained entry is either due, and expires, or lands in a level below without being
clamped.
-/

namespace Nanorun.Time

/-- The cursor range in which `cursor + MAX_TICKS` does not overflow. -/
abbrev cursorMax : Nat := 2 ^ 64 - 1 - 64 ^ 6

/-- The entry as the wheel stores it: its deadline clamped to the wheel's range. -/
def Entry.clamped (e : Entry) (cursor : Nat) : Entry :=
  { e with deadline := min e.deadline (cursor + 64 ^ 6 - 1) }

/-! ## `insert` -/

theorem insert_due {w : Wheel} {e : Entry} (h : e.deadline ≤ w.cursor) :
    w.insert e = (w, .error e) := by
  rw [Wheel.insert, if_pos h]

/-- A later entry is clamped and put at the level of its delta. -/
theorem insert_later {w : Wheel} {e : Entry} (h : w.cursor < e.deadline) (hc : w.cursor ≤ cursorMax) :
    w.insert e =
      (w.put (levelFor ((e.clamped w.cursor).deadline - w.cursor))
        (slotOf (levelFor ((e.clamped w.cursor).deadline - w.cursor)) (e.clamped w.cursor).deadline)
        (e.clamped w.cursor), .ok ()) := by
  have hmax : wrappingSub (wrappingAdd w.cursor maxTicks) 1 = w.cursor + 64 ^ 6 - 1 := by
    unfold wrappingSub wrappingAdd
    unfold cursorMax at hc
    rw [maxTicks_eq]
    omega
  have hclamp : (if e.deadline > w.cursor + 64 ^ 6 - 1 then
      { e with deadline := w.cursor + 64 ^ 6 - 1 } else e) = e.clamped w.cursor := by
    unfold Entry.clamped
    split
    · rw [Nat.min_eq_right (by omega)]
    · rw [Nat.min_eq_left (by omega)]
  have hdelta : wrappingSub (e.clamped w.cursor).deadline w.cursor
      = (e.clamped w.cursor).deadline - w.cursor := by
    unfold wrappingSub Entry.clamped
    unfold cursorMax at hc
    simp only
    omega
  rw [Wheel.insert, if_neg (by omega)]
  simp only [hmax, hclamp, hdelta]

/-- The clamped delta is in the wheel's range. -/
theorem clamped_delta {c : Nat} {e : Entry} (h : c < e.deadline) :
    0 < (e.clamped c).deadline - c ∧ (e.clamped c).deadline - c < 64 ^ 6
      ∧ c < (e.clamped c).deadline := by
  unfold Entry.clamped
  simp only
  omega

theorem insert_inv {w : Wheel} {e : Entry} (hi : WheelInv w) (hc : w.cursor ≤ cursorMax)
    (h : w.cursor < e.deadline) :
    WheelInv (w.insert e).1 ∧ (w.insert e).1.cursor = w.cursor
      ∧ (w.insert e).1.stored = w.stored + {e.clamped w.cursor} ∧ (w.insert e).2 = .ok () := by
  obtain ⟨h0, hmax, hlt⟩ := clamped_delta h
  obtain ⟨hlo, hhi⟩ := levelFor_spec h0 hmax
  rw [insert_later h hc]
  refine ⟨Staged.put hi ?_, rfl, stored_put _ _ _ _, rfl⟩
  rw [if_pos (Nat.zero_le _)]
  exact placed_of_delta (by omega) (by omega)

/-! ## Cascading -/

/--
A part of `advance_one` that began with `total` entries and led to `r`: the wheel
is staged from `j` up, and what it no longer stores was appended to `expired` and
is due at the cursor.
-/
def Drains (j c : Nat) (total : Multiset Entry) (expired : List Entry) (r : Wheel × List Entry) :
    Prop :=
  ∃ ex : List Entry, Staged j r.1 ∧ r.1.cursor = c ∧ r.2 = expired ++ ex
    ∧ r.1.stored + ex = total ∧ ∀ e ∈ ex, e.deadline = c

theorem Drains.of_staged {j : Nat} {w : Wheel} {expired : List Entry} (h : Staged j w) :
    Drains j w.cursor w.stored expired (w, expired) :=
  ⟨[], h, rfl, by simp, by simp, by simp⟩

/-- One part after another, with `more` entries still to come after the first. -/
theorem Drains.trans {i j c : Nat} {total more : Multiset Entry} {expired : List Entry}
    {r r' : Wheel × List Entry} (h : Drains i c total expired r)
    (h' : Drains j c (r.1.stored + more) r.2 r') : Drains j c (total + more) expired r' := by
  obtain ⟨ex, _, _, happ, hst, hdue⟩ := h
  obtain ⟨ex', hs', hc', happ', hst', hdue'⟩ := h'
  refine ⟨ex ++ ex', hs', hc', ?_, ?_, ?_⟩
  · rw [happ', happ, List.append_assoc]
  · rw [← hst, ← Multiset.coe_add, add_comm (ex : Multiset Entry), ← add_assoc, hst']
    ac_rfl
  · intro e he
    rcases List.mem_append.mp he with he | he
    · exact hdue e he
    · exact hdue' e he

/-- An entry of the period that just began expires, or goes unclamped to a level below. -/
theorem reinsert_cases {w : Wheel} {k : Fin 6} {e : Entry} (expired : List Entry)
    (hc : w.cursor < e.deadline → w.cursor ≤ cursorMax) (hmod : w.cursor % 64 ^ k.val = 0)
    (he : e.deadline / 64 ^ k.val = w.cursor / 64 ^ k.val) :
    (e.deadline = w.cursor ∧ Wheel.reinsert (w, expired) e = (w, expired ++ [e]))
    ∨ ∃ i : Fin 6, i < k ∧ w.cursor + 64 ^ i.val ≤ e.deadline
        ∧ e.deadline < w.cursor + 64 ^ (i.val + 1)
        ∧ Wheel.reinsert (w, expired) e = (w.put i (slotOf i e.deadline) e, expired) := by
  obtain ⟨hle, hlt⟩ := cascade_delta hmod he
  have hk : (64 : Nat) ^ k.val ≤ 64 ^ 5 := Nat.pow_le_pow_right (by decide) (by omega)
  by_cases hdue : e.deadline ≤ w.cursor
  · left
    refine ⟨by omega, ?_⟩
    rw [Wheel.reinsert]
    simp only [insert_due hdue]
  · right
    have hclamp : e.clamped w.cursor = e := by
      unfold Entry.clamped
      rw [Nat.min_eq_left (by omega)]
    have hlater := insert_later (e := e) (by omega) (hc (by omega))
    rw [hclamp] at hlater
    have h0 : 0 < e.deadline - w.cursor := by omega
    have hi := level_lt (k := k) h0 (by omega) k.isLt
    obtain ⟨hlo, hhi⟩ := levelFor_spec h0 (by omega)
    refine ⟨levelFor (e.deadline - w.cursor), hi, by omega, by omega, ?_⟩
    rw [Wheel.reinsert]
    simp only [hlater]

/-- Re-inserting it keeps the wheel staged, and nothing is lost. -/
theorem reinsert_spec {w : Wheel} {k : Fin 6} {e : Entry} (expired : List Entry)
    (h : Staged k w) (hc : w.cursor < e.deadline → w.cursor ≤ cursorMax) (hpos : 0 < w.cursor)
    (hmod : w.cursor % 64 ^ k.val = 0)
    (he : e.deadline / 64 ^ k.val = w.cursor / 64 ^ k.val) :
    Drains k w.cursor (w.stored + {e}) expired (Wheel.reinsert (w, expired) e) := by
  rcases reinsert_cases expired hc hmod he with ⟨hdue, hr⟩ | ⟨i, hik, hlo, hhi, hr⟩
  · rw [hr]
    refine ⟨[e], h, rfl, rfl, rfl, ?_⟩
    intro x hx
    rw [List.mem_singleton.mp hx]
    exact hdue
  · have hik' : i.val < k.val := hik
    rw [hr]
    refine ⟨[], h.put ?_, rfl, by simp, ?_, by simp⟩
    · rw [if_neg (by omega)]
      exact placed_of_cascade hpos hmod (Nat.le_of_lt hik') hlo hhi
    · rw [stored_put, Multiset.coe_nil, add_zero]

/-- The loop over a drained slot. -/
theorem reinsert_all {k : Fin 6} {es : List Entry} {w : Wheel} (expired : List Entry)
    (h : Staged k w) (hc : w.cursor ≤ cursorMax) (hpos : 0 < w.cursor)
    (hmod : w.cursor % 64 ^ k.val = 0)
    (hes : ∀ e ∈ es, e.deadline / 64 ^ k.val = w.cursor / 64 ^ k.val) :
    Drains k w.cursor (w.stored + es) expired (es.foldl Wheel.reinsert (w, expired)) := by
  induction es generalizing w expired with
  | nil =>
      rw [Multiset.coe_nil, add_zero]
      exact .of_staged h
  | cons e es ih =>
      have h1 := reinsert_spec expired h (fun _ => hc) hpos hmod (hes e List.mem_cons_self)
      have ⟨_, hs1, hc1, _⟩ := h1
      have h2 := ih (Wheel.reinsert (w, expired) e).2 hs1 (by rw [hc1]; exact hc)
        (by rw [hc1]; exact hpos) (by rw [hc1]; exact hmod)
        (fun x hx => by rw [hc1]; exact hes x (List.mem_cons_of_mem _ hx))
      rw [hc1] at h2
      have := h1.trans h2
      rwa [add_assoc, Multiset.singleton_add, Multiset.cons_coe] at this

/-- One level of the cascade. -/
theorem cascade_spec {w : Wheel} {k : Fin 6} (expired : List Entry) (h : Staged (k + 1) w)
    (hc : w.cursor ≤ cursorMax) (hpos : 0 < w.cursor) :
    Drains k w.cursor w.stored expired (Wheel.cascade (w, expired) k) := by
  unfold Wheel.cascade
  simp only [period_eq]
  split
  · rename_i hmod
    obtain ⟨hs, hes⟩ := h.drain hpos hmod
    rw [← stored_drain w k (slotOf k w.cursor)]
    exact reinsert_all expired hs hc hpos hmod hes
  · rename_i hmod
    exact .of_staged (h.skip hpos hmod)

/-- The levels from 5 down to 1. -/
theorem cascade_all {w : Wheel} (expired : List Entry) (h : Staged 6 w)
    (hc : w.cursor ≤ cursorMax) (hpos : 0 < w.cursor) :
    Drains 1 w.cursor w.stored expired ([5, 4, 3, 2, 1].foldl Wheel.cascade (w, expired)) := by
  -- after a prefix of the levels, the next one is staged
  have next : ∀ {k : Fin 6} {r : Wheel × List Entry},
      Drains (k + 1) w.cursor w.stored expired r →
      Drains k w.cursor w.stored expired (Wheel.cascade r k) := by
    intro k r hr
    have ⟨_, hs, hcur, _⟩ := hr
    have h2 := cascade_spec r.2 hs (by rw [hcur]; exact hc) (by rw [hcur]; exact hpos)
    rw [hcur] at h2
    have h3 : Drains k w.cursor (r.1.stored + 0) r.2 (Wheel.cascade r k) := by
      rw [add_zero]; exact h2
    have := hr.trans h3
    rwa [add_zero] at this
  exact next (k := 1) (next (k := 2) (next (k := 3) (next (k := 4) (next (k := 5) (.of_staged h)))))

/-- When the cursor moves, every level still fits the tick before. -/
theorem WheelInv.tick {w : Wheel} (h : WheelInv w) : Staged 6 { w with cursor := w.cursor + 1 } where
  fits := by
    intro k s e he
    have hf := h.fits k s e he
    rw [if_pos (Nat.zero_le _)] at hf
    rw [if_neg (by omega)]
    exact hf
  marked := h.marked
  counted := h.counted

/-- `advance_one` expires exactly what is due at the new tick. -/
theorem advanceOne_spec {w : Wheel} (expired : List Entry) (h : WheelInv w)
    (hc : w.cursor + 1 ≤ cursorMax) :
    Drains 0 (w.cursor + 1) w.stored expired (w.advanceOne expired) := by
  have h1 := cascade_all expired h.tick hc (Nat.succ_pos _)
  generalize hr : [5, 4, 3, 2, 1].foldl Wheel.cascade
    ({ w with cursor := w.cursor + 1 }, expired) = r at h1
  have hone : w.advanceOne expired = ((r.1.drain 0 (slotOf 0 r.1.cursor)).1,
      r.2 ++ (r.1.drain 0 (slotOf 0 r.1.cursor)).2) := by
    simp only [Wheel.advanceOne, hr]
  obtain ⟨ex, hs, hcur, happ, hst, hdue⟩ := h1
  have hpos : 0 < r.1.cursor := by rw [hcur]; exact Nat.succ_pos _
  obtain ⟨hs0, hd0⟩ := Staged.drain (k := 0) hs hpos (Nat.mod_one _)
  have hsum := stored_drain r.1 0 (slotOf 0 r.1.cursor)
  rw [hone]
  refine ⟨ex ++ (r.1.drain 0 (slotOf 0 r.1.cursor)).2, hs0, hcur, ?_, ?_, ?_⟩
  · rw [happ, List.append_assoc]
  · show _ = ({ w with cursor := w.cursor + 1 } : Wheel).stored
    rw [← Multiset.coe_add, add_comm (ex : Multiset Entry), ← add_assoc, hsum, hst]
  · intro e he
    rcases List.mem_append.mp he with he | he
    · exact hdue e he
    · have := hd0 e he
      simp only [Fin.val_zero, Nat.pow_zero, Nat.div_one] at this
      rw [this, hcur]

/-! ## `advance_to` -/

/-- An empty wheel fits any cursor. -/
theorem WheelInv.jump {w : Wheel} (h : WheelInv w) (h0 : w.count = 0) (now : Nat) :
    WheelInv { w with cursor := now } where
  fits := by
    intro k s e he
    have hz : w.stored = 0 := by
      rw [← Multiset.card_eq_zero, ← h.counted, h0]
    have hmem : e ∈ w.stored := Wheel.mem_stored.mpr ⟨k, s, he⟩
    rw [hz] at hmem
    exact absurd hmem (Multiset.notMem_zero e)
  marked := h.marked
  counted := h.counted

/-- From `w` to the tick `now`: what expired was due by then, and came out in order. -/
def Advances (w : Wheel) (now : Nat) (expired : List Entry) (r : Wheel × List Entry) : Prop :=
  ∃ ex : List Entry, WheelInv r.1 ∧ r.1.cursor = now ∧ r.2 = expired ++ ex
    ∧ r.1.stored + ex = w.stored ∧ (∀ e ∈ ex, w.cursor < e.deadline ∧ e.deadline ≤ now)
    ∧ ex.Pairwise fun a b => a.deadline ≤ b.deadline

/-- The loop, given a turn for every tick. -/
theorem advanceWhile_spec {now fuel : Nat} {w : Wheel} (expired : List Entry) (h : WheelInv w)
    (hle : w.cursor ≤ now) (hnow : now ≤ cursorMax) (hfuel : now - w.cursor ≤ fuel) :
    Advances w now expired (Wheel.advanceWhile now fuel w expired) := by
  induction fuel generalizing w expired with
  | zero => exact ⟨[], h, by show w.cursor = now; omega, by simp [Wheel.advanceWhile],
      by simp [Wheel.advanceWhile], by simp, by simp⟩
  | succ fuel ih =>
      rw [Wheel.advanceWhile]
      split
      · rename_i hlt
        obtain ⟨ex, hs, hc, happ, hst, hdue⟩ := advanceOne_spec expired h (by omega)
        generalize w.advanceOne expired = r at hs hc happ hst
        have hone : ∀ e ∈ ex, w.cursor < e.deadline ∧ e.deadline ≤ now := by
          intro e he
          have := hdue e he
          omega
        have hsame : ex.Pairwise fun a b => a.deadline ≤ b.deadline :=
          List.Pairwise.imp_of_mem (fun ha hb _ => by rw [hdue _ ha, hdue _ hb])
            (List.pairwise_of_forall fun _ _ => trivial)
        simp only
        split
        · rename_i h0
          exact ⟨ex, WheelInv.jump hs h0 now, rfl, happ, hst, hone, hsame⟩
        · obtain ⟨ex', hi', hc', happ', hst', hdue', hsort'⟩ :=
            ih r.2 hs (by omega) (by omega)
          refine ⟨ex ++ ex', hi', hc', ?_, ?_, ?_, ?_⟩
          · rw [happ', happ, List.append_assoc]
          · rw [← hst, ← hst', ← Multiset.coe_add]
            ac_rfl
          · intro e he
            rcases List.mem_append.mp he with he | he
            · exact hone e he
            · have := hdue' e he
              omega
          · refine List.pairwise_append.mpr ⟨hsame, hsort', ?_⟩
            intro a ha b hb
            have h1 := hdue a ha
            have h2 := hdue' b hb
            omega
      · exact ⟨[], h, by show w.cursor = now; omega, by simp, by simp, by simp, by simp⟩

/-- What a split by a predicate leaves on each side. -/
theorem filter_of_split {α : Type} {p : α → Prop} [DecidablePred p] {s a b : Multiset α}
    (h : a + b = s) (ha : ∀ x ∈ a, ¬ p x) (hb : ∀ x ∈ b, p x) :
    b = s.filter p ∧ a = s.filter fun x => ¬ p x := by
  subst h
  constructor
  · rw [Multiset.filter_add, Multiset.filter_eq_nil.mpr ha, Multiset.filter_eq_self.mpr hb, zero_add]
  · rw [Multiset.filter_add, Multiset.filter_eq_self.mpr ha,
      Multiset.filter_eq_nil.mpr fun x hx => not_not.mpr (hb x hx), add_zero]

/-- **`advance_to` returns the due entries in order, keeps the others, and moves the cursor.** -/
theorem advanceTo_spec {w : Wheel} {now : Nat} (h : WheelInv w) (hnow : now ≤ cursorMax) :
    WheelInv (w.advanceTo now).1 ∧ (w.advanceTo now).1.cursor = max w.cursor now
      ∧ ((w.advanceTo now).2 : Multiset Entry) = w.stored.filter (fun e => e.deadline ≤ now)
      ∧ (w.advanceTo now).1.stored = w.stored.filter (fun e => ¬ e.deadline ≤ now)
      ∧ (w.advanceTo now).2.Pairwise fun a b => a.deadline ≤ b.deadline := by
  unfold Wheel.advanceTo
  split
  · rename_i hle
    have hlate : ∀ e ∈ w.stored, ¬ e.deadline ≤ now := by
      intro e he
      have := h.cursor_lt he
      omega
    obtain ⟨h1, h2⟩ := filter_of_split (p := fun e : Entry => e.deadline ≤ now)
      (add_zero w.stored) hlate (by simp)
    exact ⟨h, by show w.cursor = _; omega, h1, h2, by simp⟩
  · rename_i hlt
    split
    · rename_i h0
      have hz : w.stored = 0 := by rw [← Multiset.card_eq_zero, ← h.counted, h0]
      refine ⟨h.jump h0 now, by show now = _; omega, ?_, ?_, by simp⟩
      · rw [hz]; rfl
      · show w.stored = _
        rw [hz]
        rfl
    · obtain ⟨ex, hi, hcur, happ, hst, hdue, hsort⟩ :=
        advanceWhile_spec [] h (by omega) hnow (Nat.le_refl _)
      rw [List.nil_append] at happ
      have hlate : ∀ e ∈ (Wheel.advanceWhile now (now - w.cursor) w []).1.stored,
          ¬ e.deadline ≤ now := by
        intro e he
        have := hi.cursor_lt he
        omega
      obtain ⟨h1, h2⟩ := filter_of_split (p := fun e : Entry => e.deadline ≤ now) hst hlate
        (fun e he => (hdue e he).2)
      rw [happ]
      exact ⟨hi, by rw [hcur]; omega, h1, h2, hsort⟩

theorem clear_spec (w : Wheel) :
    WheelInv w.clear ∧ w.clear.cursor = w.cursor ∧ w.clear.stored = 0 := by
  have hz : w.clear.stored = Wheel.new.stored := rfl
  have h0 : Wheel.new.stored = 0 := by
    rw [← Multiset.card_eq_zero, ← wheelInv_new.counted]; rfl
  refine ⟨⟨?_, wheelInv_new.marked, ?_⟩, rfl, hz.trans h0⟩
  · intro k s e he
    have hnil : (w.clear.levels k).slots s = [] := rfl
    rw [hnil] at he
    exact absurd he List.not_mem_nil
  · rw [hz, h0]; rfl

/-! ## The cursor, whatever the wheel stores -/

theorem insert_cursor (w : Wheel) (e : Entry) : (w.insert e).1.cursor = w.cursor := by
  unfold Wheel.insert
  split <;> rfl

theorem reinsert_cursor (r : Wheel × List Entry) (e : Entry) :
    (Wheel.reinsert r e).1.cursor = r.1.cursor := by
  have h := insert_cursor r.1 e
  unfold Wheel.reinsert
  split <;> rename_i heq <;> rw [heq] at h <;> exact h

theorem cascade_cursor (r : Wheel × List Entry) (k : Fin 6) :
    (Wheel.cascade r k).1.cursor = r.1.cursor := by
  unfold Wheel.cascade
  simp only
  split
  · have hfold : ∀ (es : List Entry) (q : Wheel × List Entry),
        (es.foldl Wheel.reinsert q).1.cursor = q.1.cursor := by
      intro es
      induction es with
      | nil => intro q; rfl
      | cons e es ih => intro q; rw [List.foldl_cons, ih, reinsert_cursor]
    exact hfold _ _
  · rfl

theorem advanceOne_cursor (w : Wheel) (expired : List Entry) :
    (w.advanceOne expired).1.cursor = w.cursor + 1 := by
  unfold Wheel.advanceOne
  simp only [List.foldl_cons, List.foldl_nil, Wheel.drain, cascade_cursor]

theorem advanceWhile_cursor {now fuel : Nat} {w : Wheel} {expired : List Entry}
    (h : w.cursor ≤ now) (hfuel : now - w.cursor ≤ fuel) :
    (Wheel.advanceWhile now fuel w expired).1.cursor = now := by
  induction fuel generalizing w expired with
  | zero => show w.cursor = now; omega
  | succ fuel ih =>
      have hone := advanceOne_cursor w expired
      rw [Wheel.advanceWhile]
      split
      · simp only
        split
        · rfl
        · exact ih (by omega) (by omega)
      · show w.cursor = now; omega

theorem advanceTo_cursor (w : Wheel) (now : Nat) :
    (w.advanceTo now).1.cursor = max w.cursor now := by
  unfold Wheel.advanceTo
  split
  · show w.cursor = _; omega
  · split
    · show now = _; omega
    · rw [advanceWhile_cursor (by omega) (Nat.le_refl _)]; omega

end Nanorun.Time
