import Nanorun.Lib.Calls
import Nanorun.Time.Advance
import Nanorun.Time.Driver

/-!
# The driver's two stores

The driver keeps two stores: the wheel, where a cancelled entry stays until its
tick, and the map of wakers, which decides whether a drained entry wakes anyone.
Ids are handed out in order, so with fewer than `2 ^ 64` calls no two entries
share one. `DriverInv` ties the stores together, each call has one specification,
and `Ready` says that the calls still to come will not leave the range in which
the specifications hold.
-/

namespace Nanorun.Time

open Calls

variable {W : Type}

/-! ## Ticks and instants -/

theorem instantToTickFloor_mono {epoch a b : Nat} (h : a ≤ b) :
    instantToTickFloor epoch a ≤ instantToTickFloor epoch b := by
  have hdiv : (a - epoch) / tickNs ≤ (b - epoch) / tickNs := Nat.div_le_div_right (by omega)
  unfold instantToTickFloor saturate
  split <;> split <;> omega

theorem instantToTickFloor_max (epoch a b : Nat) :
    instantToTickFloor epoch (max a b)
      = max (instantToTickFloor epoch a) (instantToTickFloor epoch b) := by
  rcases Nat.le_total a b with h | h
  · rw [Nat.max_eq_right h, Nat.max_eq_right (instantToTickFloor_mono h)]
  · rw [Nat.max_eq_left h, Nat.max_eq_left (instantToTickFloor_mono h)]

theorem le_divCeil_mul (a : Nat) : a ≤ divCeil a tickNs * tickNs := by
  unfold divCeil tickNs
  split <;> omega

/-- A deadline whose tick has been reached has passed. -/
theorem le_of_ceil_le_floor {epoch deadline now : Nat}
    (h : instantToTickCeil epoch deadline ≤ instantToTickFloor epoch now)
    (hc : instantToTickCeil epoch deadline < 2 ^ 64 - 1) (he : epoch ≤ now) :
    deadline ≤ now := by
  have hfloor : instantToTickFloor epoch now * tickNs ≤ now - epoch := by
    unfold instantToTickFloor saturate tickNs
    split <;> omega
  -- the tick did not saturate, so it is the quotient itself
  have hceil : divCeil (deadline - epoch) tickNs = instantToTickCeil epoch deadline := by
    unfold instantToTickCeil saturate at *
    split at hc
    · rename_i hlt; rw [if_pos hlt]
    · omega
  have hdead := le_divCeil_mul (deadline - epoch)
  rw [hceil] at hdead
  have := Nat.mul_le_mul_right tickNs h
  omega

/-! ## The two stores -/

/-- The map of wakers against the wheel. -/
structure DriverInv (d : Driver W) : Prop where
  wheel : WheelInv d.wheel
  /-- No two entries share an id. -/
  ids : (d.wheel.stored.map Entry.id).Nodup
  fresh : ∀ e ∈ d.wheel.stored, e.id < d.nextId
  /-- Every waker has its entry in the wheel. -/
  known : ∀ id w, d.wakers id = some w → ∃ e ∈ d.wheel.stored, e.id = id

theorem new_stored : Wheel.new.stored = 0 := by
  rw [← Multiset.card_eq_zero, ← wheelInv_new.counted]; rfl

theorem driverInv_new (epoch : Nat) : DriverInv (Driver.new epoch : Driver W) where
  wheel := wheelInv_new
  ids := by show (Wheel.new.stored.map Entry.id).Nodup; rw [new_stored]; simp
  fresh := by
    intro e he
    have : e ∈ Wheel.new.stored := he
    rw [new_stored] at this
    exact absurd this (Multiset.notMem_zero e)
  known := by intro id w hw; exact absurd hw (by simp [Driver.new])

theorem DriverInv.waker_lt {d : Driver W} (h : DriverInv d) {id : Nat} {w : W}
    (hw : d.wakers id = some w) : id < d.nextId := by
  obtain ⟨e, he, hid⟩ := h.known id w hw
  have := h.fresh e he
  omega

theorem DriverInv.entry_unique {d : Driver W} (h : DriverInv d) {e e' : Entry}
    (he : e ∈ d.wheel.stored) (he' : e' ∈ d.wheel.stored) (hid : e.id = e'.id) : e = e' :=
  Multiset.inj_on_of_nodup_map h.ids e he e' he' hid

/-! ## One specification per call -/

theorem registerAt_due {d : Driver W} {tick : Nat} (w : W) (h : tick ≤ d.wheel.cursor) :
    d.registerAt tick w = ({ d with nextId := wrappingAdd d.nextId 1 }, .due w) := by
  rw [Driver.registerAt, insert_due (e := ⟨d.nextId, tick⟩) h]

theorem registerAt_armed {d : Driver W} (tick : Nat) (w : W) (hi : WheelInv d.wheel)
    (hc : d.wheel.cursor ≤ cursorMax) (h : d.wheel.cursor < tick) :
    (d.registerAt tick w).2 = .armed d.nextId
    ∧ (d.registerAt tick w).1.nextId = wrappingAdd d.nextId 1
    ∧ (d.registerAt tick w).1.wakers = Function.update d.wakers d.nextId (some w)
    ∧ WheelInv (d.registerAt tick w).1.wheel
    ∧ (d.registerAt tick w).1.wheel.stored
        = d.wheel.stored + {⟨d.nextId, min tick (d.wheel.cursor + 64 ^ 6 - 1)⟩} := by
  obtain ⟨hinv, _, hst, hok⟩ := insert_inv (e := ⟨d.nextId, tick⟩) hi hc h
  rw [Driver.registerAt]
  generalize d.wheel.insert ⟨d.nextId, tick⟩ = r at hinv hst hok
  obtain ⟨wheel, res⟩ := r
  simp only at hok
  subst hok
  exact ⟨rfl, rfl, rfl, hinv, hst⟩

/-- Whatever the outcome, `register` uses up one id and nothing else moves. -/
theorem registerAt_frame (d : Driver W) (tick : Nat) (w : W) :
    (d.registerAt tick w).1.nextId = wrappingAdd d.nextId 1
    ∧ (d.registerAt tick w).1.epoch = d.epoch
    ∧ (d.registerAt tick w).1.wheel.cursor = d.wheel.cursor := by
  have hcur := insert_cursor d.wheel ⟨d.nextId, tick⟩
  rw [Driver.registerAt]
  generalize d.wheel.insert ⟨d.nextId, tick⟩ = r at hcur
  obtain ⟨wheel, res⟩ := r
  cases res with
  | ok _ => exact ⟨rfl, rfl, hcur⟩
  | error _ => exact ⟨rfl, rfl, hcur⟩

/-- What `register` does to the map, in any driver. -/
theorem register_cases (d : Driver W) (deadline : Nat) (w : W) :
    ((d.register deadline w).2 = .armed d.nextId
      ∧ (d.register deadline w).1.wakers = Function.update d.wakers d.nextId (some w))
    ∨ ((d.register deadline w).2 = .due w ∧ (d.register deadline w).1.wakers = d.wakers) := by
  unfold Driver.register
  generalize instantToTickCeil d.epoch deadline = tick
  rw [Driver.registerAt]
  generalize d.wheel.insert ⟨d.nextId, tick⟩ = r
  obtain ⟨wheel, res⟩ := r
  cases res with
  | ok _ => exact .inl ⟨rfl, rfl⟩
  | error _ => exact .inr ⟨rfl, rfl⟩

theorem collect_wakers (wakers : Nat → Option W) (es : List Entry) (id : Nat) :
    (Driver.collect wakers es).1 id = if id ∈ es.map Entry.id then none else wakers id := by
  induction es generalizing wakers with
  | nil => simp [Driver.collect]
  | cons e es ih =>
      have hrest := ih (Function.update wakers e.id none)
      have hfst : (Driver.collect wakers (e :: es)).1
          = (Driver.collect (Function.update wakers e.id none) es).1 := by
        rw [Driver.collect]
        cases wakers e.id <;> rfl
      rw [hfst, hrest]
      by_cases hid : id = e.id
      · subst hid; simp
      · simp [hid]

theorem mem_collect {wakers : Nat → Option W} {es : List Entry} {id : Nat} {w : W} :
    (id, w) ∈ (Driver.collect wakers es).2 ↔ id ∈ es.map Entry.id ∧ wakers id = some w := by
  induction es generalizing wakers with
  | nil => simp [Driver.collect]
  | cons e es ih =>
      have hrest := @ih (Function.update wakers e.id none)
      rw [Driver.collect]
      by_cases hid : id = e.id
      · subst hid
        cases hw : wakers e.id with
        | none => simp [hrest]
        | some v => simp [hrest, eq_comm]
      · rw [Function.update_of_ne hid] at hrest
        cases hw : wakers e.id with
        | none => simp [hrest, hid]
        | some v => simp [hrest, hid]

theorem collect_nodup (wakers : Nat → Option W) (es : List Entry) :
    ((Driver.collect wakers es).2.map Prod.fst).Nodup := by
  induction es generalizing wakers with
  | nil => simp [Driver.collect]
  | cons e es ih =>
      have hrest := ih (Function.update wakers e.id none)
      rw [Driver.collect]
      cases hw : wakers e.id with
      | none => exact hrest
      | some v =>
          simp only [List.map_cons, List.nodup_cons]
          -- the first waker has left the map before the rest is collected
          refine ⟨?_, hrest⟩
          intro hmem
          obtain ⟨⟨i, u⟩, hp, hi⟩ := List.mem_map.mp hmem
          have hnone := (mem_collect.mp hp).2
          simp only at hi
          rw [hi, Function.update_self] at hnone
          exact absurd hnone (by simp)

/-- `advance` takes a waker out of the map only to wake it, in any driver. -/
theorem advance_keeps (d : Driver W) (now : Nat) {id : Nat} {w : W} (h : d.wakers id = some w) :
    (id, w) ∈ (d.advance now).2 ∨ (d.advance now).1.wakers id = some w := by
  unfold Driver.advance
  generalize instantToTickFloor d.epoch now = t
  by_cases hid : id ∈ (d.wheel.advanceTo t).2.map Entry.id
  · exact .inl (mem_collect.mpr ⟨hid, h⟩)
  · right
    show (Driver.collect d.wakers _).1 id = some w
    rw [collect_wakers, if_neg hid]
    exact h

theorem advance_subset (d : Driver W) (now : Nat) {id : Nat} {w : W}
    (h : (d.advance now).1.wakers id = some w) : d.wakers id = some w := by
  have h' : (Driver.collect d.wakers (d.wheel.advanceTo (instantToTickFloor d.epoch now)).2).1 id
      = some w := h
  rw [collect_wakers] at h'
  split at h'
  · exact absurd h' (by simp)
  · exact h'

theorem cancel_subset {d : Driver W} {i id : Nat} {w : W} (h : (d.cancel i).wakers id = some w) :
    d.wakers id = some w := by
  have h' : Function.update d.wakers i none id = some w := h
  by_cases hid : id = i
  · subst hid
    rw [Function.update_self] at h'
    exact absurd h' (by simp)
  · rw [Function.update_of_ne hid] at h'
    exact h'

/-- An entry of `id` is due at tick `t`. -/
def Due (d : Driver W) (id t : Nat) : Prop := ∃ e ∈ d.wheel.stored, e.id = id ∧ e.deadline ≤ t

theorem advanceAt_spec {d : Driver W} {t : Nat} (h : DriverInv d) (ht : t ≤ cursorMax) :
    WheelInv (d.advanceAt t).1.wheel
    ∧ (d.advanceAt t).1.wheel.stored = d.wheel.stored.filter (fun e => ¬ e.deadline ≤ t)
    ∧ (∀ id w, (id, w) ∈ (d.advanceAt t).2 ↔ Due d id t ∧ d.wakers id = some w)
    ∧ (∀ id, Due d id t → (d.advanceAt t).1.wakers id = none)
    ∧ (∀ id, ¬ Due d id t → (d.advanceAt t).1.wakers id = d.wakers id)
    ∧ ((d.advanceAt t).2.map Prod.fst).Nodup := by
  obtain ⟨hinv, _, hex, hst, _⟩ := advanceTo_spec h.wheel ht
  have hmem : ∀ e, e ∈ (d.wheel.advanceTo t).2 ↔ e ∈ d.wheel.stored ∧ e.deadline ≤ t := by
    intro e
    rw [← Multiset.mem_coe, hex, Multiset.mem_filter]
  -- the wheel speaks of entries, the map of ids
  have hdue : ∀ id, id ∈ (d.wheel.advanceTo t).2.map Entry.id ↔ Due d id t := by
    intro id
    constructor
    · intro hid
      obtain ⟨e, he, rfl⟩ := List.mem_map.mp hid
      exact ⟨e, ((hmem e).mp he).1, rfl, ((hmem e).mp he).2⟩
    · rintro ⟨e, he, rfl, ht⟩
      exact List.mem_map.mpr ⟨e, (hmem e).mpr ⟨he, ht⟩, rfl⟩
  refine ⟨hinv, hst, fun id w => ?_, fun id hd => ?_, fun id hd => ?_, collect_nodup _ _⟩
  · rw [← hdue id]; exact mem_collect
  · show (Driver.collect d.wakers _).1 id = none
    rw [collect_wakers, if_pos ((hdue id).mpr hd)]
  · show (Driver.collect d.wakers _).1 id = d.wakers id
    rw [collect_wakers, if_neg (fun hm => hd ((hdue id).mp hm))]

/-- The invariant after each kind of call. -/
theorem DriverInv.registerAt {d : Driver W} {tick : Nat} {w : W} (h : DriverInv d)
    (hc : d.wheel.cursor ≤ cursorMax) (hroom : d.nextId + 1 < 2 ^ 64) :
    DriverInv (d.registerAt tick w).1 := by
  have hnext : wrappingAdd d.nextId 1 = d.nextId + 1 := Nat.mod_eq_of_lt hroom
  by_cases hdue : tick ≤ d.wheel.cursor
  · rw [registerAt_due w hdue, hnext]
    exact ⟨h.wheel, h.ids, fun e he => Nat.lt_succ_of_lt (h.fresh e he), h.known⟩
  · obtain ⟨_, hid, hw, hwheel, hst⟩ := registerAt_armed tick w h.wheel hc (by omega)
    rw [hnext] at hid
    refine ⟨hwheel, ?_, ?_, ?_⟩
    -- the new id is above every stored one
    · rw [hst, Multiset.map_add, Multiset.map_singleton, add_comm, Multiset.singleton_add,
        Multiset.nodup_cons]
      refine ⟨?_, h.ids⟩
      intro hmem
      obtain ⟨e, he, heq⟩ := Multiset.mem_map.mp hmem
      have hlt := h.fresh e he
      rw [heq] at hlt
      exact absurd hlt (Nat.lt_irrefl _)
    · intro e he
      rw [hst, Multiset.mem_add, Multiset.mem_singleton] at he
      rw [hid]
      rcases he with he | rfl
      · exact Nat.lt_succ_of_lt (h.fresh e he)
      · exact Nat.lt_succ_self _
    · intro id w' hw'
      rw [hw] at hw'
      rw [hst]
      by_cases heq : id = d.nextId
      · subst heq
        exact ⟨_, Multiset.mem_add.mpr (.inr (Multiset.mem_singleton_self _)), rfl⟩
      · rw [Function.update_of_ne heq] at hw'
        obtain ⟨e, he, hid'⟩ := h.known id w' hw'
        exact ⟨e, Multiset.mem_add.mpr (.inl he), hid'⟩

theorem DriverInv.cancel {d : Driver W} (h : DriverInv d) (id : Nat) : DriverInv (d.cancel id) :=
  ⟨h.wheel, h.ids, h.fresh, fun i w hw => h.known i w (cancel_subset hw)⟩

theorem DriverInv.advanceAt {d : Driver W} {t : Nat} (h : DriverInv d) (ht : t ≤ cursorMax) :
    DriverInv (d.advanceAt t).1 := by
  obtain ⟨hwheel, hst, _, hgone, hkeep, _⟩ := advanceAt_spec h ht
  refine ⟨hwheel, ?_, ?_, ?_⟩
  · rw [hst]
    exact Multiset.nodup_of_le (Multiset.map_le_map (Multiset.filter_le _ _)) h.ids
  · intro e he
    rw [hst] at he
    exact h.fresh e (Multiset.mem_filter.mp he).1
  · intro id w hw
    -- a waker that is still in the map was not due, so its entry stayed as well
    have hnd : ¬ Due d id t := by
      intro hd
      rw [hgone id hd] at hw
      exact absurd hw (by simp)
    rw [hkeep id hnd] at hw
    obtain ⟨e, he, hid⟩ := h.known id w hw
    rw [hst]
    exact ⟨e, Multiset.mem_filter.mpr ⟨he, fun hle => hnd ⟨e, he, hid, hle⟩⟩, hid⟩

theorem driverInv_clear (d : Driver W) : DriverInv d.clear := by
  obtain ⟨hwheel, _, hst⟩ := clear_spec d.wheel
  have hz : d.clear.wheel.stored = 0 := hst
  refine ⟨hwheel, ?_, ?_, ?_⟩
  · rw [hz]; simp
  · intro e he; rw [hz] at he; exact absurd he (Multiset.notMem_zero e)
  · intro id w hw; exact absurd hw (by simp [Driver.clear])

/-! ## Runs -/

/-- A driver ready for the calls to come: ids will not wrap and the cursor stays in range. -/
structure Ready (d : Driver W) (ops : List (Timer W)) : Prop where
  inv : DriverInv d
  room : d.nextId + ops.length < 2 ^ 64
  stays : Stays Driver.call (fun d => d.wheel.cursor ≤ cursorMax) d ops

theorem call_epoch (d : Driver W) (op : Timer W) : (d.call op).1.epoch = d.epoch := by
  cases op with
  | register deadline w => exact (registerAt_frame d _ w).2.1
  | _ => rfl

theorem run_epoch (d : Driver W) (ops : List (Timer W)) :
    (run Driver.call d ops).1.epoch = d.epoch := by
  induction ops generalizing d with
  | nil => rfl
  | cons op ops ih => exact (ih _).trans (call_epoch d op)

theorem call_cursor (d : Driver W) (op : Timer W) :
    (d.call op).1.wheel.cursor = match op with
      | .advance now => max d.wheel.cursor (instantToTickFloor d.epoch now)
      | _ => d.wheel.cursor := by
  cases op with
  | register deadline w => exact (registerAt_frame d _ w).2.2
  | advance now => exact advanceTo_cursor _ _
  | _ => rfl

/-- Ids are handed out in order. -/
theorem call_nextId (d : Driver W) (op : Timer W) (h : d.nextId + 1 < 2 ^ 64) :
    d.nextId ≤ (d.call op).1.nextId ∧ (d.call op).1.nextId ≤ d.nextId + 1 := by
  cases op with
  | register deadline w =>
      have hid : (d.call (.register deadline w)).1.nextId = wrappingAdd d.nextId 1 :=
        (registerAt_frame d _ w).1
      have hnext : wrappingAdd d.nextId 1 = d.nextId + 1 := Nat.mod_eq_of_lt h
      omega
  | _ => exact ⟨Nat.le_refl _, Nat.le_succ _⟩

/-- A ready driver's next `advance` does not leave the range. -/
theorem Ready.floor_le {d : Driver W} {now : Nat} {ops : List (Timer W)}
    (h : Ready d (.advance now :: ops)) : instantToTickFloor d.epoch now ≤ cursorMax := by
  have hc := h.stays.2.head
  rw [call_cursor] at hc
  exact Nat.le_trans (Nat.le_max_right _ _) hc

theorem Ready.next_lt {d : Driver W} {op : Timer W} {ops : List (Timer W)}
    (h : Ready d (op :: ops)) : d.nextId + 1 < 2 ^ 64 := by
  have := h.room
  rw [List.length_cons] at this
  omega

theorem Ready.step {d : Driver W} {op : Timer W} {ops : List (Timer W)}
    (h : Ready d (op :: ops)) : Ready (d.call op).1 ops := by
  have hroom := h.room
  rw [List.length_cons] at hroom
  have hid := call_nextId d op h.next_lt
  refine ⟨?_, by omega, h.stays.2⟩
  cases op with
  | register deadline w => exact h.inv.registerAt h.stays.1 h.next_lt
  | cancel id => exact h.inv.cancel id
  | advance now => exact h.inv.advanceAt h.floor_le
  | clear => exact driverInv_clear d

theorem Ready.after {d : Driver W} {ops rest : List (Timer W)} (h : Ready d (ops ++ rest)) :
    Ready (run Driver.call d ops).1 rest := by
  induction ops generalizing d with
  | nil => exact h
  | cons op ops ih => exact ih h.step

end Nanorun.Time
