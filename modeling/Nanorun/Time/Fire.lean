import Nanorun.Time.Stores

/-!
# Which timers fire, and when

A registration is `Pending` from the call that made it up to the first call that
ends it: its cancellation, a `clear`, or an `advance` that reaches its tick. Only
the last of these wakes its waker. Once gone from the map it never comes back,
since its id is not handed out again.
-/

namespace Nanorun.Time

open Calls

variable {W : Type}

/-! ## One registration through a run -/

/-- The registration `id` is waiting for tick `t`. -/
def Pending (d : Driver W) (id : Nat) (w : W) (t : Nat) : Prop :=
  d.wakers id = some w ∧ (⟨id, t⟩ : Entry) ∈ d.wheel.stored

/-- The registration `id` has been made and is over. -/
def Gone (d : Driver W) (id : Nat) : Prop := d.wakers id = none ∧ id < d.nextId

/-- The calls that end the registration `id` for tick `t`. -/
def Timer.Ends (epoch id t : Nat) : Timer W → Prop
  | .register _ _ => False
  | .cancel i => i = id
  | .advance now => t ≤ instantToTickFloor epoch now
  | .clear => True

instance decidableEnds (epoch id t : Nat) : ∀ op : Timer W, Decidable (op.Ends epoch id t)
  | .register _ _ => inferInstanceAs (Decidable False)
  | .cancel i => inferInstanceAs (Decidable (i = id))
  | .advance now => inferInstanceAs (Decidable (t ≤ instantToTickFloor epoch now))
  | .clear => inferInstanceAs (Decidable True)

/-- A pending entry is the only one of its id. -/
theorem Pending.due_iff {d : Driver W} {id t t' : Nat} {w : W} (h : DriverInv d)
    (hp : Pending d id w t) : Due d id t' ↔ t ≤ t' := by
  constructor
  · rintro ⟨e, he, hid, hle⟩
    have : e = ⟨id, t⟩ := h.entry_unique he hp.2 hid
    subst this
    exact hle
  · intro hle
    exact ⟨_, hp.2, rfl, hle⟩

theorem Pending.step {d : Driver W} {op : Timer W} {ops : List (Timer W)} {id t : Nat} {w : W}
    (h : Ready d (op :: ops)) (hp : Pending d id w t) (hop : ¬ op.Ends d.epoch id t) :
    Pending (d.call op).1 id w t := by
  obtain ⟨hw, he⟩ := hp
  cases op with
  | register deadline v =>
      show Pending (d.registerAt (instantToTickCeil d.epoch deadline) v).1 id w t
      generalize instantToTickCeil d.epoch deadline = tick
      by_cases hdue : tick ≤ d.wheel.cursor
      · rw [registerAt_due v hdue]; exact ⟨hw, he⟩
      · obtain ⟨_, _, hws, _, hst⟩ := registerAt_armed tick v h.inv.wheel h.stays.1 (by omega)
        -- ids below `nextId` are not handed out again
        have hne : id ≠ d.nextId := Nat.ne_of_lt (h.inv.waker_lt hw)
        refine ⟨?_, ?_⟩
        · rw [hws, Function.update_of_ne hne]; exact hw
        · rw [hst]; exact Multiset.mem_add.mpr (.inl he)
  | cancel i =>
      have hne : id ≠ i := fun heq => hop heq.symm
      refine ⟨?_, he⟩
      show Function.update d.wakers i none id = some w
      rw [Function.update_of_ne hne]
      exact hw
  | advance now =>
      obtain ⟨_, hst, _, _, hkeep, _⟩ := advanceAt_spec h.inv h.floor_le
      have hlate : ¬ t ≤ instantToTickFloor d.epoch now := hop
      -- it is the only entry of its id, so no other one can make it due
      have hnd : ¬ Due d id (instantToTickFloor d.epoch now) :=
        fun hd => hlate ((Pending.due_iff h.inv ⟨hw, he⟩).mp hd)
      refine ⟨(hkeep id hnd).trans hw, ?_⟩
      show _ ∈ (d.advanceAt _).1.wheel.stored
      rw [hst]
      exact Multiset.mem_filter.mpr ⟨he, hlate⟩
  | clear => exact absurd trivial hop

/-- A waker enters the map only under the id its `register` returns. -/
theorem none_step {d : Driver W} {op : Timer W} {id : Nat} (h : d.wakers id = none)
    (hop : (d.call op).2 ≠ .registered (.armed id)) : (d.call op).1.wakers id = none := by
  cases op with
  | register deadline v =>
      show (d.register deadline v).1.wakers id = none
      rcases register_cases d deadline v with ⟨harm, hws⟩ | ⟨_, hws⟩
      · have hne : id ≠ d.nextId := by
          intro heq
          subst heq
          exact hop (congrArg Answer.registered harm)
        rw [hws, Function.update_of_ne hne]
        exact h
      · rw [hws]; exact h
  | cancel i =>
      show Function.update d.wakers i none id = none
      by_cases heq : id = i
      · subst heq; exact Function.update_self ..
      · rw [Function.update_of_ne heq]; exact h
  | advance now =>
      show (Driver.collect d.wakers _).1 id = none
      rw [collect_wakers, h, ite_self]
  | clear => rfl

/-- `register` returns the id that was next. -/
theorem armed_eq {d : Driver W} {op : Timer W} {id : Nat}
    (h : (d.call op).2 = .registered (.armed id)) : id = d.nextId := by
  cases op with
  | register deadline v =>
      have h' : (d.register deadline v).2 = .armed id := Answer.registered.inj h
      rcases register_cases d deadline v with ⟨harm, _⟩ | ⟨hdue, _⟩
      · exact (Registration.armed.inj (harm.symm.trans h')).symm
      · exact absurd (hdue.symm.trans h') (by simp)
  | cancel i => exact absurd h (by simp [Driver.call])
  | advance now => exact absurd h (by simp [Driver.call])
  | clear => exact absurd h (by simp [Driver.call])

/-- The id it returned is used up. -/
theorem Ready.next_id_lt {d : Driver W} {op : Timer W} {ops : List (Timer W)} {id : Nat}
    (h : Ready d (op :: ops)) (hid : (d.call op).2 = .registered (.armed id)) :
    d.nextId < (d.call op).1.nextId := by
  cases op with
  | register deadline v =>
      have hnext : (d.call (.register deadline v)).1.nextId = wrappingAdd d.nextId 1 :=
        (registerAt_frame d _ v).1
      have hroom : wrappingAdd d.nextId 1 = d.nextId + 1 := Nat.mod_eq_of_lt h.next_lt
      omega
  | cancel i => exact absurd hid (by simp [Driver.call])
  | advance now => exact absurd hid (by simp [Driver.call])
  | clear => exact absurd hid (by simp [Driver.call])

theorem Gone.step {d : Driver W} {op : Timer W} {ops : List (Timer W)} {id : Nat}
    (h : Ready d (op :: ops)) (hg : Gone d id) : Gone (d.call op).1 id := by
  refine ⟨none_step hg.1 ?_, Nat.lt_of_lt_of_le hg.2 (call_nextId d op h.next_lt).1⟩
  intro heq
  have := armed_eq heq
  have := hg.2
  omega

/-- A call that ends a registration leaves nothing of it in the map. -/
theorem Pending.ended {d : Driver W} {op : Timer W} {ops : List (Timer W)} {id t : Nat} {w : W}
    (h : Ready d (op :: ops)) (hp : Pending d id w t) (hop : op.Ends d.epoch id t) :
    Gone (d.call op).1 id := by
  have hlt := h.inv.waker_lt hp.1
  refine ⟨?_, Nat.lt_of_lt_of_le hlt (call_nextId d op h.next_lt).1⟩
  cases op with
  | register deadline v => exact False.elim hop
  | cancel i =>
      obtain rfl : i = id := hop
      exact Function.update_self ..
  | advance now =>
      obtain ⟨_, _, _, hgone, _, _⟩ := advanceAt_spec h.inv h.floor_le
      exact hgone id ((Pending.due_iff h.inv hp).mpr hop)
  | clear => rfl

theorem Gone.after {d : Driver W} (ops : List (Timer W)) {rest : List (Timer W)} {id : Nat}
    (h : Ready d (ops ++ rest)) (hg : Gone d id) : Gone (run Driver.call d ops).1 id := by
  induction ops generalizing d with
  | nil => exact hg
  | cons op ops ih => exact ih h.step (hg.step h)

/-- After any calls a registration is still pending, or one of them ended it. -/
theorem Pending.after {d : Driver W} {ops rest : List (Timer W)} {id t : Nat} {w : W}
    (h : Ready d (ops ++ rest)) (hp : Pending d id w t) :
    (Pending (run Driver.call d ops).1 id w t ∧ ∀ op ∈ ops, ¬ op.Ends d.epoch id t)
    ∨ (Gone (run Driver.call d ops).1 id ∧ ∃ op ∈ ops, op.Ends d.epoch id t) := by
  induction ops generalizing d with
  | nil => exact .inl ⟨hp, by simp⟩
  | cons op ops ih =>
      by_cases hop : op.Ends d.epoch id t
      · exact .inr ⟨Gone.after ops h.step (hp.ended h hop), op, List.mem_cons_self, hop⟩
      · have hrest := ih h.step (hp.step h hop)
        rw [call_epoch] at hrest
        rcases hrest with ⟨hp', hno⟩ | ⟨hg, op', hmem, hend⟩
        · refine .inl ⟨hp', ?_⟩
          intro op' hmem
          rcases List.mem_cons.mp hmem with rfl | hmem
          · exact hop
          · exact hno op' hmem
        · exact .inr ⟨hg, op', List.mem_cons_of_mem _ hmem, hend⟩

/-- `advance` wakes a registration that is pending for a tick it reaches, and no others. -/
theorem Ready.mem_advance {d : Driver W} {now : Nat} {ops : List (Timer W)} {id : Nat} {w : W}
    (h : Ready d (.advance now :: ops)) :
    (id, w) ∈ (d.advance now).2 ↔
      Due d id (instantToTickFloor d.epoch now) ∧ d.wakers id = some w :=
  (advanceAt_spec h.inv h.floor_le).2.2.1 id w

/-- An armed registration is pending for its clamped tick. -/
theorem Ready.pending {d : Driver W} {deadline : Nat} {w : W} {ops : List (Timer W)} {id : Nat}
    (h : Ready d (.register deadline w :: ops)) (hid : (d.register deadline w).2 = .armed id) :
    d.wheel.cursor < instantToTickCeil d.epoch deadline
    ∧ Pending (d.call (.register deadline w)).1 id w
        (min (instantToTickCeil d.epoch deadline) (d.wheel.cursor + 64 ^ 6 - 1)) := by
  show _ ∧ Pending (d.registerAt (instantToTickCeil d.epoch deadline) w).1 id w _
  have hid' : (d.registerAt (instantToTickCeil d.epoch deadline) w).2 = .armed id := hid
  generalize instantToTickCeil d.epoch deadline = tick at hid'
  by_cases hdue : tick ≤ d.wheel.cursor
  · rw [registerAt_due w hdue] at hid'
    exact absurd hid' (by simp)
  · obtain ⟨hok, _, hws, _, hst⟩ := registerAt_armed tick w h.inv.wheel h.stays.1 (by omega)
    rw [hok] at hid'
    obtain rfl := Registration.armed.inj hid'
    refine ⟨by omega, ?_, ?_⟩
    · rw [hws, Function.update_self]
    · rw [hst]; exact Multiset.mem_add.mpr (.inr (Multiset.mem_singleton_self _))

/-- The tick at which the wheel will fire a deadline registered now. -/
def Driver.effective (d : Driver W) (deadline : Nat) : Nat :=
  min (instantToTickCeil d.epoch deadline) (d.wheel.cursor + 64 ^ 6 - 1)

/-- When a later `advance` wakes an armed registration. -/
theorem Ready.fires_iff {d : Driver W} {deadline now id : Nat} {w : W} {mid post : List (Timer W)}
    (h : Ready d (.register deadline w :: (mid ++ .advance now :: post)))
    (hid : (d.register deadline w).2 = .armed id) :
    (id, w) ∈ ((run Driver.call d (.register deadline w :: mid)).1.advance now).2 ↔
      d.effective deadline ≤ instantToTickFloor d.epoch now
      ∧ ∀ op ∈ mid, ¬ op.Ends d.epoch id (d.effective deadline) := by
  have hadv : Ready (run Driver.call d (.register deadline w :: mid)).1 (.advance now :: post) :=
    Ready.after h
  -- from here on it is a question of what became of the registration in `mid`
  have hlater := (h.pending hid).2.after h.step
  rw [hadv.mem_advance, run_epoch]
  rw [call_epoch] at hlater
  rcases hlater with ⟨hp, hno⟩ | ⟨hg, op, hmem, hend⟩
  · have hdue : Due _ id (instantToTickFloor d.epoch now) ↔ _ := hp.due_iff hadv.inv
    exact ⟨fun hd => ⟨hdue.mp hd.1, hno⟩, fun hd => ⟨hdue.mpr hd.1, hp.1⟩⟩
  · constructor
    · rintro ⟨_, hw⟩
      exact absurd (hg.1.symm.trans hw) (by simp)
    · rintro ⟨_, hno⟩
      exact absurd hend (hno op hmem)

/-- A refused registration wakes its own waker, at a tick the cursor has reached. -/
theorem Ready.refused {d : Driver W} {deadline : Nat} {w woken : W} {ops : List (Timer W)}
    (h : Ready d (.register deadline w :: ops)) (hdue : (d.register deadline w).2 = .due woken) :
    woken = w ∧ instantToTickCeil d.epoch deadline ≤ d.wheel.cursor := by
  have hdue' : (d.registerAt (instantToTickCeil d.epoch deadline) w).2 = .due woken := hdue
  generalize instantToTickCeil d.epoch deadline = tick at hdue'
  by_cases hle : tick ≤ d.wheel.cursor
  · rw [registerAt_due w hle] at hdue'
    exact ⟨(Registration.due.inj hdue').symm, hle⟩
  · rw [(registerAt_armed tick w h.inv.wheel h.stays.1 (by omega)).1] at hdue'
    exact absurd hdue' (by simp)

/-! ## What the run wakes -/

/-- The wakers that an `advance` has woken, under their ids. -/
def Answer.woken : Answer W → List (Nat × W)
  | .fired wakers => wakers
  | _ => []

/-- The ids that fired in a run. -/
def firedIds (answers : List (Answer W)) : List Nat :=
  answers.flatMap fun a => a.woken.map Prod.fst

theorem firedIds_cons (a : Answer W) (as : List (Answer W)) :
    firedIds (a :: as) = a.woken.map Prod.fst ++ firedIds as := by
  simp [firedIds]

/-- What one call wakes is live before it and gone after. -/
theorem Ready.woken_step {d : Driver W} {op : Timer W} {ops : List (Timer W)}
    (h : Ready d (op :: ops)) :
    ((d.call op).2.woken.map Prod.fst).Nodup
    ∧ ∀ id ∈ (d.call op).2.woken.map Prod.fst, ¬ Gone d id ∧ Gone (d.call op).1 id := by
  cases op with
  | register deadline w => exact ⟨List.nodup_nil, by simp [Driver.call, Answer.woken]⟩
  | cancel id => exact ⟨List.nodup_nil, by simp [Driver.call, Answer.woken]⟩
  | clear => exact ⟨List.nodup_nil, by simp [Driver.call, Answer.woken]⟩
  | advance now =>
      obtain ⟨_, _, hmem, hgone, _, hnd⟩ := advanceAt_spec h.inv h.floor_le
      refine ⟨hnd, ?_⟩
      intro id hid
      obtain ⟨⟨i, w⟩, hp, hi⟩ := List.mem_map.mp hid
      obtain rfl : i = id := hi
      obtain ⟨hdue, hw⟩ := (hmem i w).mp hp
      refine ⟨?_, hgone i hdue, ?_⟩
      · rintro ⟨hnone, _⟩
        rw [hw] at hnone
        exact absurd hnone (by simp)
      · exact Nat.lt_of_lt_of_le (h.inv.waker_lt hw) (call_nextId d _ h.next_lt).1

/-- No id fires twice, and none that is over. -/
theorem Ready.fired_nodup {d : Driver W} {ops : List (Timer W)} (h : Ready d ops) :
    (firedIds (run Driver.call d ops).2).Nodup
    ∧ ∀ id ∈ firedIds (run Driver.call d ops).2, ¬ Gone d id := by
  induction ops generalizing d with
  | nil => exact ⟨List.nodup_nil, by simp [run, firedIds]⟩
  | cons op ops ih =>
      obtain ⟨hnd, hlive⟩ := h.woken_step
      obtain ⟨hnd', hlive'⟩ := ih h.step
      show (firedIds ((d.call op).2 :: (run Driver.call (d.call op).1 ops).2)).Nodup ∧ _
      rw [firedIds_cons]
      refine ⟨List.nodup_append.mpr ⟨hnd, hnd', ?_⟩, ?_⟩
      -- what this call woke is over before the rest of the run begins
      · rintro id hid _ hid' rfl
        exact hlive' id hid' (hlive id hid).2
      · intro id hid hg
        rw [run, firedIds_cons, List.mem_append] at hid
        rcases hid with hid | hid
        · exact (hlive id hid).1 hg
        · exact hlive' id hid (hg.step h)

/-- An id that has fired is over. -/
theorem Ready.gone_of_fired {d : Driver W} {ops rest : List (Timer W)} {id : Nat}
    (h : Ready d (ops ++ rest)) (hid : id ∈ firedIds (run Driver.call d ops).2) :
    Gone (run Driver.call d ops).1 id := by
  induction ops generalizing d with
  | nil => exact absurd hid (by simp [run, firedIds])
  | cons op ops ih =>
      rw [run, firedIds_cons, List.mem_append] at hid
      rcases hid with hid | hid
      · exact Gone.after ops h.step (h.woken_step.2 id hid).2
      · exact ih h.step hid

/-- An id that no `register` returns stays out of the map. -/
theorem none_run {d : Driver W} {ops : List (Timer W)} {id : Nat} (h : d.wakers id = none)
    (hops : .registered (.armed id) ∉ (run Driver.call d ops).2) :
    (run Driver.call d ops).1.wakers id = none := by
  induction ops generalizing d with
  | nil => exact h
  | cons op ops ih =>
      rw [run, List.mem_cons, not_or] at hops
      exact ih (none_step h (fun heq => hops.1 heq.symm)) hops.2

/-- The id a call returned. -/
def Answer.armed : Answer W → Option Nat
  | .registered (.armed id) => some id
  | _ => none

/-- Each armed registration has an id of its own. -/
theorem Ready.armed_nodup {d : Driver W} {ops : List (Timer W)} (h : Ready d ops) :
    ((run Driver.call d ops).2.filterMap Answer.armed).Nodup
    ∧ ∀ id ∈ (run Driver.call d ops).2.filterMap Answer.armed, d.nextId ≤ id := by
  induction ops generalizing d with
  | nil => exact ⟨List.nodup_nil, by simp [run]⟩
  | cons op ops ih =>
      obtain ⟨hnd, hge⟩ := ih h.step
      have hle := (call_nextId d op h.next_lt).1
      rw [run]
      cases harm : (d.call op).2.armed with
      | none =>
          rw [List.filterMap_cons_none harm]
          exact ⟨hnd, fun id hid => Nat.le_trans hle (hge id hid)⟩
      | some i =>
          have hreg : (d.call op).2 = .registered (.armed i) := by
            revert harm
            unfold Answer.armed
            split
            · rename_i heq; intro harm; rw [heq, Option.some.inj harm]
            · intro harm; exact absurd harm (by simp)
          obtain rfl := armed_eq hreg
          have hlt := h.next_id_lt hreg
          rw [List.filterMap_cons_some harm]
          refine ⟨List.nodup_cons.mpr ⟨?_, hnd⟩, ?_⟩
          · intro hid
            have := hge _ hid
            omega
          · intro id hid
            rcases List.mem_cons.mp hid with rfl | hid
            · exact Nat.le_refl _
            · exact Nat.le_trans hle (hge id hid)

theorem cancel_absent {d : Driver W} {id : Nat} (h : d.wakers id = none) : d.cancel id = d := by
  have hup : Function.update d.wakers id none = d.wakers := by
    rw [← h]; exact Function.update_eq_self id d.wakers
  rw [Driver.cancel, hup]

/-! ## The latest time -/

/-- The latest time the driver has been advanced to, after `t`. -/
def latest (t : Nat) : List (Timer W) → Nat
  | [] => t
  | .advance now :: ops => latest (max t now) ops
  | _ :: ops => latest t ops

theorem le_latest (t : Nat) (ops : List (Timer W)) : t ≤ latest t ops := by
  induction ops generalizing t with
  | nil => exact Nat.le_refl t
  | cons op ops ih =>
      cases op with
      | advance now => exact Nat.le_trans (Nat.le_max_left t now) (ih (max t now))
      | _ => exact ih t

/-- The cursor is the tick of the latest time. -/
theorem cursor_run {d : Driver W} {t : Nat} (ops : List (Timer W))
    (h : d.wheel.cursor = instantToTickFloor d.epoch t) :
    (run Driver.call d ops).1.wheel.cursor = instantToTickFloor d.epoch (latest t ops) := by
  induction ops generalizing d t with
  | nil => exact h
  | cons op ops ih =>
      have hcur := call_cursor d op
      have hep := call_epoch d op
      cases op with
      | advance now =>
          have := ih (d := (d.call (.advance now)).1) (t := max t now)
            (by rw [hcur, hep, h, instantToTickFloor_max])
          rw [hep] at this
          exact this
      | _ =>
          have := ih (t := t) (hcur.trans (by rw [hep]; exact h))
          rw [hep] at this
          exact this

/-! ## The main result -/

/-- The driver after a list of calls. -/
def Driver.after (epoch : Nat) (ops : List (Timer W)) : Driver W :=
  (run Driver.call (Driver.new epoch) ops).1

/-- What the calls answered. -/
def Driver.answers (epoch : Nat) (ops : List (Timer W)) : List (Answer W) :=
  (run Driver.call (Driver.new epoch) ops).2

/-- `id` does not stand for a live registration: it fired, was cancelled, or was never returned. -/
def Spent (epoch : Nat) (ops : List (Timer W)) (id : Nat) : Prop :=
  id ∈ firedIds (Driver.answers epoch ops)
  ∨ (∃ pre post, ops = pre ++ .cancel id :: post
      ∧ .registered (.armed id) ∉ (run Driver.call (Driver.after epoch (pre ++ [.cancel id])) post).2)
  ∨ .registered (.armed id) ∉ Driver.answers epoch ops

theorem after_epoch (epoch : Nat) (ops : List (Timer W)) :
    (Driver.after epoch ops).epoch = epoch :=
  run_epoch (Driver.new epoch) ops

theorem after_append (epoch : Nat) (pre post : List (Timer W)) :
    Driver.after epoch (pre ++ post) = (run Driver.call (Driver.after epoch pre) post).1 := by
  unfold Driver.after
  rw [run_append]

theorem after_cursor (epoch : Nat) (ops : List (Timer W)) :
    (Driver.after epoch ops).wheel.cursor = instantToTickFloor epoch (latest epoch ops) := by
  refine cursor_run ops (d := Driver.new epoch) ?_
  show 0 = instantToTickFloor epoch epoch
  simp [instantToTickFloor, saturate]

/-- An id that is spent has no waker. -/
theorem Spent.absent {epoch id : Nat} {pre post : List (Timer W)}
    (h : Ready (Driver.new epoch) (pre ++ post)) (hs : Spent epoch pre id) :
    (Driver.after epoch pre).wakers id = none := by
  rcases hs with hfired | ⟨p, q, rfl, hq⟩ | hnever
  · exact (h.gone_of_fired hfired).1
  · have hcancel : (Driver.after epoch (p ++ [.cancel id]) : Driver W).wakers id = none := by
      rw [after_append]
      exact Function.update_self ..
    -- cancelled, and not handed out again since
    have happ : p ++ .cancel id :: q = (p ++ [.cancel id]) ++ q := by simp
    rw [happ, after_append]
    exact none_run hcancel hq
  · exact none_run rfl hnever

/-- The tick of an unclamped deadline is reached only after it. -/
theorem deadline_le_now {epoch deadline now cursor : Nat} (hc : cursor ≤ cursorMax)
    (hlt : cursor < instantToTickCeil epoch deadline)
    (hclamp : instantToTickCeil epoch deadline ≤ cursor + 64 ^ 6 - 1)
    (h : instantToTickCeil epoch deadline ≤ instantToTickFloor epoch now) : deadline ≤ now := by
  refine le_of_ceil_le_floor h ?_ ?_
  · unfold cursorMax at hc; omega
  · by_contra hnow
    have hzero : instantToTickFloor epoch now = 0 := by
      rw [instantToTickFloor, Nat.sub_eq_zero_of_le (by omega), Nat.zero_div]
      rfl
    omega

/--
**Each live timer fires exactly once, on time and never early.**

For every list of fewer than `2 ^ 64` calls through which the cursor stays in range:

* a registration that returned an id is woken by a later `advance` exactly when that
  call reaches its effective tick and no call in between ended it, and if it was not
  clamped its deadline has passed by then;
* no id is returned twice and none fires twice;
* a registration that is refused wakes its own waker, and its deadline is not after
  the latest time advanced to;
* cancelling an id that is not live changes nothing.
-/
theorem timers_fire_once (epoch : Nat) (ops : List (Timer W)) (hlen : ops.length < 2 ^ 64)
    (hrange : Stays Driver.call (fun d => d.wheel.cursor ≤ cursorMax) (Driver.new epoch) ops) :
    (∀ pre mid post deadline w id now,
      ops = pre ++ .register deadline w :: (mid ++ .advance now :: post) →
      ((Driver.after epoch pre).register deadline w).2 = .armed id →
        ((id, w) ∈ ((Driver.after epoch (pre ++ .register deadline w :: mid)).advance now).2 ↔
          (Driver.after epoch pre).effective deadline ≤ instantToTickFloor epoch now
          ∧ ∀ op ∈ mid, ¬ op.Ends epoch id ((Driver.after epoch pre).effective deadline))
        ∧ (instantToTickCeil epoch deadline ≤ (Driver.after epoch pre).wheel.cursor + 64 ^ 6 - 1 →
          (id, w) ∈ ((Driver.after epoch (pre ++ .register deadline w :: mid)).advance now).2 →
            deadline ≤ now))
    ∧ ((Driver.answers epoch ops).filterMap Answer.armed).Nodup
    ∧ (firedIds (Driver.answers epoch ops)).Nodup
    ∧ (∀ pre post deadline w woken, ops = pre ++ .register deadline w :: post →
        ((Driver.after epoch pre).register deadline w).2 = .due woken →
          woken = w ∧ deadline ≤ latest epoch pre)
    ∧ (∀ pre post id, ops = pre ++ .cancel id :: post → Spent epoch pre id →
        (Driver.after epoch pre).cancel id = Driver.after epoch pre) := by
  have hready : Ready (Driver.new epoch : Driver W) ops :=
    ⟨driverInv_new epoch, by show 0 + ops.length < 2 ^ 64; omega, hrange⟩
  refine ⟨?_, hready.armed_nodup.1, hready.fired_nodup.1, ?_, ?_⟩
  · rintro pre mid post deadline w id now rfl hid
    have hreg : Ready (Driver.after epoch pre) _ := hready.after
    have hep := after_epoch epoch pre
    have hiff := hreg.fires_iff hid
    have hlt := (hreg.pending hid).1
    rw [hep] at hiff hlt
    rw [after_append]
    refine ⟨hiff, ?_⟩
    intro hclamp hfire
    -- not clamped: the effective tick is the deadline's own
    have heff : (Driver.after epoch pre).effective deadline = instantToTickCeil epoch deadline := by
      rw [Driver.effective, hep, Nat.min_eq_left hclamp]
    have hle := (hiff.mp hfire).1
    rw [heff] at hle
    exact deadline_le_now hreg.stays.head hlt hclamp hle
  · rintro pre post deadline w woken rfl hdue
    have hreg : Ready (Driver.after epoch pre) _ := hready.after
    obtain ⟨hw, hle⟩ := hreg.refused hdue
    refine ⟨hw, ?_⟩
    have hcur := hreg.stays.head
    rw [after_epoch, after_cursor] at hle
    rw [after_cursor] at hcur
    refine le_of_ceil_le_floor hle ?_ (le_latest epoch pre)
    unfold cursorMax at hcur
    omega
  · rintro pre post id rfl hs
    exact cancel_absent (hs.absent hready)

/-- Two timers due together, one of them cancelled, and a call that goes back in time. -/
def shortRun : List (Timer Nat) :=
  [.register 2500000 7, .register 2000000 8, .advance 1000000, .cancel 1, .advance 3000000,
    .advance 500000, .register 3000000 9, .cancel 0]

theorem timers_fire_once_shortRun :
    (firedIds (Driver.answers 0 shortRun)).Nodup
    ∧ (0, 7) ∈ ((Driver.after 0 (shortRun.take 4)).advance 3000000).2 :=
  have h := timers_fire_once 0 shortRun (by decide) (by decide +kernel)
  ⟨h.2.2.1, (h.1 [] [.register 2000000 8, .advance 1000000, .cancel 1] _ 2500000 7 0 3000000 rfl
    (by decide +kernel)).1.mpr (by decide +kernel)⟩

end Nanorun.Time
