import Nanorun.Lib.Transition
import Nanorun.Time.Fire

/-!
# A pending sleep is armed

`time/mod.rs`: a `Sleep` registers with the driver the first time it is polled
before its deadline, and keeps the id it was given. One sleep is followed through
its polls, while other users of the driver register and cancel timers of their own
and any worker advances the wheel.

A poll reads the clock first and takes the driver's lock later, so it is two steps
and the wheel may move in between. The clock never goes back; an `advance` uses a
reading of it that may be old by the time the lock is taken.

The id is never given up. As long as the entry fires at the tick of the deadline
that is harmless, because the poll that follows finds the deadline passed. An entry
that was clamped fires before, the poll that follows does not register again, and
the sleep is left without a waker.
-/

namespace Nanorun.Time

open Transition

variable {W : Type}

structure Sleep where
  deadline : Nat
  entryId : Option Nat
  deriving DecidableEq, Repr

/-- How far a poll gets on its own. -/
inductive Polled where
  | ready
  | pending
  /-- Not registered yet: the poll goes on to the driver. -/
  | registers
  deriving DecidableEq, Repr

/-- `Sleep::poll` up to `with_current_driver`. -/
def Sleep.poll (s : Sleep) (now : Nat) : Polled :=
  if s.deadline ≤ now then .ready
  else if s.entryId.isNone then .registers
  else .pending

/-- The id that `register` returned, if it did. -/
def Registration.id : Registration W → Option Nat
  | .armed id => some id
  | .due _ => none

namespace Nap

/-- Where the sleep is. -/
inductive Phase (W : Type) where
  /-- Not polled yet. -/
  | fresh
  /-- A poll has read the clock and is about to register this waker. -/
  | registering (waker : W)
  /-- The last poll returned `Pending`. -/
  | pending
  /-- A poll returned `Ready`. -/
  | done
  deriving DecidableEq, Repr

structure World (W : Type) where
  driver : Driver W
  /-- What `Instant::now()` reads. -/
  clock : Nat
  sleep : Sleep
  phase : Phase W
  /-- The sleep's waker has been woken since the last poll began. -/
  woken : Bool

inductive Label (W : Type) where
  | tick (now : Nat)
  | poll (waker : W)
  | register
  | advance (now : Nat)
  /-- Another sleep registers. -/
  | otherRegister (deadline : Nat) (waker : W)
  /-- Another sleep is dropped. -/
  | otherCancel (id : Nat)
  deriving DecidableEq, Repr

/-- The id is the sleep's own and is among those an `advance` woke. -/
def fires (entryId : Option Nat) (fired : List (Nat × W)) : Bool :=
  fired.any fun p => entryId = some p.1

/-- A poll up to the driver's lock. -/
def polled (s : World W) (waker : W) : World W :=
  match s.sleep.poll s.clock with
  | .ready => { s with phase := .done }
  | .pending => { s with phase := .pending, woken := false }
  | .registers => { s with phase := .registering waker, woken := false }

/-- The rest of a poll that registers. -/
def registered (s : World W) (waker : W) : World W :=
  let r := s.driver.register s.sleep.deadline waker
  { s with
    driver := r.1
    sleep := { s.sleep with entryId := r.2.id }
    phase := .pending
    woken := r.2.id.isNone }

def advanced (s : World W) (now : Nat) : World W :=
  let r := s.driver.advance now
  { s with driver := r.1, woken := s.woken || fires s.sleep.entryId r.2 }

def next (s : World W) : Label W → Option (World W)
  | .tick now => if s.clock ≤ now then some { s with clock := now } else none
  | .poll waker =>
      match s.phase with
      | .fresh | .pending => some (polled s waker)
      | _ => none
  | .register =>
      match s.phase with
      | .registering waker => some (registered s waker)
      | _ => none
  | .advance now => if now ≤ s.clock then some (advanced s now) else none
  | .otherRegister deadline waker =>
      some { s with driver := (s.driver.register deadline waker).1 }
  | .otherCancel id =>
      -- each sleep cancels the id it holds
      if s.sleep.entryId = some id then none
      else some { s with driver := s.driver.cancel id }

/-- A sleep and a driver, both new. -/
def Init (s : World W) : Prop :=
  s.driver = Driver.new s.driver.epoch ∧ s.driver.epoch ≤ s.clock
    ∧ s.sleep.entryId = none ∧ s.phase = .fresh ∧ s.woken = false

def system (W : Type) : System (World W) (Label W) where
  init := Init
  step := next

/-- A sleep that is pending can still be woken, not after its deadline's tick, or just was. -/
def Armed (s : World W) : Prop :=
  s.phase = .pending →
    (∃ id w t, s.sleep.entryId = some id ∧ Pending s.driver id w t
      ∧ t ≤ instantToTickCeil s.driver.epoch s.sleep.deadline)
    ∨ s.woken = true

/-- The deadline that is being registered is in the wheel's range, and nothing overflows. -/
def Fits (s : World W) (a : Label W) : Prop :=
  s.driver.nextId + 1 < 2 ^ 64 ∧
  match a with
  | .register =>
      instantToTickCeil s.driver.epoch s.sleep.deadline ≤ s.driver.wheel.cursor + 64 ^ 6 - 1
  | .advance now => instantToTickFloor s.driver.epoch now ≤ cursorMax
  | _ => True

instance decidableFits (s : World W) : ∀ a : Label W, Decidable (Fits s a)
  | .register => inferInstanceAs (Decidable (_ ∧ _ ≤ _))
  | .advance _ => inferInstanceAs (Decidable (_ ∧ _ ≤ _))
  | .tick _ | .poll _ | .otherRegister _ _ | .otherCancel _ => inferInstanceAs (Decidable (_ ∧ True))

/-! ## The driver under one call -/

/-- What is known of a registration for tick `t`: it is pending, or the cursor is past it. -/
def Kept (d : Driver W) (id t : Nat) : Prop := (∃ w, Pending d id w t) ∨ t ≤ d.wheel.cursor

theorem cursor_le_call (d : Driver W) (op : Timer W) :
    d.wheel.cursor ≤ (d.call op).1.wheel.cursor := by
  rw [call_cursor]
  cases op with
  | advance now => exact Nat.le_max_left _ _
  | _ => exact Nat.le_refl _

/-- Of the calls that end a registration only `advance` is left, and it moves the cursor. -/
theorem kept_of_pending {d : Driver W} {op : Timer W} {id t : Nat} {w : W} (hr : Ready d [op])
    (hcancel : op ≠ .cancel id) (hclear : op ≠ .clear) (hp : Pending d id w t) :
    Pending (d.call op).1 id w t ∨ t ≤ (d.call op).1.wheel.cursor := by
  by_cases hop : op.Ends d.epoch id t
  · right
    cases op with
    | register deadline v => exact False.elim hop
    | cancel i => exact absurd (congrArg Timer.cancel hop) hcancel
    | advance now =>
        rw [call_cursor]
        exact Nat.le_trans hop (Nat.le_max_right _ _)
    | clear => exact absurd rfl hclear
  · exact .inl (hp.step hr hop)

theorem Kept.step {d : Driver W} {op : Timer W} {id t : Nat} (hr : Ready d [op])
    (hcancel : op ≠ .cancel id) (hclear : op ≠ .clear) (h : Kept d id t) :
    Kept (d.call op).1 id t := by
  rcases h with ⟨w, hp⟩ | hle
  · rcases kept_of_pending hr hcancel hclear hp with hp' | hle
    · exact .inl ⟨w, hp'⟩
    · exact .inr hle
  · exact .inr (Nat.le_trans hle (cursor_le_call d op))

/-- An `advance` that reaches a pending registration fires it. -/
theorem fires_of_pending {d : Driver W} {now id t : Nat} {w : W} (hr : Ready d [.advance now])
    (hp : Pending d id w t) (hle : t ≤ instantToTickFloor d.epoch now) :
    fires (some id) (d.advance now).2 = true := by
  have hmem : (id, w) ∈ (d.advance now).2 :=
    hr.mem_advance.mpr ⟨(hp.due_iff hr.inv).mpr hle, hp.1⟩
  exact List.any_eq_true.mpr ⟨(id, w), hmem, by simp⟩

/-! ## The invariant -/

/-- One sleep and its driver. -/
structure NapInv (s : World W) : Prop where
  driver : DriverInv s.driver
  range : s.driver.wheel.cursor ≤ cursorMax
  started : s.driver.epoch ≤ s.clock
  /-- The cursor stands at a time that has been. -/
  past : s.driver.wheel.cursor ≤ instantToTickFloor s.driver.epoch s.clock
  /-- It registers once. -/
  unregistered : ∀ w, s.phase = .registering w → s.sleep.entryId = none
  /-- The entry was not clamped. -/
  entry : ∀ id, s.sleep.entryId = some id →
    Kept s.driver id (instantToTickCeil s.driver.epoch s.sleep.deadline)
  /-- While it is pending its entry will fire, or its task has been woken. -/
  armed : s.phase = .pending →
    (∃ id w, s.sleep.entryId = some id
      ∧ Pending s.driver id w (instantToTickCeil s.driver.epoch s.sleep.deadline))
    ∨ s.woken = true

theorem registration_id {r : Registration W} {id : Nat} (h : r.id = some id) : r = .armed id := by
  cases r with
  | armed i => exact congrArg Registration.armed (Option.some.inj h)
  | due w => exact absurd h (by simp [Registration.id])

/-- One call of the driver, of those the steps make. -/
theorem NapInv.ready {s : World W} (h : NapInv s) {a : Label W} (hfit : Fits s a) {op : Timer W}
    (hop : ∀ now, op = .advance now → instantToTickFloor s.driver.epoch now ≤ cursorMax) :
    Ready s.driver [op] := by
  refine ⟨h.driver, ?_, h.range, ?_⟩
  · show s.driver.nextId + 1 < 2 ^ 64
    exact hfit.1
  · show (s.driver.call op).1.wheel.cursor ≤ cursorMax
    rw [call_cursor]
    cases op with
    | advance now => exact Nat.max_le.mpr ⟨h.range, hop now rfl⟩
    | _ => exact h.range

theorem NapInv.readyAdvance {s : World W} (h : NapInv s) {now : Nat} (hfit : Fits s (.advance now)) :
    Ready s.driver [.advance now] := by
  refine h.ready hfit fun t ht => ?_
  obtain rfl := Timer.advance.inj ht
  exact hfit.2

theorem napInv_init {s : World W} (h : Init s) : NapInv s := by
  obtain ⟨hd, hep, hid, hph, _⟩ := h
  have hcur : s.driver.wheel.cursor = 0 := by rw [hd]; rfl
  refine ⟨?_, ?_, hep, ?_, ?_, ?_, ?_⟩
  · rw [hd]; exact driverInv_new _
  · rw [hcur]; exact Nat.zero_le _
  · rw [hcur]; exact Nat.zero_le _
  · intro w hw; exact hid
  · intro id hid'; rw [hid] at hid'; exact absurd hid' (by simp)
  · intro hp; rw [hph] at hp; exact absurd hp (by simp)

/-- The driver makes a call for someone else. -/
theorem NapInv.other {s : World W} (h : NapInv s) {op : Timer W} (hr : Ready s.driver [op])
    (hadv : ∀ now, op ≠ .advance now) (hclear : op ≠ .clear)
    (hcancel : ∀ id, s.sleep.entryId = some id → op ≠ .cancel id) :
    NapInv { s with driver := (s.driver.call op).1 } := by
  have hep := call_epoch s.driver op
  have hcur : (s.driver.call op).1.wheel.cursor = s.driver.wheel.cursor := by
    rw [call_cursor]
    cases op with
    | advance now => exact absurd rfl (hadv now)
    | _ => rfl
  refine ⟨hr.step.inv, ?_, ?_, ?_, h.unregistered, ?_, ?_⟩
  · show _ ≤ cursorMax; rw [hcur]; exact h.range
  · show (s.driver.call op).1.epoch ≤ s.clock; rw [hep]; exact h.started
  · show _ ≤ instantToTickFloor (s.driver.call op).1.epoch s.clock
    rw [hcur, hep]; exact h.past
  · intro id hid
    show Kept (s.driver.call op).1 id (instantToTickCeil (s.driver.call op).1.epoch _)
    rw [hep]
    exact (h.entry id hid).step hr (hcancel id hid) hclear
  · intro hp
    show (∃ id w, _ ∧ Pending (s.driver.call op).1 id w
      (instantToTickCeil (s.driver.call op).1.epoch _)) ∨ _
    rw [hep]
    rcases h.armed hp with ⟨id, w, hid, hpend⟩ | hw
    · refine .inl ⟨id, w, hid, hpend.step hr ?_⟩
      intro hends
      cases op with
      | register deadline v => exact hends
      | cancel i => exact hcancel id hid (congrArg Timer.cancel hends)
      | advance now => exact hadv now rfl
      | clear => exact hclear rfl
    · exact .inr hw

/-- A poll before the deadline finds a registered sleep still pending in the driver. -/
theorem NapInv.pending_of_early {s : World W} (h : NapInv s) {id : Nat}
    (hid : s.sleep.entryId = some id) (hearly : s.clock < s.sleep.deadline) :
    ∃ w, Pending s.driver id w (instantToTickCeil s.driver.epoch s.sleep.deadline) := by
  rcases h.entry id hid with hp | hle
  · exact hp
  · -- the cursor is past the tick, so the clock is past the deadline
    have hcur := h.range
    have hdead := le_of_ceil_le_floor (Nat.le_trans hle h.past)
      (by unfold cursorMax at hcur; omega) h.started
    omega

theorem poll_cases (s : World W) (w : W) :
    (s.sleep.deadline ≤ s.clock ∧ polled s w = { s with phase := .done })
    ∨ (s.clock < s.sleep.deadline ∧ s.sleep.entryId = none
        ∧ polled s w = { s with phase := .registering w, woken := false })
    ∨ (s.clock < s.sleep.deadline ∧ (∃ id, s.sleep.entryId = some id)
        ∧ polled s w = { s with phase := .pending, woken := false }) := by
  by_cases hdue : s.sleep.deadline ≤ s.clock
  · exact .inl ⟨hdue, by simp [polled, Sleep.poll, hdue]⟩
  · cases hid : s.sleep.entryId with
    | none => exact .inr (.inl ⟨by omega, rfl, by simp [polled, Sleep.poll, hdue, hid]⟩)
    | some id => exact .inr (.inr ⟨by omega, ⟨id, rfl⟩, by simp [polled, Sleep.poll, hdue, hid]⟩)

theorem NapInv.polled {s : World W} (h : NapInv s) (w : W) : NapInv (polled s w) := by
  rcases poll_cases s w with ⟨_, heq⟩ | ⟨_, hnone, heq⟩ | ⟨hearly, ⟨id, hid⟩, heq⟩ <;> rw [heq]
  · exact ⟨h.driver, h.range, h.started, h.past, by intro v hv; exact absurd hv (by simp), h.entry,
      by intro hp; exact absurd hp (by simp)⟩
  · exact ⟨h.driver, h.range, h.started, h.past, fun _ _ => hnone, h.entry,
      by intro hp; exact absurd hp (by simp)⟩
  · obtain ⟨v, hp⟩ := h.pending_of_early hid hearly
    exact ⟨h.driver, h.range, h.started, h.past, by intro v hv; exact absurd hv (by simp), h.entry,
      fun _ => .inl ⟨id, v, hid, hp⟩⟩

theorem NapInv.registered {s : World W} (h : NapInv s) (hfit : Fits s .register) (w : W) :
    NapInv (registered s w) := by
  have hr : Ready s.driver [.register s.sleep.deadline w] := h.ready hfit (by simp)
  have hep : (s.driver.register s.sleep.deadline w).1.epoch = s.driver.epoch :=
    call_epoch s.driver (.register s.sleep.deadline w)
  have hcur : (s.driver.register s.sleep.deadline w).1.wheel.cursor = s.driver.wheel.cursor :=
    call_cursor s.driver (.register s.sleep.deadline w)
  refine ⟨hr.step.inv, ?_, ?_, ?_, by intro v hv; exact absurd hv (by simp [Nap.registered]), ?_, ?_⟩
  · show (s.driver.register s.sleep.deadline w).1.wheel.cursor ≤ cursorMax
    rw [hcur]; exact h.range
  · show (s.driver.register s.sleep.deadline w).1.epoch ≤ s.clock
    rw [hep]; exact h.started
  · show (s.driver.register s.sleep.deadline w).1.wheel.cursor
        ≤ instantToTickFloor (s.driver.register s.sleep.deadline w).1.epoch s.clock
    rw [hcur, hep]; exact h.past
  · intro id hid
    have harm : (s.driver.register s.sleep.deadline w).2 = .armed id := registration_id hid
    -- in range, so the wheel did not clamp it
    have hp := (hr.pending harm).2
    rw [Nat.min_eq_left hfit.2] at hp
    refine .inl ⟨w, ?_⟩
    show Pending (s.driver.register s.sleep.deadline w).1 id w
      (instantToTickCeil (s.driver.register s.sleep.deadline w).1.epoch s.sleep.deadline)
    rw [hep]
    exact hp
  · intro _
    cases hid : (s.driver.register s.sleep.deadline w).2.id with
    -- refused: `register` has woken it already
    | none => exact .inr (by simp only [Nap.registered, hid, Option.isNone_none])
    | some id =>
        have hp := (hr.pending (registration_id hid)).2
        rw [Nat.min_eq_left hfit.2] at hp
        refine .inl ⟨id, w, hid, ?_⟩
        show Pending (s.driver.register s.sleep.deadline w).1 id w
          (instantToTickCeil (s.driver.register s.sleep.deadline w).1.epoch s.sleep.deadline)
        rw [hep]
        exact hp

theorem NapInv.advanced {s : World W} {now : Nat} (h : NapInv s) (hfit : Fits s (.advance now))
    (hnow : now ≤ s.clock) : NapInv (advanced s now) := by
  have hr := h.readyAdvance hfit
  have hep : (s.driver.advance now).1.epoch = s.driver.epoch := call_epoch s.driver (.advance now)
  have hcur : (s.driver.advance now).1.wheel.cursor
      = max s.driver.wheel.cursor (instantToTickFloor s.driver.epoch now) :=
    call_cursor s.driver (.advance now)
  refine ⟨hr.step.inv, ?_, ?_, ?_, h.unregistered, ?_, ?_⟩
  · show (s.driver.advance now).1.wheel.cursor ≤ cursorMax
    rw [hcur]
    exact Nat.max_le.mpr ⟨h.range, hfit.2⟩
  · show (s.driver.advance now).1.epoch ≤ s.clock; rw [hep]; exact h.started
  · show (s.driver.advance now).1.wheel.cursor
        ≤ instantToTickFloor (s.driver.advance now).1.epoch s.clock
    rw [hcur, hep]
    exact Nat.max_le.mpr ⟨h.past, instantToTickFloor_mono hnow⟩
  · intro id hid
    show Kept (s.driver.advance now).1 id (instantToTickCeil (s.driver.advance now).1.epoch _)
    rw [hep]
    exact (h.entry id hid).step hr (by simp) (by simp)
  · intro hp
    show (∃ id w, _ ∧ Pending (s.driver.advance now).1 id w
      (instantToTickCeil (s.driver.advance now).1.epoch _)) ∨ (s.woken || _) = true
    rw [hep]
    rcases h.armed hp with ⟨id, w, hid, hpend⟩ | hw
    · by_cases hend : instantToTickCeil s.driver.epoch s.sleep.deadline
          ≤ instantToTickFloor s.driver.epoch now
      -- out of the map, and woken by the same call
      · right
        rw [hid, fires_of_pending hr hpend hend, Bool.or_true]
      · exact .inl ⟨id, w, hid, hpend.step hr hend⟩
    · right
      rw [hw, Bool.true_or]

theorem napInv_step {s s' : World W} {a : Label W} (h : NapInv s) (hfit : Fits s a)
    (hs : next s a = some s') : NapInv s' := by
  cases a with
  | tick now =>
      simp only [next] at hs
      split at hs
      · rename_i hle
        obtain rfl := Option.some.inj hs
        exact ⟨h.driver, h.range, Nat.le_trans h.started hle,
          Nat.le_trans h.past (instantToTickFloor_mono hle), h.unregistered, h.entry, h.armed⟩
      · exact absurd hs (by simp)
  | poll w =>
      simp only [next] at hs
      split at hs
      · obtain rfl := Option.some.inj hs; exact h.polled w
      · obtain rfl := Option.some.inj hs; exact h.polled w
      · exact absurd hs (by simp)
  | register =>
      simp only [next] at hs
      split at hs
      · obtain rfl := Option.some.inj hs; exact h.registered hfit _
      · exact absurd hs (by simp)
  | advance now =>
      simp only [next] at hs
      split at hs
      · rename_i hnow
        obtain rfl := Option.some.inj hs
        exact h.advanced hfit hnow
      · exact absurd hs (by simp)
  | otherRegister deadline w =>
      obtain rfl := Option.some.inj hs
      have hr : Ready s.driver [.register deadline w] := h.ready hfit (by simp)
      exact h.other hr (by simp) (by simp) (by simp)
  | otherCancel id =>
      simp only [next] at hs
      split at hs
      · exact absurd hs (by simp)
      · rename_i hne
        obtain rfl := Option.some.inj hs
        have hr : Ready s.driver [.cancel id] := h.ready hfit (by simp)
        refine h.other hr (by simp) (by simp) ?_
        intro i hi heq
        obtain rfl := Timer.cancel.inj heq
        exact hne hi

theorem napInv_reachable {s : World W} (h : (system W).ReachableVia Fits s) : NapInv s :=
  h.invariant (fun _ => napInv_init) (fun _ _ _ hi hfit hs => napInv_step hi hfit hs)

/-! ## Deadlines out of range -/

/-- The entry of a deadline out of range fires before it, and the poll that follows lets it go. -/
theorem NapInv.stranded {s : World W} (h : NapInv s) {w : W} (v : W) (now : Nat)
    (hphase : s.phase = .registering w) (hids : s.driver.nextId + 2 < 2 ^ 64)
    (hfar : s.driver.wheel.cursor + 64 ^ 6 - 1
      < instantToTickCeil s.driver.epoch s.sleep.deadline)
    (hclock : s.clock ≤ now) (hearly : now < s.sleep.deadline)
    (hreach : s.driver.wheel.cursor + 64 ^ 6 - 1 ≤ instantToTickFloor s.driver.epoch now)
    (hmax : instantToTickFloor s.driver.epoch now ≤ cursorMax) :
    ∃ s', (system W).run s [.register, .tick now, .advance now, .poll v] = some s'
      ∧ ¬ Armed s' := by
  have hep := call_epoch s.driver (.register s.sleep.deadline w)
  have hcur := call_cursor s.driver (.register s.sleep.deadline w)
  have hr : Ready s.driver [.register s.sleep.deadline w, .advance now] := by
    refine ⟨h.driver, hids, h.range, ?_, ?_⟩
    · show _ ≤ cursorMax; rw [hcur]; exact h.range
    · show _ ≤ cursorMax
      rw [call_cursor, hcur, hep]
      exact Nat.max_le.mpr ⟨h.range, hmax⟩
  -- it is armed for the clamped tick
  obtain ⟨id, harm⟩ : ∃ id, (s.driver.register s.sleep.deadline w).2 = .armed id :=
    ⟨_, (registerAt_armed _ w h.driver.wheel h.range (by omega)).1⟩
  have hp := (hr.pending harm).2
  rw [Nat.min_eq_right (Nat.le_of_lt hfar)] at hp
  -- and the `advance` takes it out, before the deadline
  have hgone := hp.ended hr.step (show _ ≤ _ by rw [hep]; exact hreach)
  refine ⟨Nap.polled (Nap.advanced { Nap.registered s w with clock := now } now) v, ?_, ?_⟩
  · simp only [System.run, system, next, hphase, Option.bind_some]
    rw [if_pos (show (Nap.registered s w).clock ≤ now from hclock), Option.bind_some,
      if_pos (Nat.le_refl now), Option.bind_some]
    rfl
  · intro harmed
    rcases poll_cases (Nap.advanced { Nap.registered s w with clock := now } now) v with
      ⟨hdue, _⟩ | ⟨_, hnone, _⟩ | ⟨_, ⟨i, hi⟩, heq⟩
    · have : s.sleep.deadline ≤ now := hdue
      omega
    · have hid : (s.driver.register s.sleep.deadline w).2.id = none := hnone
      rw [harm] at hid
      exact absurd hid (by simp [Registration.id])
    -- the poll finds the old id, so it does not register again
    · have hid : (s.driver.register s.sleep.deadline w).2.id = some i := hi
      rw [harm] at hid
      obtain rfl := Option.some.inj hid
      rw [heq] at harmed
      rcases harmed rfl with ⟨j, u, t, hj, hpend, _⟩ | hw
      · obtain rfl := Option.some.inj (hi.symm.trans hj)
        exact absurd (hgone.1.symm.trans hpend.1) (by simp)
      · exact absurd hw (by simp)

/--
**A pending sleep is armed, as long as its deadline is in the wheel's range.**

In every run in which each deadline is registered within range and no counter
overflows, a pending sleep has a waker in the driver and an entry no later than its
deadline's tick, or has just been woken. A deadline out of range is what breaks it:
once its clamped tick has passed, the next poll before the deadline leaves the sleep
pending and unarmed.
-/
theorem sleep_armed {s : World W} (h : (system W).ReachableVia Fits s) :
    Armed s
    ∧ ∀ w v now, s.phase = .registering w → s.driver.nextId + 2 < 2 ^ 64 →
        s.driver.wheel.cursor + 64 ^ 6 - 1 < instantToTickCeil s.driver.epoch s.sleep.deadline →
        s.clock ≤ now → now < s.sleep.deadline →
        s.driver.wheel.cursor + 64 ^ 6 - 1 ≤ instantToTickFloor s.driver.epoch now →
        instantToTickFloor s.driver.epoch now ≤ cursorMax →
        ∃ s', (system W).run s [.register, .tick now, .advance now, .poll v] = some s'
          ∧ ¬ Armed s' := by
  have hinv := napInv_reachable h
  refine ⟨?_, ?_⟩
  · intro hp
    rcases hinv.armed hp with ⟨id, w, hid, hpend⟩ | hw
    · exact .inl ⟨id, w, _, hid, hpend, Nat.le_refl _⟩
    · exact .inr hw
  · intro w v now hphase hids hfar hclock hearly hreach hmax
    exact hinv.stranded v now hphase hids hfar hclock hearly hreach hmax

/-- A new driver, a sleep and the time. -/
def start (deadline : Nat) : World Nat where
  driver := Driver.new 0
  clock := 0
  sleep := { deadline := deadline, entryId := none }
  phase := .fresh
  woken := false

theorem start_init (deadline : Nat) : Init (start deadline) :=
  ⟨rfl, Nat.le_refl 0, rfl, rfl, rfl⟩

/-- Five milliseconds, fired on time. -/
def onTime : List (Label Nat) := [.poll 7, .register, .tick 5000000, .advance 5000000]

theorem sleep_armed_onTime : Armed ((system Nat).exec (start 5000000) onTime) :=
  (sleep_armed (System.ReachableVia.exec (.init (start_init _)) (by decide +kernel))).1

/-- The first millisecond beyond the wheel. -/
def beyond : World Nat := start (64 ^ 6 * tickNs)

theorem sleep_unarmed : ∃ s : World Nat, (system Nat).Reachable s ∧ ¬ Armed s := by
  have hpoll : next beyond (.poll 7) = some (Nap.polled beyond 7) := rfl
  have hstart : (system Nat).Reachable beyond := .init (start_init _)
  have hinv : NapInv (Nap.polled beyond 7) :=
    napInv_step (napInv_init (start_init _)) ⟨by decide, trivial⟩ hpoll
  obtain ⟨s', hrun, hbad⟩ := hinv.stranded 7 ((64 ^ 6 - 1) * tickNs) rfl
    (by decide) (by decide) (by decide) (by decide) (by decide) (by decide)
  have hreach : (system Nat).Reachable (Nap.polled beyond 7) :=
    .tail (a := .poll 7) hstart trivial hpoll
  exact ⟨s', hreach.run hrun, hbad⟩

end Nap

end Nanorun.Time
