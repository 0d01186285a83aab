import Nanorun.Lib.Transition
import Nanorun.Time.NextTick
import Nanorun.Time.Stores

/-!
# The sleeping driver-worker never oversleeps

The driver path of `idle` in `executor/multi/worker.rs`: the worker that holds the
driver token takes the next deadline from the timer driver, computes a timeout and
blocks in `Reactor::poll`, while any threads register, cancel and advance timers.

The lock is released before the timeout is used, so by then it may be too long.
`Driver::register` makes up for it: after the insertion it wakes the reactor, and
that wake stays until the worker that polls has consumed it. So as long as no wake
is pending and no `register` is still to issue one, the timers of the moment are
those of the snapshot or fewer, and the timeout that `Reactor::poll` was given is
the one for the earliest of them or for an earlier tick.

The token is one value here, free or with its holder at some line of `idle`; that
`driver_held` works this way is `Executor.DriverToken`. `ticks` remembers the tick
under which the wheel stored each registration.
-/

namespace Nanorun.Time

open Transition

namespace Oversleep

variable {W : Type}

/-- What the holder of the driver token goes by when it blocks. -/
structure Snapshot where
  /-- `Instant::now()` -/
  now : Nat
  /-- What `next_tick` returned. -/
  tick : Option Nat
  /-- What `Reactor::poll` is given. -/
  timeout : Option Nat
  deriving DecidableEq, Repr

/-- The holder of the driver token, from the CAS to the release. -/
inductive Token where
  | free
  /-- Up to `next_deadline`. -/
  | held
  /-- The timeout has been computed. -/
  | timed (snap : Snapshot)
  /-- Blocked inside `Reactor::poll`. -/
  | polling (snap : Snapshot)
  /-- `Reactor::poll` has returned. -/
  | leaving
  deriving DecidableEq, Repr

structure World (W : Type) where
  driver : Driver W
  ticks : Nat → Nat
  /-- A reactor wake has been issued and not yet consumed. -/
  reactorWake : Bool
  /-- `register` calls between their insertion and their reactor wake. -/
  ringing : Nat
  token : Token

inductive Label (W : Type) where
  /-- The CAS on `driver_held`. -/
  | take
  /-- The second `has_work` found some. -/
  | giveUp
  /-- `Instant::now()` and `next_deadline`. -/
  | read (now : Nat)
  | enter
  /-- `Reactor::poll` returns, having drained the wake or not. -/
  | leave (drained : Bool)
  | release
  | register (deadline : Nat) (waker : W)
  /-- The reactor wake of a `register`. -/
  | ring
  | cancel (id : Nat)
  | advance (now : Nat)
  | clear
  /-- Any other reactor wake: `schedule`, `spawn`, `Multi::drop`. -/
  | wake
  deriving DecidableEq, Repr

/-- `Driver::register` up to its reactor wake. -/
def registered (s : World W) (deadline : Nat) (waker : W) : World W :=
  let r := s.driver.register deadline waker
  match r.2 with
  | .armed id =>
      { s with
        driver := r.1
        ticks := Function.update s.ticks id
          (s.driver.wheel.effective (instantToTickCeil s.driver.epoch deadline))
        ringing := s.ringing + 1 }
  -- too late to be stored: the waker is woken on the spot and the reactor is left alone
  | .due _ => { s with driver := r.1 }

def next (s : World W) : Label W → Option (World W)
  | .take => if s.token = .free then some { s with token := .held } else none
  | .giveUp => if s.token = .held then some { s with token := .free } else none
  | .read now =>
      if s.token = .held then
        -- `d.saturating_duration_since(now)`
        some { s with
          token := .timed
            { now := now
              tick := s.driver.wheel.nextTick
              timeout := s.driver.nextDeadline.map fun d => d - now } }
      else none
  | .enter =>
      match s.token with
      | .timed snap => some { s with token := .polling snap }
      | _ => none
  -- a wake that comes after the drain is left for the next poll
  | .leave drained =>
      match s.token with
      | .polling _ =>
          some { s with token := .leaving, reactorWake := s.reactorWake && !drained }
      | _ => none
  | .release => if s.token = .leaving then some { s with token := .free } else none
  | .register deadline waker => some (registered s deadline waker)
  | .ring =>
      if 0 < s.ringing then some { s with ringing := s.ringing - 1, reactorWake := true } else none
  | .cancel id => some { s with driver := s.driver.cancel id }
  | .advance now => some { s with driver := (s.driver.advance now).1 }
  | .clear => some { s with driver := s.driver.clear }
  | .wake => some { s with reactorWake := true }

def Init (s : World W) : Prop :=
  s.driver = Driver.new s.driver.epoch ∧ s.reactorWake = false ∧ s.ringing = 0 ∧ s.token = .free

def system (W : Type) : System (World W) (Label W) where
  init := Init
  step := next

/-- While the worker is about to block or blocks. -/
def Token.snapshot : Token → Option Snapshot
  | .timed snap | .polling snap => some snap
  | _ => none

/-- The timeout is the time from `now` to the tick. -/
def Snapshot.Computed (epoch : Nat) (snap : Snapshot) : Prop :=
  snap.timeout = snap.tick.map fun tick => tickToInstant epoch tick - snap.now

/-- No timer is due before `tick`; without a tick there are no timers. -/
def Covers (s : World W) (tick : Option Nat) : Prop :=
  ∀ id w, s.driver.wakers id = some w → ∃ t, tick = some t ∧ t ≤ s.ticks id

/-- The snapshot against the driver. -/
structure SnapInv (s : World W) : Prop where
  books : Books s.driver.wheel
  /-- Every waker has an entry at its tick or before. -/
  kept : ∀ id w, s.driver.wakers id = some w →
    ∃ e ∈ s.driver.wheel.stored, e.id = id ∧ e.deadline ≤ s.ticks id
  /-- The timeout is that of the tick. -/
  computed : ∀ snap, s.token.snapshot = some snap → snap.Computed s.driver.epoch
  /-- What the snapshot misses has a wake behind it. -/
  snapshot : ∀ snap, s.token.snapshot = some snap →
    Covers s snap.tick ∨ 0 < s.ringing ∨ s.reactorWake = true

theorem snapInv_init {s : World W} (h : Init s) : SnapInv s := by
  obtain ⟨hd, _, _, htok⟩ := h
  have hnone : ∀ snap, s.token.snapshot ≠ some snap := by
    intro snap ht
    rw [htok] at ht
    exact absurd ht (by simp [Token.snapshot])
  refine ⟨?_, ?_, fun snap ht => absurd ht (hnone snap), fun snap ht => absurd ht (hnone snap)⟩
  · rw [hd]; exact wheelInv_new.books
  · intro id w hw; rw [hd] at hw; exact absurd hw (by simp [Driver.new])

/-- The token, the wake and the pending wakes move; the driver does not. -/
theorem SnapInv.moved {s : World W} (h : SnapInv s) {token : Token} {wake : Bool} {ringing : Nat}
    (hcomp : ∀ snap, token.snapshot = some snap → snap.Computed s.driver.epoch)
    (hsnap : ∀ snap, token.snapshot = some snap →
      Covers s snap.tick ∨ 0 < ringing ∨ wake = true) :
    SnapInv { s with token := token, reactorWake := wake, ringing := ringing } :=
  ⟨h.books, h.kept, hcomp, hsnap⟩

/-- No snapshot, nothing to cover. -/
theorem SnapInv.unsnapped {s : World W} (h : SnapInv s) {token : Token} {wake : Bool}
    (hnone : token.snapshot = none) : SnapInv { s with token := token, reactorWake := wake } := by
  have habs : ∀ snap, token.snapshot ≠ some snap := by
    intro snap ht
    rw [hnone] at ht
    exact absurd ht (by simp)
  exact h.moved (fun snap ht => absurd ht (habs snap)) (fun snap ht => absurd ht (habs snap))

/-- The driver loses wakers and keeps the entries of those it has. -/
theorem SnapInv.shrunk {s : World W} (h : SnapInv s) {d : Driver W} (hbooks : Books d.wheel)
    (hepoch : d.epoch = s.driver.epoch)
    (hsub : ∀ id w, d.wakers id = some w → s.driver.wakers id = some w)
    (hkept : ∀ id w, d.wakers id = some w →
      ∃ e ∈ d.wheel.stored, e.id = id ∧ e.deadline ≤ s.ticks id) :
    SnapInv { s with driver := d } := by
  refine ⟨hbooks, hkept, ?_, ?_⟩
  · intro snap ht
    show snap.Computed d.epoch
    rw [hepoch]
    exact h.computed snap ht
  intro snap ht
  rcases h.snapshot snap ht with hcov | hrest
  · exact .inl fun id w hw => hcov id w (hsub id w hw)
  · exact .inr hrest

theorem timeout_eq (d : Driver W) (now : Nat) :
    (d.nextDeadline.map fun deadline => deadline - now)
      = d.wheel.nextTick.map fun tick => tickToInstant d.epoch tick - now := by
  rw [Driver.nextDeadline, Option.map_map]
  rfl

theorem SnapInv.advanced {s : World W} (h : SnapInv s) (now : Nat) :
    SnapInv { s with driver := (s.driver.advance now).1 } := by
  have hturn := advanceTo_turns s.driver.wheel (instantToTickFloor s.driver.epoch now)
  refine h.shrunk (hturn.books h.books) (call_epoch s.driver (.advance now))
    (fun id w hw => advance_subset s.driver now hw) ?_
  intro id w hw
  obtain ⟨e, he, hid, hle⟩ := h.kept id w (advance_subset s.driver now hw)
  rcases hturn.carries e he with ⟨e', he', hid', hle'⟩ | ⟨e', he', hid'⟩
  · exact ⟨e', he', hid'.trans hid, Nat.le_trans hle' hle⟩
  · -- an expired entry has given its waker up
    have hmem : id ∈ (s.driver.wheel.advanceTo (instantToTickFloor s.driver.epoch now)).2.map
        Entry.id := List.mem_map.mpr ⟨e', he', hid'.trans hid⟩
    have hw' : (Driver.collect s.driver.wakers (s.driver.wheel.advanceTo
        (instantToTickFloor s.driver.epoch now)).2).1 id = some w := hw
    rw [collect_wakers, if_pos hmem] at hw'
    exact absurd hw' (by simp)

/-- What `register` does to the wheel, whatever the cursor. -/
theorem register_wheel (d : Driver W) (deadline : Nat) (w : W) :
    (∃ k slot, (d.register deadline w).2 = .armed d.nextId
      ∧ (d.register deadline w).1.wheel
        = d.wheel.put k slot ⟨d.nextId, d.wheel.effective (instantToTickCeil d.epoch deadline)⟩)
    ∨ ((d.register deadline w).2 = .due w ∧ (d.register deadline w).1.wheel = d.wheel) := by
  unfold Driver.register
  generalize instantToTickCeil d.epoch deadline = tick
  rw [Driver.registerAt]
  rcases insert_cases d.wheel ⟨d.nextId, tick⟩ with hr | ⟨k, slot, hr⟩ <;> rw [hr]
  · exact .inr ⟨rfl, rfl⟩
  · exact .inl ⟨k, slot, rfl, rfl⟩

theorem SnapInv.registered {s : World W} (h : SnapInv s) (deadline : Nat) (w : W) :
    SnapInv (registered s deadline w) := by
  have hepoch : (s.driver.register deadline w).1.epoch = s.driver.epoch :=
    call_epoch s.driver (.register deadline w)
  rcases register_wheel s.driver deadline w with ⟨k, slot, harm, hwheel⟩ | ⟨hdue, hwheel⟩
  · have hws : (s.driver.register deadline w).1.wakers
        = Function.update s.driver.wakers s.driver.nextId (some w) := by
      rcases register_cases s.driver deadline w with ⟨_, hws⟩ | ⟨hdue, _⟩
      · exact hws
      · exact absurd (harm.symm.trans hdue) (by simp)
    simp only [Oversleep.registered, harm]
    refine ⟨?_, ?_, ?_, ?_⟩
    · show Books (s.driver.register deadline w).1.wheel
      rw [hwheel]
      exact h.books.put k slot _
    · intro id v hv
      simp only [hws] at hv
      show ∃ e ∈ (s.driver.register deadline w).1.wheel.stored, e.id = id
        ∧ e.deadline ≤ Function.update s.ticks s.driver.nextId _ id
      rw [hwheel, stored_put]
      by_cases hid : id = s.driver.nextId
      · subst hid
        rw [Function.update_self]
        exact ⟨_, Multiset.mem_add.mpr (.inr (Multiset.mem_singleton_self _)), rfl, Nat.le_refl _⟩
      · rw [Function.update_of_ne hid] at hv ⊢
        obtain ⟨e, he, hrest⟩ := h.kept id v hv
        exact ⟨e, Multiset.mem_add.mpr (.inl he), hrest⟩
    · intro snap ht
      show snap.Computed (s.driver.register deadline w).1.epoch
      rw [hepoch]
      exact h.computed snap ht
    · intro snap _
      -- the wake is still to come
      exact .inr (.inl (Nat.succ_pos _))
  · have hws : (s.driver.register deadline w).1.wakers = s.driver.wakers := by
      rcases register_cases s.driver deadline w with ⟨harm, _⟩ | ⟨_, hws⟩
      · exact absurd (harm.symm.trans hdue) (by simp)
      · exact hws
    simp only [Oversleep.registered, hdue]
    refine h.shrunk ?_ hepoch ?_ ?_
    · rw [hwheel]; exact h.books
    · intro id v hv; rw [hws] at hv; exact hv
    · intro id v hv; rw [hws] at hv; rw [hwheel]; exact h.kept id v hv

theorem snapInv_step {s s' : World W} {a : Label W} (h : SnapInv s) (hs : next s a = some s') :
    SnapInv s' := by
  cases a with
  | take =>
      simp only [next] at hs
      split at hs
      · obtain rfl := Option.some.inj hs
        exact h.unsnapped rfl
      · exact absurd hs (by simp)
  | giveUp =>
      simp only [next] at hs
      split at hs
      · obtain rfl := Option.some.inj hs
        exact h.unsnapped rfl
      · exact absurd hs (by simp)
  | read now =>
      simp only [next] at hs
      split at hs
      · obtain rfl := Option.some.inj hs
        refine h.moved ?_ ?_
        · intro snap ht
          obtain rfl := Option.some.inj ht
          exact timeout_eq s.driver now
        · intro snap ht
          obtain rfl := Option.some.inj ht
          -- the earliest stored deadline is not after any waker's tick
          refine .inl fun id w hw => ?_
          obtain ⟨e, he, _, hle⟩ := h.kept id w hw
          obtain ⟨t, ht, hte⟩ := nextTick_le h.books he
          exact ⟨t, ht, Nat.le_trans hte hle⟩
      · exact absurd hs (by simp)
  | enter =>
      simp only [next] at hs
      split at hs
      · rename_i snap htok
        obtain rfl := Option.some.inj hs
        -- blocking changes nothing about the snapshot
        have hsame : s.token.snapshot = (Token.polling snap).snapshot := by rw [htok]; rfl
        refine h.moved ?_ ?_
        · intro t ht
          exact h.computed t (hsame.trans ht)
        · intro t ht
          exact h.snapshot t (hsame.trans ht)
      · exact absurd hs (by simp)
  | leave drained =>
      simp only [next] at hs
      split at hs
      · obtain rfl := Option.some.inj hs
        exact h.unsnapped rfl
      · exact absurd hs (by simp)
  | release =>
      simp only [next] at hs
      split at hs
      · obtain rfl := Option.some.inj hs
        exact h.unsnapped rfl
      · exact absurd hs (by simp)
  | register deadline w =>
      obtain rfl := Option.some.inj hs
      exact h.registered deadline w
  | ring =>
      simp only [next] at hs
      split at hs
      · obtain rfl := Option.some.inj hs
        exact h.moved h.computed (fun _ _ => .inr (.inr rfl))
      · exact absurd hs (by simp)
  | cancel id =>
      obtain rfl := Option.some.inj hs
      exact h.shrunk h.books rfl (fun _ _ hw => cancel_subset hw)
        (fun i w hw => h.kept i w (cancel_subset hw))
  | advance now =>
      obtain rfl := Option.some.inj hs
      exact h.advanced now
  | clear =>
      obtain rfl := Option.some.inj hs
      have hnone : ∀ id w, s.driver.clear.wakers id ≠ some w := by
        intro id w hw
        exact absurd hw (by simp [Driver.clear])
      exact h.shrunk (clear_spec s.driver.wheel).1.books rfl
        (fun id w hw => absurd hw (hnone id w)) (fun id w hw => absurd hw (hnone id w))
  | wake =>
      obtain rfl := Option.some.inj hs
      exact h.moved h.computed (fun _ _ => .inr (.inr rfl))

theorem snapInv_reachable {s : World W} (h : (system W).Reachable s) : SnapInv s :=
  h.invariant (I := SnapInv) (fun _ => snapInv_init) (fun _ _ _ hi hs => snapInv_step hi hs)

/--
**The sleeping driver-worker never oversleeps a timer.**

In every reachable state in which the worker with the driver token is blocked in
`Reactor::poll`, no wake is pending and no `register` is about to issue one, the timeout
of the poll is the time that was left until the tick it was computed from, and every
timer that has a waker is due no earlier than that tick. If the timeout is `None` there
is no such timer.
-/
theorem no_oversleep {s : World W} (h : (system W).Reachable s) {snap : Snapshot}
    (hpoll : s.token = .polling snap) (hwake : s.reactorWake = false) (hring : s.ringing = 0) :
    (snap.timeout = snap.tick.map fun tick => tickToInstant s.driver.epoch tick - snap.now)
    ∧ (∀ id w, s.driver.wakers id = some w → ∃ tick, snap.tick = some tick ∧ tick ≤ s.ticks id)
    ∧ (snap.timeout = none → ∀ id, s.driver.wakers id = none) := by
  have hi := snapInv_reachable h
  have hsnap : s.token.snapshot = some snap := by rw [hpoll]; rfl
  have hcomp : snap.Computed s.driver.epoch := hi.computed snap hsnap
  have hcov : Covers s snap.tick := by
    rcases hi.snapshot snap hsnap with hcov | hpos | hw
    · exact hcov
    · omega
    · rw [hwake] at hw; exact absurd hw (by simp)
  refine ⟨hcomp, hcov, ?_⟩
  intro hnone id
  cases hw : s.driver.wakers id with
  | none => rfl
  | some w =>
      obtain ⟨tick, htick, _⟩ := hcov id w hw
      -- a timer would have given the poll a timeout
      rw [Snapshot.Computed, hnone, htick] at hcomp
      exact absurd hcomp (by simp)

def start : World Nat where
  driver := Driver.new 0
  ticks _ := 0
  reactorWake := false
  ringing := 0
  token := .free

/-- A registration interrupts the first poll; the second one is bounded by its deadline. -/
def interrupted : List (Label Nat) :=
  [.take, .read 0, .enter, .register 5000000 7, .ring, .leave true, .release, .take, .read 1000000,
    .enter]

/-- The poll that is bounded by the deadline. -/
def bounded : Snapshot := { now := 1000000, tick := some 5, timeout := some 4000000 }

theorem no_oversleep_interrupted :
    ((system Nat).exec start interrupted).token = .polling bounded
    ∧ ∃ tick, bounded.tick = some tick ∧ tick ≤ ((system Nat).exec start interrupted).ticks 0 := by
  have hpoll : ((system Nat).exec start interrupted).token = .polling bounded := by decide +kernel
  have hreach : (system Nat).Reachable ((system Nat).exec start interrupted) :=
    System.Reachable.exec (.init ⟨rfl, rfl, rfl, rfl⟩)
  have hspec := no_oversleep hreach hpoll (by decide +kernel) (by decide +kernel)
  exact ⟨hpoll, hspec.2.1 0 7 (by decide +kernel)⟩

end Oversleep

end Nanorun.Time
