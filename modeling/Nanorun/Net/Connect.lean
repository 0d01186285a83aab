import Nanorun.Lib.Transition
import Nanorun.Net.Tcp

/-!
# Connecting

`TcpStream::connect` on a socket whose `connect` returned `EINPROGRESS`: the future
parks in `ReadyFor` for write readiness and then looks at `SO_ERROR`, which reads 0
while the attempt is still under way.

`ReadyFor` takes any second poll for readiness. The loops of `accept`, `read` and
`write` try their system call again and notice; here there is nothing to try, and a
poll that comes for another reason than the reactor's wake turns a connection that
is not there yet into `Ok`. An enclosing `timeout` polls the inner future first when
its timer fires, so this does happen.

Other sockets of the same reactor come and go and their wakers are set and taken.
-/

namespace Nanorun.Net

open Reactor Transition

namespace Connect

variable {W : Type}

/-- `ConnectStatus`, or the error. -/
inductive Status where
  | done
  | inProgress
  | error
  deriving DecidableEq, Repr

/-- What the kernel has made of the attempt. -/
inductive Attempt where
  | underWay
  | established
  | failed (errno : Nat)
  deriving DecidableEq, Repr

/-- `SO_ERROR` -/
def Attempt.soError : Attempt → Nat
  | .underWay | .established => 0
  | .failed errno => errno

inductive Stage where
  | fresh
  /-- Parked after `EINPROGRESS`, registered under `key`. -/
  | waiting (key : Nat) (future : ReadyFor)
  /-- `Ok(stream)`; `waited` if it went through `EINPROGRESS`. -/
  | ok (key : Nat) (waited : Bool)
  | err
  deriving DecidableEq, Repr

structure World (W : Type) where
  slots : Slab (Slot W)
  nextReg : Nat
  attempt : Attempt
  stage : Stage
  /-- An event that serves the write direction of this stream's token has been dispatched. -/
  dispatched : Bool
  /-- The waker that it parked with has been taken out of its slot to be woken. -/
  notified : Bool

/-- The answers of the system calls a poll may make. -/
structure Answers where
  connect : Status
  /-- `epoll::add` succeeds. -/
  add : Bool
  /-- `getsockopt` succeeds. -/
  getsockopt : Bool
  /-- `epoll::delete` succeeds, if the stream is dropped. -/
  delete : Bool
  deriving DecidableEq, Repr

inductive Label (W : Type) where
  | poll (waker : W) (answers : Answers)
  | settle (attempt : Attempt)
  | dispatch (events : List Event)
  /-- Another socket is registered, its waker set, or it is deregistered. -/
  | otherRegister
  | otherSetWaker (token : Nat) (d : Direction) (waker : W)
  | otherDeregister (key : Nat)
  deriving DecidableEq, Repr

/-- `sys::so_error(..)? != 0` decides; a stream that is not returned is deregistered. -/
def afterReady (s : World W) (key : Nat) (answers : Answers) : World W :=
  if answers.getsockopt = true ∧ s.attempt.soError = 0 then { s with stage := .ok key true }
  else { s with stage := .err, slots := if answers.delete then s.slots.remove key else s.slots }

/-- The first poll: `connect`, the registration, and `ReadyFor` if it is in progress. -/
def opened (s : World W) (waker : W) (answers : Answers) : World W :=
  if answers.connect = .error then { s with stage := .err }
  else
    let key := s.slots.nextKey
    let slots := s.slots.insert (Slot.new s.nextReg)
    let s := { s with nextReg := s.nextReg + 1 }
    if answers.add = false then { s with slots := slots.remove key, stage := .err }
    else if answers.connect = .inProgress then
      -- the first poll of `ReadyFor` always parks
      let r := (ReadyFor.new (key + 1) .write).poll slots waker
      { s with slots := r.slots, stage := .waiting key r.future }
    else { s with slots := slots, stage := .ok key false }

/-- `TcpStream::connect` as a future. -/
def polled (s : World W) (waker : W) (answers : Answers) : Option (World W) :=
  match s.stage with
  | .fresh => some (opened s waker answers)
  | .waiting key future =>
      let r := future.poll s.slots waker
      if r.ready then some (afterReady { s with slots := r.slots } key answers)
      else some { s with slots := r.slots, stage := .waiting key r.future }
  | _ => none

/-- The key the stream is parked under. -/
def Stage.key : Stage → Option Nat
  | .waiting key _ => some key
  | _ => none

/-- The dispatch of these events serves the stream. -/
def serves (key : Option Nat) (events : List Event) : Bool :=
  events.any fun ev => key.map (· + 1) = some ev.token && ev.ready.serves .write

/-- The dispatch takes the stream's waker. -/
def takes (key : Option Nat) (taken : List (Taken W)) : Bool :=
  taken.any fun t => key.map (· + 1) = some t.event.token && t.direction = .write

def next (s : World W) : Label W → Option (World W)
  | .poll waker answers => polled s waker answers
  | .settle attempt => some { s with attempt := attempt }
  | .dispatch events =>
      let r := Reactor.dispatch s.slots events
      some { s with
        slots := r.1
        dispatched := s.dispatched || serves s.stage.key events
        notified := s.notified || takes s.stage.key r.2 }
  | .otherRegister =>
      some { s with slots := s.slots.insert (Slot.new s.nextReg), nextReg := s.nextReg + 1 }
  | .otherSetWaker token d waker =>
      if s.stage.key.map (· + 1) = some token then none
      else some { s with slots := Reactor.setWaker s.slots token d waker }
  | .otherDeregister key =>
      if s.stage.key = some key then none else some { s with slots := s.slots.remove key }

def start : World W where
  slots := Slab.new
  nextReg := 0
  attempt := .underWay
  stage := .fresh
  dispatched := false
  notified := false

def system (W : Type) : System (World W) (Label W) where
  init s := s = start
  step := next

/-- A connection that had to be waited for is reported after its readiness. -/
def ReadyFirst (s : World W) : Prop := ∀ key, s.stage = .ok key true → s.dispatched = true

/-- A parked connection is polled again only when the waker it parked with was woken. -/
def OnlyWoken (s : World W) : Label W → Prop
  | .poll _ _ => s.stage.key.isSome → s.notified = true
  | _ => True

instance decidableOnlyWoken (s : World W) : ∀ a : Label W, Decidable (OnlyWoken s a)
  | .poll _ _ => inferInstanceAs (Decidable (_ → _))
  | .settle _ | .dispatch _ | .otherRegister | .otherSetWaker _ _ _ | .otherDeregister _ =>
      .isTrue trivial

/-! ## What a step can do -/

inductive StepTo (s : World W) : Label W → World W → Prop where
  | opened {w : W} {answers : Answers} : s.stage = .fresh →
      StepTo s (.poll w answers) (opened s w answers)
  /-- A poll of a parked connection. -/
  | resumed {w : W} {answers : Answers} {key : Nat} {f : ReadyFor} {s' : World W} :
      s.stage = .waiting key f → polled s w answers = some s' → StepTo s (.poll w answers) s'
  | settle {attempt : Attempt} : StepTo s (.settle attempt) { s with attempt := attempt }
  | dispatch {events : List Event} :
      StepTo s (.dispatch events)
        { s with
          slots := (Reactor.dispatch s.slots events).1
          dispatched := s.dispatched || serves s.stage.key events
          notified := s.notified || takes s.stage.key (Reactor.dispatch s.slots events).2 }
  /-- Other sockets leave the stream and its slot alone. -/
  | other {a : Label W} {slots : Slab (Slot W)} {n : Nat} :
      StepTo s a { s with slots := slots, nextReg := n }

theorem next_spec {s s' : World W} {a : Label W} (hs : next s a = some s') : StepTo s a s' := by
  cases a with
  | poll w answers =>
      have hs' : polled s w answers = some s' := hs
      cases hst : s.stage with
      | fresh =>
          simp only [polled, hst] at hs'
          obtain rfl := Option.some.inj hs'
          exact .opened hst
      | waiting key f => exact .resumed hst hs'
      | ok key waited => simp only [polled, hst] at hs'; exact absurd hs' (by simp)
      | err => simp only [polled, hst] at hs'; exact absurd hs' (by simp)
  | settle attempt =>
      obtain rfl := Option.some.inj hs
      exact .settle
  | dispatch events =>
      obtain rfl := Option.some.inj hs
      exact .dispatch
  | otherRegister =>
      obtain rfl := Option.some.inj hs
      exact .other
  | otherSetWaker token d w =>
      simp only [next] at hs
      split at hs
      · exact absurd hs (by simp)
      · obtain rfl := Option.some.inj hs
        exact .other
  | otherDeregister key =>
      simp only [next] at hs
      split at hs
      · exact absurd hs (by simp)
      · obtain rfl := Option.some.inj hs
        exact .other

/-! ## Polls -/

structure ConnectInv (s : World W) : Prop where
  /-- A parked future has been polled once. -/
  parked : ∀ key f, s.stage = .waiting key f → f.polled = true
  /-- Its waker is taken only for an event that serves it. -/
  woken : s.notified = true → s.dispatched = true

theorem connectInv_start : ConnectInv (start : World W) where
  parked := by intro key f h; exact absurd h (by simp [start])
  woken := by intro h; exact absurd h (by simp [start])

/-- The second poll of a parked connection resolves it. -/
theorem ConnectInv.polled_waiting {s : World W} (h : ConnectInv s) {key : Nat} {f : ReadyFor}
    (hst : s.stage = .waiting key f) (w : W) (answers : Answers) :
    polled s w answers = some (afterReady s key answers) := by
  have hp := h.parked key f hst
  have hready : f.poll s.slots w = { future := f, slots := s.slots, ready := true } := by
    rw [ReadyFor.poll, if_pos hp]
  unfold polled
  rw [hst]
  simp only [hready, if_true]
  rw [← hst]

theorem opened_stage (s : World W) (w : W) (answers : Answers) :
    (∃ key, (opened s w answers).stage = .waiting key ⟨key + 1, .write, true⟩)
    ∨ (∃ key, (opened s w answers).stage = .ok key false) ∨ (opened s w answers).stage = .err := by
  unfold opened
  split
  · exact .inr (.inr rfl)
  · simp only
    split
    · exact .inr (.inr rfl)
    · split
      · exact .inl ⟨_, rfl⟩
      · exact .inr (.inl ⟨_, rfl⟩)

theorem opened_flags (s : World W) (w : W) (answers : Answers) :
    (opened s w answers).dispatched = s.dispatched ∧ (opened s w answers).notified = s.notified := by
  unfold opened
  split
  · exact ⟨rfl, rfl⟩
  · simp only
    split
    · exact ⟨rfl, rfl⟩
    · split <;> exact ⟨rfl, rfl⟩

theorem afterReady_flags (s : World W) (key : Nat) (answers : Answers) :
    (afterReady s key answers).dispatched = s.dispatched
    ∧ (afterReady s key answers).notified = s.notified := by
  unfold afterReady
  split <;> exact ⟨rfl, rfl⟩

/-- The outcome of a poll that found `ReadyFor` ready. -/
theorem afterReady_stage (s : World W) (key : Nat) (answers : Answers) :
    (answers.getsockopt = true ∧ s.attempt.soError = 0 ∧ (afterReady s key answers).stage = .ok key true)
    ∨ (¬ (answers.getsockopt = true ∧ s.attempt.soError = 0)
        ∧ (afterReady s key answers).stage = .err) := by
  unfold afterReady
  split
  · rename_i hok; exact .inl ⟨hok.1, hok.2, rfl⟩
  · rename_i hno; exact .inr ⟨hno, rfl⟩

/-- A taken waker of the stream was taken for an event that serves it. -/
theorem serves_of_takes {slots : Slab (Slot W)} {events : List Event} {key : Option Nat}
    (h : takes key (dispatch slots events).2 = true) : serves key events = true := by
  obtain ⟨t, ht, hkey⟩ := List.any_eq_true.mp h
  obtain ⟨_, _, hev, _, _, _, hserve⟩ := mem_dispatch ht
  -- the waker came out of the slot under the token of its event
  simp only [Bool.and_eq_true, decide_eq_true_eq] at hkey
  refine List.any_eq_true.mpr ⟨t.event, hev, ?_⟩
  rw [hkey.2] at hserve
  simp only [Bool.and_eq_true, decide_eq_true_eq]
  exact ⟨hkey.1, hserve⟩

theorem connectInv_step {s s' : World W} {a : Label W} (h : ConnectInv s)
    (hs : next s a = some s') : ConnectInv s' := by
  cases next_spec hs with
  | @opened w answers _ =>
      obtain ⟨hd, hn⟩ := opened_flags s w answers
      refine ⟨?_, by rw [hd, hn]; exact h.woken⟩
      intro key f hf
      rcases opened_stage s w answers with ⟨k, hk⟩ | ⟨k, hk⟩ | hk <;> rw [hk] at hf
      · obtain ⟨_, rfl⟩ := Stage.waiting.inj hf
        rfl
      · exact absurd hf (by simp)
      · exact absurd hf (by simp)
  | @resumed w answers key f _ hst hpoll =>
      rw [h.polled_waiting hst] at hpoll
      obtain rfl := Option.some.inj hpoll
      obtain ⟨hd, hn⟩ := afterReady_flags s key answers
      refine ⟨?_, by rw [hd, hn]; exact h.woken⟩
      intro k g hg
      rcases afterReady_stage s key answers with ⟨_, _, hk⟩ | ⟨_, hk⟩ <;> rw [hk] at hg <;>
        exact absurd hg (by simp)
  | settle => exact ⟨h.parked, h.woken⟩
  | @dispatch events =>
      refine ⟨h.parked, ?_⟩
      intro hn
      show (s.dispatched || serves s.stage.key events) = true
      rcases Bool.or_eq_true_iff.mp hn with hold | hnew
      · rw [h.woken hold, Bool.true_or]
      · rw [serves_of_takes hnew, Bool.or_true]
  | other => exact ⟨h.parked, h.woken⟩

theorem connectInv_reachable {s : World W} (h : (system W).Reachable s) : ConnectInv s :=
  h.invariant (I := ConnectInv) (by rintro _ rfl; exact connectInv_start)
    (fun _ _ _ hi hs => connectInv_step hi hs)

/-! ## Success after readiness -/

/-- A poll of a parked connection keeps the order exactly if the readiness has been
dispatched, or the answer is an error anyway. -/
theorem readyFirst_afterReady (s : World W) (key : Nat) (answers : Answers) :
    ReadyFirst (afterReady s key answers)
      ↔ s.dispatched = true ∨ ¬ (answers.getsockopt = true ∧ s.attempt.soError = 0) := by
  have hd := (afterReady_flags s key answers).1
  rcases afterReady_stage s key answers with ⟨hget, hzero, hk⟩ | ⟨hno, hk⟩
  · refine ⟨?_, ?_⟩
    · intro h
      exact .inl (hd ▸ h key hk)
    · rintro (hdisp | hno) k _
      · rw [hd]; exact hdisp
      · exact absurd ⟨hget, hzero⟩ hno
  · refine ⟨fun _ => .inr hno, ?_⟩
    intro _ k hok
    rw [hk] at hok
    exact absurd hok (by simp)

theorem readyFirst_opened (s : World W) (w : W) (answers : Answers) :
    ReadyFirst (opened s w answers) := by
  intro key hok
  rcases opened_stage s w answers with ⟨k, hk⟩ | ⟨k, hk⟩ | hk <;> rw [hk] at hok <;>
    exact absurd hok (by simp)

/-- No other step changes what the future has returned, or forgets an event. -/
theorem readyFirst_of_same {s s' : World W} (h : ReadyFirst s) (hstage : s'.stage = s.stage)
    (hd : s.dispatched = true → s'.dispatched = true) : ReadyFirst s' := by
  intro key hok
  rw [hstage] at hok
  exact hd (h key hok)

theorem readyFirst_step {s s' : World W} {a : Label W} (hi : ConnectInv s) (h : ReadyFirst s)
    (hok : OnlyWoken s a) (hs : next s a = some s') : ReadyFirst s' := by
  cases next_spec hs with
  | @opened w answers _ => exact readyFirst_opened s w answers
  | @resumed w answers key f _ hst hpoll =>
      rw [hi.polled_waiting hst] at hpoll
      obtain rfl := Option.some.inj hpoll
      -- the poll follows the wake, and the waker was taken for an event
      have hwoken : s.notified = true := hok (by rw [hst]; rfl)
      exact (readyFirst_afterReady s key answers).mpr (.inl (hi.woken hwoken))
  | settle => exact readyFirst_of_same h rfl id
  | dispatch =>
      refine readyFirst_of_same h rfl ?_
      intro hd
      show (s.dispatched || _) = true
      rw [hd, Bool.true_or]
  | other => exact readyFirst_of_same h rfl id

/--
**`connect` reports success after readiness if only the reactor has it polled again.**

In every run in which a parked `connect` is polled again only once its waker has
been taken to be woken, `Ok` comes after a dispatched event for the stream. In any
run at all, the poll that resolves a parked `connect` keeps that order exactly if
such an event has been dispatched or the poll reads an error.
-/
theorem connect_ready_first :
    (∀ s, (system W).ReachableVia OnlyWoken s → ReadyFirst s)
    ∧ ∀ s s' key f w answers, (system W).Reachable s → s.stage = .waiting key f →
        (system W).step s (.poll w answers) = some s' →
        (ReadyFirst s'
          ↔ s.dispatched = true ∨ ¬ (answers.getsockopt = true ∧ s.attempt.soError = 0)) := by
  refine ⟨?_, ?_⟩
  · intro s h
    have hboth : ConnectInv s ∧ ReadyFirst s := by
      refine h.invariant (I := fun s => ConnectInv s ∧ ReadyFirst s) ?_ ?_
      · rintro _ rfl
        exact ⟨connectInv_start, fun key hok => absurd hok (by simp [start])⟩
      · rintro s a s' ⟨hi, hr⟩ hok hs
        exact ⟨connectInv_step hi hs, readyFirst_step hi hr hok hs⟩
    exact hboth.2
  · intro s s' key f w answers hreach hst hs
    have hs' : polled s w answers = some s' := hs
    rw [(connectInv_reachable hreach).polled_waiting hst] at hs'
    obtain rfl := Option.some.inj hs'
    exact readyFirst_afterReady s key answers

def inProgress : Answers where
  connect := .inProgress
  add := true
  getsockopt := true
  delete := true

def writable : Event where
  token := 1
  ready := { readable := false, writable := true, error := false, hangup := false }
  source := 0

/-- The handshake completes, the reactor reports it and the task is polled. -/
def handshake : List (Label Nat) :=
  [.poll 7 inProgress, .settle .established, .dispatch [writable], .poll 7 inProgress]

theorem connect_ready_first_handshake :
    ((system Nat).exec start handshake).stage = .ok 0 true
    ∧ ReadyFirst ((system Nat).exec start handshake) :=
  ⟨by decide +kernel, connect_ready_first.1 _ (System.ReachableVia.exec (.init rfl) (by decide +kernel))⟩

/-- The timer of an enclosing `timeout` fires before the handshake completes. -/
def spuriousPoll : List (Label Nat) := [.poll 7 inProgress, .poll 7 inProgress]

theorem connect_before_ready : ∃ s, (system Nat).Reachable s ∧ ¬ ReadyFirst s := by
  refine ⟨(system Nat).exec start spuriousPoll, System.Reachable.exec (.init rfl), ?_⟩
  intro h
  have hdisp := h 0 (by decide +kernel)
  exact absurd hdisp (by decide +kernel)

end Connect

end Nanorun.Net
