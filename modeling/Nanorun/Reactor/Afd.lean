import Nanorun.Lib.Transition
import Nanorun.Reactor.Books

/-!
# AFD-poll requests and their buffers

Any number of threads register, set wakers and deregister, with any token, while one
poller goes through the four phases of `Inner::poll` and the kernel completes
requests whenever it likes. Everything but the kernel, `iocp::wait` and the firing
of wakers runs under the slab's lock; `register` is split at `afd::submit`, since
from there on the request can complete and even be dequeued before the slot has its
box.

The kernel is what the module assumes: an accepted request completes once, with the
address it was given, and a failed one not at all. A cancelled request completes
like any other, so `deregister` asks nothing more of it.
-/

namespace Nanorun.Reactor.Windows

open Transition

variable {W : Type}

/-- Where the poller is in `Inner::poll`. Phases 1 and 3 hold the lock. -/
inductive Poller (W : Type) where
  | idle
  | waited (entries : List (Option Nat))
  | dispatching (entries : List (Option Nat)) (toWake : List W) (toResubmit : List Nat)
  | firing (toWake : List W) (toResubmit : List Nat)
  | resubmitting (toResubmit : List Nat) (failedWakers : List W)
  | firingFailed (failedWakers : List W)
  deriving DecidableEq, Repr

namespace Poller

def locked : Poller W → Bool
  | .dispatching _ _ _ | .resubmitting _ _ => true
  | _ => false

/-- The completions it has dequeued and not dispatched yet. -/
def entries : Poller W → List (Option Nat)
  | .waited es | .dispatching es _ _ => es
  | _ => []

def toResubmit : Poller W → List Nat
  | .dispatching _ _ ks | .firing _ ks | .resubmitting ks _ => ks
  | _ => []

/-- The completion that its next step dispatches. -/
def nextEntry : Poller W → Option Nat
  | .dispatching (some p :: _) _ _ => some p
  | _ => none

/-- The key that its next step re-submits. -/
def nextResubmit : Poller W → Option Nat
  | .resubmitting (key :: _) _ => some key
  | _ => none

theorem of_nextEntry {po : Poller W} {p : Nat} (h : po.nextEntry = some p) :
    ∃ es ws ks, po = .dispatching (some p :: es) ws ks := by
  unfold nextEntry at h
  split at h
  · obtain rfl := Option.some.inj h
    exact ⟨_, _, _, rfl⟩
  · exact absurd h (by simp)

theorem of_nextResubmit {po : Poller W} {key : Nat} (h : po.nextResubmit = some key) :
    ∃ ks fs, po = .resubmitting (key :: ks) fs := by
  unfold nextResubmit at h
  split at h
  · obtain rfl := Option.some.inj h
    exact ⟨_, _, rfl⟩
  · exact absurd h (by simp)

end Poller

structure World (W : Type) where
  mem : Memory W
  nextPtr : Nat
  inFlight : List Nat
  /-- The completion port; `none` is a self-wake post. -/
  queued : List (Option Nat)
  poller : Poller W
  opening : Option Opening

inductive Label (W : Type) where
  /-- `register` up to `afd::submit`, its answer, and the rest. -/
  | register (interest : Interest)
  | submit (accepted : Bool)
  | store
  | setWaker (token : Nat) (d : Direction) (waker : W)
  | deregister (token : Nat)
  /-- The kernel completes a request. -/
  | complete (ptr : Nat) (events : UInt32)
  | post
  | wait (n : Nat)
  /-- The poller's next step; `accepted` answers its `afd::submit`. -/
  | poll (accepted : Bool)
  deriving DecidableEq, Repr

def MAX_ENTRIES_PER_WAIT : Nat := 64

namespace World

def unlocked (s : World W) : Bool := s.opening.isNone && !s.poller.locked

/-- `register` with the lock taken: a slot, and a box for its request. -/
def register (s : World W) (interest : Interest) : World W :=
  let key := s.mem.slots.nextKey
  let state : WindowsSlotState :=
    { slabKey := key, requestedEvents := interest.events, events := interest.events }
  { s with
    mem := { s.mem with
      slots := s.mem.slots.insert (Slot.new s.nextPtr)
      boxes := Function.update s.mem.boxes s.nextPtr (some state) }
    nextPtr := s.nextPtr + 1
    opening := some { key := key, ptr := s.nextPtr, submitted := false } }

/-- The slot of a `register` whose submission failed, and its box. -/
def abandon (s : World W) (o : Opening) : World W :=
  { s with
    mem :=
      { slots := s.mem.slots.remove o.key
        boxes := Function.update s.mem.boxes o.ptr none
        dropped := o.ptr :: s.mem.dropped }
    opening := none }

def store (s : World W) (o : Opening) : World W :=
  { s with
    mem := { s.mem with
      slots := s.mem.slots.modify o.key fun slot => { slot with windows := some o.ptr } }
    opening := none }

/-- The kernel writes the events into the buffer and queues the completion. -/
def complete (s : World W) (p : Nat) (events : UInt32) (state : WindowsSlotState) : World W :=
  { s with
    mem := { s.mem with boxes := Function.update s.mem.boxes p (some { state with events := events }) }
    inFlight := s.inFlight.erase p
    queued := s.queued ++ [some p] }

/-- One step of `Inner::poll` after the wait. -/
def poll (s : World W) (accepted : Bool) : Option (World W) :=
  match s.poller with
  | .idle => none
  | .waited es =>
      if s.opening.isNone then some { s with poller := .dispatching es [] [] } else none
  | .dispatching (e :: es) ws ks =>
      (s.mem.dispatchEntry e).map fun r =>
        { s with
          mem := r.memory
          poller := .dispatching es (ws ++ r.toWake) (ks ++ r.toResubmit) }
  | .dispatching [] ws ks => some { s with poller := .firing ws ks }
  | .firing (_ :: ws) ks => some { s with poller := .firing ws ks }
  -- between firing and re-submitting the lock is free, so anyone may deregister
  | .firing [] ks =>
      if s.opening.isNone then some { s with poller := .resubmitting ks [] } else none
  | .resubmitting (key :: ks) fs =>
      (s.mem.resubmitOne key accepted).map fun r =>
        { s with
          mem := r.memory
          inFlight := r.submitted.toList ++ s.inFlight
          poller := .resubmitting ks (fs ++ r.failedWakers) }
  | .resubmitting [] fs => some { s with poller := .firingFailed fs }
  | .firingFailed (_ :: fs) => some { s with poller := .firingFailed fs }
  | .firingFailed [] => some { s with poller := .idle }

end World

def next (s : World W) : Label W → Option (World W)
  | .register interest => if s.unlocked then some (s.register interest) else none
  -- the lock is held from here to `store`, but the kernel may complete in between
  | .submit accepted =>
      match s.opening with
      | some o =>
          if o.submitted then none
          else if accepted then
            some { s with
              inFlight := o.ptr :: s.inFlight
              opening := some { o with submitted := true } }
          else some (s.abandon o)
      | none => none
  | .store =>
      match s.opening with
      | some o => if o.submitted then some (s.store o) else none
      | none => none
  | .setWaker token d waker =>
      if s.unlocked then some { s with mem := s.mem.setWaker token d waker } else none
  | .deregister token =>
      if s.unlocked then some { s with mem := s.mem.deregister token } else none
  | .complete p events =>
      -- a dangling address would be written through here
      if p ∈ s.inFlight then (s.mem.boxes p).map (s.complete p events) else none
  | .post => some { s with queued := s.queued ++ [none] }
  | .wait n =>
      match s.poller with
      | .idle =>
          if n ≤ MAX_ENTRIES_PER_WAIT ∧ n ≤ s.queued.length then
            some { s with
              queued := s.queued.drop n
              poller := if n = 0 then .idle else .waited (s.queued.take n) }
          else none
      | _ => none
  | .poll accepted => s.poll accepted

def start : World W where
  mem := { slots := Slab.new, boxes := fun _ => none, dropped := [] }
  nextPtr := 0
  inFlight := []
  queued := []
  poller := .idle
  opening := none

def system (W : Type) : System (World W) (Label W) where
  init s := s = start
  step := next

namespace World

/-- The completions with address `p`, on the port or dequeued. -/
def completions (s : World W) (p : Nat) : Nat :=
  s.queued.count (some p) + s.poller.entries.count (some p)

/-- How often the kernel or a completion refers to the box at `p`. -/
def refs (s : World W) (p : Nat) : Nat := s.inFlight.count p + s.completions p

def resubmits (s : World W) (key : Nat) : Nat := s.poller.toResubmit.count key

end World

/-! ## What a step can do -/

/-- The lock is free: nobody registers. -/
theorem World.opening_of_unlocked {s : World W} (h : s.unlocked = true) :
    s.opening = none ∧ s.poller.locked = false := by
  simp only [World.unlocked, Bool.and_eq_true, Bool.not_eq_true', Option.isNone_iff_eq_none] at h
  exact h

inductive StepTo (s : World W) : Label W → World W → Prop where
  | register {interest : Interest} : s.opening = none → s.poller.locked = false →
      StepTo s (.register interest) (s.register interest)
  | submit {o : Opening} : s.opening = some o → o.submitted = false →
      StepTo s (.submit true)
        { s with inFlight := o.ptr :: s.inFlight, opening := some { o with submitted := true } }
  | abandon {o : Opening} : s.opening = some o → o.submitted = false →
      StepTo s (.submit false) (s.abandon o)
  | store {o : Opening} : s.opening = some o → o.submitted = true → StepTo s .store (s.store o)
  | setWaker {token : Nat} {d : Direction} {w : W} :
      StepTo s (.setWaker token d w) { s with mem := s.mem.setWaker token d w }
  | deregister {token : Nat} :
      StepTo s (.deregister token) { s with mem := s.mem.deregister token }
  | complete {p : Nat} {events : UInt32} {state : WindowsSlotState} : p ∈ s.inFlight →
      s.mem.boxes p = some state → StepTo s (.complete p events) (s.complete p events state)
  | post : StepTo s .post { s with queued := s.queued ++ [none] }
  | wait {n : Nat} : s.poller = .idle →
      StepTo s (.wait n)
        { s with
          queued := s.queued.drop n
          poller := if n = 0 then .idle else .waited (s.queued.take n) }
  /-- The poller goes on with the same lists; it takes the lock only when it is free. -/
  | goto {accepted : Bool} {po po' : Poller W} : s.poller = po → po'.entries = po.entries →
      po'.toResubmit = po.toResubmit → (po'.locked = true → s.opening = none) →
      StepTo s (.poll accepted) { s with poller := po' }
  /-- A turn of phase 1. -/
  | dispatch {accepted : Bool} {e : Option Nat} {es : List (Option Nat)} {ws : List W}
      {ks : List Nat} {r : Memory.Dispatched W} :
      s.poller = .dispatching (e :: es) ws ks → s.mem.dispatchEntry e = some r →
      StepTo s (.poll accepted)
        { s with
          mem := r.memory
          poller := .dispatching es (ws ++ r.toWake) (ks ++ r.toResubmit) }
  /-- A turn of phase 3. -/
  | resubmit {accepted : Bool} {key : Nat} {ks : List Nat} {fs : List W}
      {r : Memory.Resubmitted W} :
      s.poller = .resubmitting (key :: ks) fs → s.mem.resubmitOne key accepted = some r →
      StepTo s (.poll accepted)
        { s with
          mem := r.memory
          inFlight := r.submitted.toList ++ s.inFlight
          poller := .resubmitting ks (fs ++ r.failedWakers) }

theorem poll_spec {s s' : World W} {accepted : Bool} (hs : s.poll accepted = some s') :
    StepTo s (.poll accepted) s' := by
  unfold World.poll at hs
  split at hs
  · exact absurd hs (by simp)
  · rename_i es hp
    split at hs
    · rename_i hfree
      obtain rfl := Option.some.inj hs
      exact .goto hp rfl rfl (fun _ => Option.isNone_iff_eq_none.mp hfree)
    · exact absurd hs (by simp)
  · rename_i e es ws ks hp
    obtain ⟨r, hr, rfl⟩ := Option.map_eq_some_iff.mp hs
    exact .dispatch hp hr
  · rename_i ws ks hp
    obtain rfl := Option.some.inj hs
    exact .goto hp rfl rfl (fun hl => absurd hl (by simp [Poller.locked]))
  · rename_i w ws ks hp
    obtain rfl := Option.some.inj hs
    exact .goto hp rfl rfl (fun hl => absurd hl (by simp [Poller.locked]))
  · rename_i ks hp
    split at hs
    · rename_i hfree
      obtain rfl := Option.some.inj hs
      exact .goto hp rfl rfl (fun _ => Option.isNone_iff_eq_none.mp hfree)
    · exact absurd hs (by simp)
  · rename_i key ks fs hp
    obtain ⟨r, hr, rfl⟩ := Option.map_eq_some_iff.mp hs
    exact .resubmit hp hr
  · rename_i fs hp
    obtain rfl := Option.some.inj hs
    exact .goto hp rfl rfl (fun hl => absurd hl (by simp [Poller.locked]))
  · rename_i w fs hp
    obtain rfl := Option.some.inj hs
    exact .goto hp rfl rfl (fun hl => absurd hl (by simp [Poller.locked]))
  · rename_i hp
    obtain rfl := Option.some.inj hs
    exact .goto hp rfl rfl (fun hl => absurd hl (by simp [Poller.locked]))

theorem next_spec {s s' : World W} {a : Label W} (hs : next s a = some s') : StepTo s a s' := by
  cases a with
  | register interest =>
      simp only [next] at hs
      split at hs
      · rename_i hfree
        obtain rfl := Option.some.inj hs
        obtain ⟨hopen, hlock⟩ := World.opening_of_unlocked hfree
        exact .register hopen hlock
      · exact absurd hs (by simp)
  | submit accepted =>
      simp only [next] at hs
      split at hs
      · rename_i o hopen
        split at hs
        · exact absurd hs (by simp)
        · rename_i hsub
          cases accepted with
          | true =>
              obtain rfl := Option.some.inj hs
              exact .submit hopen (Bool.eq_false_iff.mpr hsub)
          | false =>
              obtain rfl := Option.some.inj hs
              exact .abandon hopen (Bool.eq_false_iff.mpr hsub)
      · exact absurd hs (by simp)
  | store =>
      simp only [next] at hs
      split at hs
      · rename_i o hopen
        split at hs
        · rename_i hsub
          obtain rfl := Option.some.inj hs
          exact .store hopen hsub
        · exact absurd hs (by simp)
      · exact absurd hs (by simp)
  | setWaker token d w =>
      simp only [next] at hs
      split at hs
      · obtain rfl := Option.some.inj hs
        exact .setWaker
      · exact absurd hs (by simp)
  | deregister token =>
      simp only [next] at hs
      split at hs
      · obtain rfl := Option.some.inj hs
        exact .deregister
      · exact absurd hs (by simp)
  | complete p events =>
      simp only [next] at hs
      split at hs
      · rename_i hmem
        obtain ⟨state, hstate, rfl⟩ := Option.map_eq_some_iff.mp hs
        exact .complete hmem hstate
      · exact absurd hs (by simp)
  | post =>
      obtain rfl := Option.some.inj hs
      exact .post
  | wait n =>
      simp only [next] at hs
      split at hs
      · rename_i hp
        split at hs
        · obtain rfl := Option.some.inj hs
          exact .wait hp
        · exact absurd hs (by simp)
      · exact absurd hs (by simp)
  | poll accepted => exact poll_spec hs

end Nanorun.Reactor.Windows
