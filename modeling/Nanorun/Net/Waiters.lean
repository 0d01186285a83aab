import Nanorun.Lib.Transition
import Nanorun.Net.Tcp

/-!
# Waiting for the same socket

Any number of tasks call `accept`, `read` and `write` on shared sockets. A call
that would block parks: its `ReadyFor` stores the waker of the task that polled it
in the slot of the socket, one per direction. The next event on that direction
takes the waker and wakes the task.

`set_waker` replaces what is there. A second task that parks on the same socket and
direction pushes the first one out, which is then pending with nobody to wake it.
Nothing else loses a waiter.

A waker is named by its task. A dispatch takes wakers under the lock and wakes them
after it; the two are one step here, since between them the wakers are in no slot
and their tasks are as good as woken.
-/

namespace Nanorun.Net

open Reactor Transition

namespace Waiters

/-- A call whose last poll returned `Pending`. -/
structure Waiting where
  call : Nat
  /-- The task that polled it. -/
  task : Nat
  socket : Nat
  future : ReadyFor
  /-- The task has been woken since. -/
  woken : Bool
  deriving DecidableEq, Repr

structure World where
  slots : Slab (Slot Nat)
  /-- The key of each live socket. -/
  sockets : Nat → Option Nat
  nextSocket : Nat
  waiting : List Waiting

inductive Label where
  | register
  /-- A task polls a call on a socket; the system call may answer `WouldBlock`. -/
  | poll (call task socket : Nat) (d : Direction) (blocks : Bool)
  /-- A call is dropped before it is done. -/
  | cancel (call : Nat)
  | dispatch (events : List Event)
  /-- A task is woken for any other reason. -/
  | wake (task : Nat)
  /-- A socket that no call borrows is dropped. -/
  | drop (socket : Nat)
  deriving DecidableEq, Repr

def Waiting.wake (tasks : List Nat) (w : Waiting) : Waiting :=
  if w.task ∈ tasks then { w with woken := true } else w

/-- The record that a poll leaves. -/
def parked (call task socket : Nat) : Option ReadyFor → List Waiting
  | some f => [{ call := call, task := task, socket := socket, future := f, woken := false }]
  | none => []

/-- A call polls on the socket of `key`. -/
def polled (s : World) (call task socket key : Nat) (d : Direction) (blocks : Bool) : World :=
  let awaiting := (s.waiting.find? fun w => w.call = call).map Waiting.future
  let r := ioPoll (key + 1) d awaiting blocks s.slots task
  { s with
    slots := r.slots
    waiting := parked call task socket r.future ++ s.waiting.filter fun w => w.call ≠ call }

def next (s : World) : Label → Option World
  | .register =>
      some { s with
        slots := s.slots.insert (Slot.new s.nextSocket)
        sockets := Function.update s.sockets s.nextSocket (some s.slots.nextKey)
        nextSocket := s.nextSocket + 1 }
  | .poll call task socket d blocks =>
      match s.sockets socket with
      | some key =>
          -- a call keeps to its socket and its direction
          if ∀ w ∈ s.waiting, w.call = call → w.socket = socket ∧ w.future.dir = d then
            some (polled s call task socket key d blocks)
          else none
      | none => none
  | .cancel call => some { s with waiting := s.waiting.filter fun w => w.call ≠ call }
  | .dispatch events =>
      let r := dispatch s.slots events
      some { s with
        slots := r.1
        waiting := s.waiting.map (Waiting.wake (r.2.map Taken.waker)) }
  | .wake task => some { s with waiting := s.waiting.map (Waiting.wake [task]) }
  | .drop socket =>
      match s.sockets socket with
      | some key =>
          if ∀ w ∈ s.waiting, w.socket ≠ socket then
            some { s with
              slots := s.slots.remove key
              sockets := Function.update s.sockets socket none }
          else none
      | none => none

def start : World where
  slots := Slab.new
  sockets _ := none
  nextSocket := 0
  waiting := []

def system : System World Label where
  init s := s = start
  step := next

/-- The waiter's waker is in the slot of its socket and direction. -/
def Stored (s : World) (w : Waiting) : Prop :=
  ∃ key, s.sockets w.socket = some key ∧ wakerAt s.slots key w.future.dir = some w.task

/-- Every pending call that has not been woken can be. -/
def NoneLost (s : World) : Prop := ∀ w ∈ s.waiting, w.woken = false → Stored s w

/-- A call parks only where no other task is waiting. -/
def Alone (s : World) : Label → Prop
  | .poll call task socket d true =>
      ∀ w ∈ s.waiting, w.call ≠ call → w.socket = socket → w.future.dir = d → w.woken = false →
        w.task = task
  | _ => True

/-! ## What a step can do -/

inductive StepTo (s : World) : Label → World → Prop where
  | register :
      StepTo s .register
        { s with
          slots := s.slots.insert (Slot.new s.nextSocket)
          sockets := Function.update s.sockets s.nextSocket (some s.slots.nextKey)
          nextSocket := s.nextSocket + 1 }
  /-- A call keeps to its socket and its direction. -/
  | poll {call task socket key : Nat} {d : Direction} {blocks : Bool} :
      s.sockets socket = some key →
      (∀ w ∈ s.waiting, w.call = call → w.socket = socket ∧ w.future.dir = d) →
      StepTo s (.poll call task socket d blocks) (polled s call task socket key d blocks)
  | cancel {call : Nat} :
      StepTo s (.cancel call) { s with waiting := s.waiting.filter fun w => w.call ≠ call }
  | dispatch {events : List Event} :
      StepTo s (.dispatch events)
        { s with
          slots := (Reactor.dispatch s.slots events).1
          waiting := s.waiting.map
            (Waiting.wake ((Reactor.dispatch s.slots events).2.map Taken.waker)) }
  | wake {task : Nat} :
      StepTo s (.wake task) { s with waiting := s.waiting.map (Waiting.wake [task]) }
  | drop {socket key : Nat} : s.sockets socket = some key →
      (∀ w ∈ s.waiting, w.socket ≠ socket) →
      StepTo s (.drop socket)
        { s with
          slots := s.slots.remove key
          sockets := Function.update s.sockets socket none }

theorem next_spec {s s' : World} {a : Label} (hs : next s a = some s') : StepTo s a s' := by
  cases a with
  | register =>
      obtain rfl := Option.some.inj hs
      exact .register
  | poll call task socket d blocks =>
      simp only [next] at hs
      split at hs
      · rename_i key hkey
        split at hs
        · rename_i hcall
          obtain rfl := Option.some.inj hs
          exact .poll hkey hcall
        · exact absurd hs (by simp)
      · exact absurd hs (by simp)
  | cancel call =>
      obtain rfl := Option.some.inj hs
      exact .cancel
  | dispatch events =>
      obtain rfl := Option.some.inj hs
      exact .dispatch
  | wake task =>
      obtain rfl := Option.some.inj hs
      exact .wake
  | drop socket =>
      simp only [next] at hs
      split at hs
      · rename_i key hkey
        split at hs
        · rename_i hfree
          obtain rfl := Option.some.inj hs
          exact .drop hkey hfree
        · exact absurd hs (by simp)
      · exact absurd hs (by simp)

/-! ## Sockets and their slots -/

/-- The sockets and the calls on them. -/
structure SockInv (s : World) : Prop where
  /-- A socket has its slot. -/
  slot : ∀ i key, s.sockets i = some key → Owns s.slots i key
  fresh : ∀ i, s.nextSocket ≤ i → s.sockets i = none
  /-- A parked call has polled its `ReadyFor`. -/
  parked : ∀ w ∈ s.waiting, w.future.polled = true

theorem sockInv_start : SockInv start where
  slot := by intro i key h; exact absurd h (by simp [start])
  fresh _ _ := rfl
  parked := by intro w hw; exact absurd hw List.not_mem_nil

/-- Two sockets do not share a key. -/
theorem SockInv.key_unique {s : World} (h : SockInv s) {i j key : Nat} (hi : s.sockets i = some key)
    (hj : s.sockets j = some key) : i = j :=
  (h.slot i key hi).unique (h.slot j key hj)

/-- A call that would block stores its waker and waits; one that would not leaves. -/
theorem SockInv.polled_eq {s : World} (h : SockInv s) (call task socket key : Nat) (d : Direction)
    (blocks : Bool) :
    polled s call task socket key d blocks =
      if blocks then
        { s with
          slots := setWaker s.slots (key + 1) d task
          waiting := { call := call, task := task, socket := socket, future := ⟨key + 1, d, true⟩,
                       woken := false } :: s.waiting.filter fun w => w.call ≠ call }
      else { s with waiting := s.waiting.filter fun w => w.call ≠ call } := by
  have hloop : ioPoll (key + 1) d ((s.waiting.find? fun w => w.call = call).map Waiting.future)
      blocks s.slots task = ioLoop (key + 1) d blocks s.slots task := by
    cases hf : s.waiting.find? fun w => w.call = call with
    | none => rfl
    | some w => exact ioPoll_parked (h.parked w (List.mem_of_find?_eq_some hf)) blocks s.slots task
  unfold polled
  simp only [hloop]
  cases blocks <;> rfl

theorem mem_wake {tasks : List Nat} {ws : List Waiting} {w : Waiting}
    (h : w ∈ ws.map (Waiting.wake tasks)) :
    ∃ v ∈ ws, w.future = v.future ∧ w.socket = v.socket ∧ w.task = v.task
      ∧ (w.woken = false → v.woken = false ∧ v.task ∉ tasks) := by
  obtain ⟨v, hv, rfl⟩ := List.mem_map.mp h
  refine ⟨v, hv, ?_⟩
  unfold Waiting.wake
  split
  · exact ⟨rfl, rfl, rfl, fun hw => absurd hw (by simp)⟩
  · rename_i hnot
    exact ⟨rfl, rfl, rfl, fun hw => ⟨hw, hnot⟩⟩

/-- The same sockets and owners, and waiters among the old ones. -/
theorem SockInv.waiting {s : World} (h : SockInv s) {slots : Slab (Slot Nat)} {ws : List Waiting}
    (hsame : SameOwners s.slots slots) (hws : ∀ w ∈ ws, w.future.polled = true) :
    SockInv { s with slots := slots, waiting := ws } :=
  ⟨fun i key hi => (Owns.congr hsame).mpr (h.slot i key hi), h.fresh, hws⟩

theorem sockInv_step {s s' : World} {a : Label} (h : SockInv s) (hs : next s a = some s') :
    SockInv s' := by
  have hfilter : ∀ call, ∀ w ∈ s.waiting.filter (fun w => w.call ≠ call), w.future.polled = true :=
    fun call w hw => h.parked w (List.mem_filter.mp hw).1
  have hwake : ∀ tasks, ∀ w ∈ s.waiting.map (Waiting.wake tasks), w.future.polled = true := by
    intro tasks w hw
    obtain ⟨v, hv, hfut, _⟩ := mem_wake hw
    rw [hfut]
    exact h.parked v hv
  have hrefl : SameOwners s.slots s.slots := fun _ => rfl
  cases next_spec hs with
  | register =>
      refine ⟨?_, ?_, h.parked⟩
      · intro i key hi
        by_cases heq : i = s.nextSocket
        · subst heq
          simp only [Function.update_self, Option.some.injEq] at hi
          subst hi
          exact Owns.inserted s.slots _
        · simp only [Function.update_of_ne heq] at hi
          exact (h.slot i key hi).insert _
      · intro i hi
        have hi' : s.nextSocket + 1 ≤ i := hi
        have hne : i ≠ s.nextSocket := by omega
        simp only [Function.update_of_ne hne]
        exact h.fresh i (by omega)
  | @poll call task socket key d blocks hkey _ =>
      rw [h.polled_eq]
      split
      · refine h.waiting (setWaker_owners _ _ _ _) ?_
        intro w hw
        rcases List.mem_cons.mp hw with rfl | hw
        · rfl
        · exact hfilter call w hw
      · exact h.waiting hrefl (hfilter call)
  | @cancel call => exact h.waiting hrefl (hfilter call)
  | dispatch => exact h.waiting (dispatch_owners _ _) (hwake _)
  | wake => exact h.waiting hrefl (hwake _)
  | @drop socket key hkey _ =>
      refine ⟨?_, ?_, h.parked⟩
      · intro i k hi
        by_cases heq : i = socket
        · subst heq
          simp only [Function.update_self] at hi
          exact absurd hi (by simp)
        · simp only [Function.update_of_ne heq] at hi
          -- the key that goes is no other socket's
          refine (h.slot i k hi).remove ?_
          rintro rfl
          exact heq (h.key_unique hi hkey)
      · intro i hi
        by_cases heq : i = socket
        · subst heq; exact Function.update_self ..
        · simp only [Function.update_of_ne heq]
          exact h.fresh i hi

theorem sockInv_reachable {s : World} (h : system.Reachable s) : SockInv s :=
  h.invariant (I := SockInv) (by rintro _ rfl; exact sockInv_start)
    (fun _ _ _ hi hs => sockInv_step hi hs)

/-! ## Who is lost -/

/-- A call that parks where nobody else waits leaves every waiter's waker in place. -/
theorem NoneLost.parks {s : World} (h : NoneLost s) (hi : SockInv s)
    {call task socket key : Nat} {d : Direction} (hkey : s.sockets socket = some key)
    (hok : Alone s (.poll call task socket d true)) :
    NoneLost (polled s call task socket key d true) := by
  have hslot : (s.slots.get key).map (fun _ => task) = some task := by
    obtain ⟨slot, hslot, _⟩ := Option.map_eq_some_iff.mp (hi.slot socket key hkey)
    rw [hslot]
    rfl
  rw [hi.polled_eq, if_pos rfl]
  intro w hw hunwoken
  rcases List.mem_cons.mp hw with rfl | hw
  · refine ⟨key, hkey, ?_⟩
    show wakerAt (setWaker s.slots (key + 1) d task) key d = some task
    rw [wakerAt_setWaker, if_pos ⟨rfl, rfl⟩]
    exact hslot
  · obtain ⟨hmem, hcall⟩ := List.mem_filter.mp hw
    obtain ⟨k, hk, hstored⟩ := h w hmem hunwoken
    refine ⟨k, hk, ?_⟩
    show wakerAt (setWaker s.slots (key + 1) d task) k w.future.dir = some w.task
    rw [wakerAt_setWaker]
    split
    · rename_i hsame
      -- the same socket and direction, so the same task
      obtain ⟨rfl, hdir⟩ := hsame
      have htask := hok w hmem (by simpa using hcall) (hi.key_unique hk hkey) hdir hunwoken
      rw [htask]
      exact hslot
    · exact hstored

theorem NoneLost.dispatched {s : World} (h : NoneLost s) (events : List Event) :
    NoneLost { s with
      slots := (dispatch s.slots events).1
      waiting := s.waiting.map (Waiting.wake ((dispatch s.slots events).2.map Taken.waker)) } := by
  intro w hw hunwoken
  obtain ⟨v, hv, hfut, hsock, htask, hold⟩ := mem_wake hw
  obtain ⟨hvw, hnot⟩ := hold hunwoken
  obtain ⟨key, hkey, hstored⟩ := h v hv hvw
  refine ⟨key, by rw [hsock]; exact hkey, ?_⟩
  rw [hfut, htask]
  rcases dispatch_keeps s.slots events hstored with hkeep | ⟨t, ht, heq⟩
  · exact hkeep
  · -- a waker that was taken has been woken
    exact absurd (List.mem_map.mpr ⟨t, ht, heq⟩) hnot

theorem noneLost_step {s s' : World} {a : Label} (hi : SockInv s) (h : NoneLost s)
    (hok : Alone s a) (hs : next s a = some s') : NoneLost s' := by
  cases next_spec hs with
  | register =>
      intro w hw hunwoken
      obtain ⟨key, hkey, hstored⟩ := h w hw hunwoken
      -- the new socket has no waiters yet
      have hne : w.socket ≠ s.nextSocket := by
        intro heq
        rw [heq, hi.fresh _ (Nat.le_refl _)] at hkey
        exact absurd hkey (by simp)
      refine ⟨key, ?_, wakerAt_insert s.slots _ hstored⟩
      simp only [Function.update_of_ne hne]
      exact hkey
  | @poll call task socket key d blocks hkey _ =>
      cases blocks with
      | true => exact h.parks hi hkey hok
      | false =>
          rw [hi.polled_eq, if_neg (by simp)]
          exact fun w hw => h w (List.mem_filter.mp hw).1
  | cancel => exact fun w hw => h w (List.mem_filter.mp hw).1
  | @dispatch events => exact h.dispatched events
  | wake =>
      intro w hw hunwoken
      obtain ⟨v, hv, hfut, hsock, htask, hold⟩ := mem_wake hw
      obtain ⟨key, hkey, hstored⟩ := h v hv (hold hunwoken).1
      exact ⟨key, by rw [hsock]; exact hkey, by rw [hfut, htask]; exact hstored⟩
  | @drop socket key hkey hfree =>
      intro w hw hunwoken
      obtain ⟨k, hk, hstored⟩ := h w hw hunwoken
      have hne := hfree w hw
      refine ⟨k, ?_, ?_⟩
      · simp only [Function.update_of_ne hne]
        exact hk
      · show wakerAt (s.slots.remove key) k w.future.dir = some w.task
        rw [wakerAt_remove]
        · exact hstored
        · rintro rfl
          exact hne (hi.key_unique hk hkey)

/-- A call that parks where another task is waiting loses that task. -/
theorem lost_of_crowded {s s' : World} {a : Label} (hi : SockInv s) (hs : next s a = some s')
    (hcrowd : ¬ Alone s a) : ¬ NoneLost s' := by
  cases next_spec hs with
  | @poll call task socket key d blocks hkey _ =>
      cases blocks with
      | false => exact absurd trivial hcrowd
      | true =>
          simp only [Alone, not_forall] at hcrowd
          obtain ⟨w, hw, hcall, hsock, hdir, hunwoken, htask⟩ := hcrowd
          intro hnone
          rw [hi.polled_eq, if_pos rfl] at hnone
          have hmem : w ∈ s.waiting.filter fun w => w.call ≠ call :=
            List.mem_filter.mpr ⟨hw, by simpa using hcall⟩
          obtain ⟨k, hk, hstored⟩ := hnone w (List.mem_cons_of_mem _ hmem) hunwoken
          have hk' : s.sockets w.socket = some k := hk
          -- its slot is the one that was just written
          obtain rfl : k = key := by
            rw [hsock, hkey] at hk'
            exact (Option.some.inj hk').symm
          have hstored' : wakerAt (setWaker s.slots (k + 1) d task) k w.future.dir
              = some w.task := hstored
          rw [wakerAt_setWaker, if_pos ⟨rfl, hdir⟩] at hstored'
          obtain ⟨_, _, heq⟩ := Option.map_eq_some_iff.mp hstored'
          exact htask heq.symm
  | _ => exact absurd trivial hcrowd

/--
**No waiter is lost, as long as tasks do not wait for the same socket and direction.**

In every run in which a call parks only where no other task is waiting, every
pending call that has not been woken has its waker in the slot of its socket and
direction. In any reachable state where that is so, a step keeps it exactly if it
meets this condition.
-/
theorem no_waiter_lost (s : World) :
    (system.ReachableVia Alone s → NoneLost s)
    ∧ ∀ a s', system.Reachable s → NoneLost s → system.step s a = some s' →
        (NoneLost s' ↔ Alone s a) := by
  refine ⟨?_, ?_⟩
  · intro h
    have hboth : SockInv s ∧ NoneLost s := by
      refine h.invariant (I := fun s => SockInv s ∧ NoneLost s) ?_ ?_
      · rintro _ rfl
        exact ⟨sockInv_start, fun w hw => absurd hw List.not_mem_nil⟩
      · rintro s a s' ⟨hi, hn⟩ hok hs
        exact ⟨sockInv_step hi hs, noneLost_step hi hn hok hs⟩
    exact hboth.2
  · intro a s' hreach hnone hs
    have hi := sockInv_reachable hreach
    refine ⟨?_, fun hok => noneLost_step hi hnone hok hs⟩
    intro hkeep
    by_contra hcrowd
    exact lost_of_crowded hi hs hcrowd hkeep

instance decidableAlone (s : World) : ∀ a : Label, Decidable (Alone s a)
  | .poll _ _ _ _ true => inferInstanceAs (Decidable (∀ w ∈ s.waiting, _))
  | .poll _ _ _ _ false | .register | .cancel _ | .dispatch _ | .wake _ | .drop _ => .isTrue trivial

/-- One task reads and another writes the same socket. -/
def bothWays : List Label :=
  [.register, .poll 0 10 0 .read true, .poll 1 11 0 .write true]

theorem no_waiter_lost_bothWays : NoneLost (system.exec start bothWays) :=
  (no_waiter_lost _).1 (System.ReachableVia.exec (.init rfl) (by decide +kernel))

/-- Two tasks accept on the same listener. -/
def twoAccepts : List Label :=
  [.register, .poll 0 10 0 .read true, .poll 1 11 0 .read true]

theorem waiter_lost : ∃ s, system.Reachable s ∧ ¬ NoneLost s := by
  have hreach : system.Reachable (system.exec start (twoAccepts.take 2)) :=
    System.Reachable.exec (.init rfl)
  refine ⟨system.exec start twoAccepts, System.Reachable.exec (.init rfl), ?_⟩
  exact lost_of_crowded (a := .poll 1 11 0 .read true) (sockInv_reachable hreach) rfl
    (by decide +kernel)

end Waiters

end Nanorun.Net
