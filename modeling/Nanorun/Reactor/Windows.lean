import Nanorun.Reactor.Linux

/-!
# The Windows reactor

`reactor/windows.rs`: a slab of slots behind a mutex, and one AFD-poll request per
slot. The request's buffer is a `WindowsSlotState` in a box that the slot owns; the
kernel is given its address and hands it back with the completion, and from there
the dispatch finds the slab key.

Boxes live in a memory indexed by address. An address is never handed out twice, so
a box that is dropped too early is a dangling address here, whatever the allocator
would have put in its place. The functions are the sections that run under the
slab's lock. They return `none` where the source would read through a dangling
pointer.
-/

namespace Nanorun.Reactor.Windows

/-! ## Events of `sys/windows/afd.rs` -/

def POLL_RECEIVE : UInt32 := 0x0001
def POLL_RECEIVE_EXPEDITED : UInt32 := 0x0002
def POLL_SEND : UInt32 := 0x0004
def POLL_DISCONNECT : UInt32 := 0x0008
def POLL_ABORT : UInt32 := 0x0010
def POLL_CONNECT : UInt32 := 0x0040
def POLL_ACCEPT : UInt32 := 0x0080
def POLL_CONNECT_FAIL : UInt32 := 0x0100

def READ_EVENTS : UInt32 :=
  POLL_RECEIVE ||| POLL_RECEIVE_EXPEDITED ||| POLL_DISCONNECT ||| POLL_ABORT ||| POLL_ACCEPT
    ||| POLL_CONNECT_FAIL

def WRITE_EVENTS : UInt32 := POLL_SEND ||| POLL_CONNECT ||| POLL_CONNECT_FAIL

structure Interest where
  read : Bool
  write : Bool
  deriving DecidableEq, Repr

/-- The mask that `register` asks for. -/
def Interest.events (i : Interest) : UInt32 :=
  (if i.read then READ_EVENTS else 0) ||| (if i.write then WRITE_EVENTS else 0)

/-- `events & READ_EVENTS != 0`, and the same for write. -/
def serves (events : UInt32) : Direction → Bool
  | .read => events &&& READ_EVENTS != 0
  | .write => events &&& WRITE_EVENTS != 0

/-! ## Slots and boxes -/

/-- What the reactor reads of a request's buffer. -/
structure WindowsSlotState where
  slabKey : Nat
  requestedEvents : UInt32
  /-- `info.handles[0].events`: the request's on submission, the kernel's on completion. -/
  events : UInt32
  deriving DecidableEq, Repr

structure Slot (W : Type) where
  read : Option W
  write : Option W
  /-- The address of the box. -/
  windows : Option Nat
  cancelled : Bool
  /-- The registration the slot was made for. -/
  owner : Nat
  deriving DecidableEq, Repr

variable {W : Type}

namespace Slot

/-- `Slot::default()` -/
def new (owner : Nat) : Slot W where
  read := none
  write := none
  windows := none
  cancelled := false
  owner := owner

def waker (s : Slot W) : Direction → Option W
  | .read => s.read
  | .write => s.write

def set (s : Slot W) (d : Direction) (w : Option W) : Slot W :=
  match d with
  | .read => { s with read := w }
  | .write => { s with write := w }

/-- Without its wakers. -/
def silent (s : Slot W) : Slot W := { s with read := none, write := none }

/-- `set_waker` on the slot. -/
def setWaker (s : Slot W) (d : Direction) (w : W) : Slot W :=
  if s.cancelled then s else s.set d (some w)

/-- `deregister` on the slot. -/
def cancel (s : Slot W) : Slot W := { s.silent with cancelled := true }

/-- `if events & .. != 0 { if let Some(w) = slot.read.take() { .. } }` -/
def takeFor (s : Slot W) (events : UInt32) (d : Direction) : Slot W × List W :=
  if serves events d then (s.set d none, (s.waker d).toList) else (s, [])

/-- Both directions of one completion. -/
def complete (s : Slot W) (events : UInt32) : Slot W × List W :=
  let r := s.takeFor events .read
  let q := r.1.takeFor events .write
  (q.1, r.2 ++ q.2)

/-- Both wakers, in the order a failed re-submit takes them. -/
def wakers (s : Slot W) : List W := s.read.toList ++ s.write.toList

/-! What these leave alone -/

@[simp] theorem set_windows (s : Slot W) (d : Direction) (w : Option W) :
    (s.set d w).windows = s.windows := by cases d <;> rfl

@[simp] theorem set_cancelled (s : Slot W) (d : Direction) (w : Option W) :
    (s.set d w).cancelled = s.cancelled := by cases d <;> rfl

@[simp] theorem set_owner (s : Slot W) (d : Direction) (w : Option W) :
    (s.set d w).owner = s.owner := by cases d <;> rfl

@[simp] theorem setWaker_windows (s : Slot W) (d : Direction) (w : W) :
    (s.setWaker d w).windows = s.windows := by
  unfold setWaker
  split
  · rfl
  · exact s.set_windows d _

theorem setWaker_of_cancelled {s : Slot W} (h : s.cancelled = true) (d : Direction) (w : W) :
    s.setWaker d w = s := by
  rw [setWaker, if_pos h]

@[simp] theorem setWaker_cancelled (s : Slot W) (d : Direction) (w : W) :
    (s.setWaker d w).cancelled = s.cancelled := by
  unfold setWaker
  split
  · rfl
  · exact s.set_cancelled d _

@[simp] theorem setWaker_owner (s : Slot W) (d : Direction) (w : W) :
    (s.setWaker d w).owner = s.owner := by
  unfold setWaker
  split
  · rfl
  · exact s.set_owner d _

@[simp] theorem cancel_windows (s : Slot W) : s.cancel.windows = s.windows := rfl

@[simp] theorem cancel_cancelled (s : Slot W) : s.cancel.cancelled = true := rfl

@[simp] theorem takeFor_windows (s : Slot W) (events : UInt32) (d : Direction) :
    (s.takeFor events d).1.windows = s.windows := by
  unfold takeFor
  split
  · exact s.set_windows d none
  · rfl

@[simp] theorem takeFor_owner (s : Slot W) (events : UInt32) (d : Direction) :
    (s.takeFor events d).1.owner = s.owner := by
  unfold takeFor
  split
  · exact s.set_owner d none
  · rfl

@[simp] theorem takeFor_cancelled (s : Slot W) (events : UInt32) (d : Direction) :
    (s.takeFor events d).1.cancelled = s.cancelled := by
  unfold takeFor
  split
  · exact s.set_cancelled d none
  · rfl

@[simp] theorem complete_windows (s : Slot W) (events : UInt32) :
    (s.complete events).1.windows = s.windows := by
  simp only [complete, takeFor_windows]

@[simp] theorem complete_owner (s : Slot W) (events : UInt32) :
    (s.complete events).1.owner = s.owner := by
  simp only [complete, takeFor_owner]

@[simp] theorem complete_cancelled (s : Slot W) (events : UInt32) :
    (s.complete events).1.cancelled = s.cancelled := by
  simp only [complete, takeFor_cancelled]

end Slot

/-- What the slab's lock protects, with the boxes. -/
structure Memory (W : Type) where
  slots : Slab (Slot W)
  boxes : Nat → Option WindowsSlotState
  /-- The boxes dropped so far, the last one first. -/
  dropped : List Nat

namespace Memory

/-- `slot.windows = None; slots.remove(key)` -/
def free (m : Memory W) (key : Nat) (slot : Slot W) : Memory W :=
  match slot.windows with
  | some p =>
      { slots := m.slots.remove key
        boxes := Function.update m.boxes p none
        dropped := p :: m.dropped }
  | none => { m with slots := m.slots.remove key }

/-- `Inner::set_waker` -/
def setWaker (m : Memory W) (token : Nat) (d : Direction) (w : W) : Memory W :=
  match token with
  | 0 => m
  | key + 1 => { m with slots := m.slots.modify key fun s => s.setWaker d w }

/-- `Inner::deregister`; what `afd::cancel` answers is returned after the slot is marked. -/
def deregister (m : Memory W) (token : Nat) : Memory W :=
  match token with
  | 0 => m
  | key + 1 => { m with slots := m.slots.modify key Slot.cancel }

/-- What a turn of phase 1 leaves, wakes later and re-submits. -/
structure Dispatched (W : Type) where
  memory : Memory W
  toWake : List W
  toResubmit : List Nat

/-- One turn of phase 1; a null pointer is a self-wake post. -/
def dispatchEntry (m : Memory W) (overlapped : Option Nat) : Option (Dispatched W) :=
  match overlapped with
  | none => some { memory := m, toWake := [], toResubmit := [] }
  | some p =>
      (m.boxes p).bind fun state =>
        match m.slots.get state.slabKey with
        | none => some { memory := m, toWake := [], toResubmit := [] }
        | some slot =>
            if slot.cancelled then
              some { memory := m.free state.slabKey slot, toWake := [], toResubmit := [] }
            else
              match slot.windows with
              | none => some { memory := m, toWake := [], toResubmit := [] }
              | some q =>
                  (m.boxes q).map fun state' =>
                    let r := slot.complete state'.events
                    { memory := { m with slots := m.slots.modify state.slabKey fun _ => r.1 }
                      toWake := r.2
                      toResubmit := [state.slabKey] }

/-- What a turn of phase 3 leaves, the request it submitted, and wakes later. -/
structure Resubmitted (W : Type) where
  memory : Memory W
  submitted : Option Nat
  failedWakers : List W

/-- One turn of phase 3; `accepted` is what `afd::submit` answers. -/
def resubmitOne (m : Memory W) (key : Nat) (accepted : Bool) : Option (Resubmitted W) :=
  match m.slots.get key with
  | none => some { memory := m, submitted := none, failedWakers := [] }
  | some slot =>
      if slot.cancelled then
        some { memory := m.free key slot, submitted := none, failedWakers := [] }
      else
        match slot.windows with
        | none => some { memory := m, submitted := none, failedWakers := [] }
        | some q =>
            (m.boxes q).map fun state =>
              let m := { m with
                boxes := Function.update m.boxes q (some { state with events := state.requestedEvents }) }
              if accepted then { memory := m, submitted := some q, failedWakers := [] }
              else { memory := m.free key slot, submitted := none, failedWakers := slot.wakers }

end Memory

/-! ## The box of a slot -/

/-- The address of the box that the slot of `key` owns. -/
def boxAt (slots : Slab (Slot W)) (key : Nat) : Option Nat := (slots.get key).bind Slot.windows

theorem boxAt_eq_some {slots : Slab (Slot W)} {key p : Nat} (h : boxAt slots key = some p) :
    ∃ slot, slots.get key = some slot ∧ slot.windows = some p :=
  Option.bind_eq_some_iff.mp h

theorem boxAt_of_get {slots : Slab (Slot W)} {key : Nat} {slot : Slot W}
    (h : slots.get key = some slot) : boxAt slots key = slot.windows := by
  rw [boxAt, h, Option.bind_some]

theorem boxAt_modify (slots : Slab (Slot W)) (key : Nat) {f : Slot W → Slot W}
    (hf : ∀ slot, slots.get key = some slot → (f slot).windows = slot.windows) (k : Nat) :
    boxAt (slots.modify key f) k = boxAt slots k := by
  unfold boxAt
  rw [Slab.get_modify]
  split
  · rename_i hk
    subst hk
    cases h : slots.get k with
    | none => rfl
    | some slot => exact hf slot h
  · rfl

theorem boxAt_remove (slots : Slab (Slot W)) (key k : Nat) :
    boxAt (slots.remove key) k = if k = key then none else boxAt slots k := by
  unfold boxAt
  rw [Slab.get_remove]
  split <;> rfl

theorem boxAt_insert (slots : Slab (Slot W)) (owner k : Nat) :
    boxAt (slots.insert (Slot.new owner)) k = boxAt slots k := by
  unfold boxAt
  rw [Slab.get_insert]
  split
  · rename_i hk
    rw [hk, Slab.get_nextKey]
    rfl
  · rfl

namespace Memory

/-- Freeing a slot that owns a box. -/
theorem free_eq {m : Memory W} {key p : Nat} {slot : Slot W} (h : slot.windows = some p) :
    m.free key slot
      = { slots := m.slots.remove key
          boxes := Function.update m.boxes p none
          dropped := p :: m.dropped } := by
  rw [free, h]

/-- A completion for a slot that owns its box: cancelled, the slot goes with the box. -/
theorem dispatchEntry_cancelled {m : Memory W} {p : Nat} {state : WindowsSlotState} {slot : Slot W}
    (hp : m.boxes p = some state) (hslot : m.slots.get state.slabKey = some slot)
    (hc : slot.cancelled = true) :
    m.dispatchEntry (some p)
      = some { memory := m.free state.slabKey slot, toWake := [], toResubmit := [] } := by
  simp only [dispatchEntry, hp, hslot, hc, Option.bind_some, if_true]

theorem dispatchEntry_live {m : Memory W} {p : Nat} {state : WindowsSlotState} {slot : Slot W}
    (hp : m.boxes p = some state) (hslot : m.slots.get state.slabKey = some slot)
    (hc : slot.cancelled = false) (hw : slot.windows = some p) :
    m.dispatchEntry (some p)
      = some
        { memory :=
            { m with slots := m.slots.modify state.slabKey fun _ => (slot.complete state.events).1 }
          toWake := (slot.complete state.events).2
          toResubmit := [state.slabKey] } := by
  simp only [dispatchEntry, hp, hslot, hc, hw, Option.bind_some, Option.map_some, Bool.false_eq_true,
    if_false]

theorem resubmitOne_cancelled {m : Memory W} {key : Nat} {slot : Slot W}
    (hslot : m.slots.get key = some slot) (hc : slot.cancelled = true) (accepted : Bool) :
    m.resubmitOne key accepted
      = some { memory := m.free key slot, submitted := none, failedWakers := [] } := by
  simp only [resubmitOne, hslot, hc, if_true]

theorem resubmitOne_live {m : Memory W} {key p : Nat} {slot : Slot W} {state : WindowsSlotState}
    (hslot : m.slots.get key = some slot) (hc : slot.cancelled = false)
    (hw : slot.windows = some p) (hp : m.boxes p = some state) (accepted : Bool) :
    m.resubmitOne key accepted
      = some
        (if accepted then
          { memory := { m with
              boxes := Function.update m.boxes p (some { state with events := state.requestedEvents }) }
            submitted := some p
            failedWakers := [] }
        else
          { memory := m.free key slot
            submitted := none
            failedWakers := slot.wakers }) := by
  simp only [resubmitOne, hslot, hc, hw, hp, Option.map_some, Bool.false_eq_true, if_false]
  cases accepted with
  | true => rfl
  | false =>
      -- the mask written before the failed submit goes with the box
      simp only [Bool.false_eq_true, if_false, free_eq hw, Function.update_idem]

end Memory

end Nanorun.Reactor.Windows
