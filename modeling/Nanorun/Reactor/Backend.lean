import Nanorun.Reactor.Windows

/-!
# The two backends behind one interface

What the sockets see of a reactor: slots under keys, and the operations that a token
reaches them with. `Backend` has the operations and what each one does to the slot
of a key; `linux` and `windows` are the two implementations.

They differ in what they ask before they touch a slot. On Linux a drop begins with
`epoll::delete`, which fails for a descriptor that was registered elsewhere, and
nothing more happens; `set_waker` asks nothing. On Windows neither asks whose slot it
is, and `set_waker` passes over a cancelled one.
-/

namespace Nanorun.Reactor

/-- The operations of `Inner`, and what they do slot by slot. -/
structure Backend (W : Type) where
  State : Type
  Slot : Type
  /-- A turn of the reactor's own dispatch. -/
  Turn : Type
  new : State
  get : State → Nat → Option Slot
  nextKey : State → Nat
  /-- `register` for a socket, when it succeeds. -/
  register : State → Nat → State
  setWaker : State → Nat → Direction → W → State
  /-- `deregister`; `deletes` if the system call for the descriptor finds it here. -/
  deregister : State → Nat → Bool → State
  dispatch : State → Turn → State
  /-- The socket that the slot was registered for. -/
  owner : Slot → Nat
  /-- The slot waits to be freed. -/
  closed : Slot → Bool
  /-- `set_waker` writes to this slot, and something else than is there. -/
  overwrites : Slot → Direction → W → Prop
  /-- `deregister` closes or frees this slot. -/
  closes : Slot → Bool → Prop
  /-- A turn that frees slots that are not closed. -/
  orphans : Turn → Prop
  get_new : ∀ key, get new key = none
  get_nextKey : ∀ s, get s (nextKey s) = none
  get_register : ∀ s i key, get (register s i) key
    = if key = nextKey s then get (register s i) (nextKey s) else get s key
  registered : ∀ s i, ∃ slot, get (register s i) (nextKey s) = some slot ∧ owner slot = i
    ∧ closed slot = false
  setWaker_other : ∀ s key k d w, k ≠ key → get (setWaker s (key + 1) d w) k = get s k
  setWaker_slot : ∀ s key d w slot, get s key = some slot →
    ∃ slot', get (setWaker s (key + 1) d w) key = some slot' ∧ owner slot' = owner slot
      ∧ closed slot' = closed slot ∧ (slot' = slot ↔ ¬ overwrites slot d w)
  deregister_other : ∀ s key k b, k ≠ key → get (deregister s (key + 1) b) k = get s k
  deregister_slot : ∀ s key b slot, get s key = some slot →
    (get (deregister s (key + 1) b) key = some slot ↔ ¬ closes slot b)
  dispatch_keeps : ∀ s t key slot, get s key = some slot → closed slot = false → ¬ orphans t →
    ∃ slot', get (dispatch s t) key = some slot' ∧ owner slot' = owner slot ∧ closed slot' = false

variable {W : Type}

/-! ## Linux -/

theorem Slot.set_eq_self_iff (s : Slot W) (d : Direction) (w : W) :
    s.set d (some w) = s ↔ s.waker d = some w := by
  cases s
  cases d <;> simp [Slot.set, Slot.waker, eq_comm]

theorem dispatch_get (slots : Slab (Slot W)) (evs : List Event) {key : Nat} {slot : Slot W}
    (h : slots.get key = some slot) :
    ∃ slot', (dispatch slots evs).1.get key = some slot' ∧ slot'.owner = slot.owner := by
  have hsame := dispatch_owners slots evs key
  rw [h, Option.map_some] at hsame
  exact Option.map_eq_some_iff.mp hsame

/-- `reactor/linux.rs` -/
def linux (W : Type) : Backend W where
  State := Slab (Slot W)
  Slot := Slot W
  Turn := List Event
  new := Slab.new
  get := Slab.get
  nextKey := Slab.nextKey
  register slots i := slots.insert (Slot.new i)
  setWaker := Reactor.setWaker
  deregister slots token deletes :=
    match token with
    | 0 => slots
    -- `epoll::delete(..)?` comes first
    | key + 1 => if deletes then slots.remove key else slots
  dispatch slots evs := (Reactor.dispatch slots evs).1
  owner := Slot.owner
  closed _ := false
  overwrites slot d w := slot.waker d ≠ some w
  closes _ deletes := deletes = true
  orphans _ := False
  get_new := Slab.get_new
  get_nextKey := Slab.get_nextKey
  get_register s i key := by
    simp only [Slab.get_insert, if_true]
  registered s i := ⟨Slot.new i, by rw [Slab.get_insert, if_pos rfl], rfl, rfl⟩
  setWaker_other s key k d w hne := by
    rw [Reactor.setWaker, Slab.get_modify, if_neg hne]
  setWaker_slot s key d w slot h := by
    refine ⟨slot.set d (some w), ?_, slot.set_owner d _, rfl, ?_⟩
    · rw [Reactor.setWaker, Slab.get_modify, if_pos rfl, h, Option.map_some]
    · rw [Slot.set_eq_self_iff, not_not]
  deregister_other s key k b hne := by
    cases b with
    | true => simp only [if_true, Slab.get_remove, if_neg hne]
    | false => simp only [Bool.false_eq_true, if_false]
  deregister_slot s key b slot h := by
    cases b with
    | true => simp [Slab.get_remove]
    | false => simp [h]
  dispatch_keeps s t key slot h _ _ := by
    obtain ⟨slot', hget, hown⟩ := dispatch_get s t h
    exact ⟨slot', hget, hown, rfl⟩

/-! ## Windows -/

namespace Windows

/-- One turn of phase 1 or of phase 3. -/
inductive Turn where
  | entry (overlapped : Option Nat)
  | resubmit (key : Nat) (accepted : Bool)
  deriving DecidableEq, Repr

namespace Memory

/-- `register`: the box of the request is at the socket's own address. -/
def register (m : Memory W) (i : Nat) (interest : Interest) : Memory W :=
  let state : WindowsSlotState :=
    { slabKey := m.slots.nextKey, requestedEvents := interest.events, events := interest.events }
  { m with
    slots := m.slots.insert { (Slot.new i : Slot W) with windows := some i }
    boxes := Function.update m.boxes i (some state) }

def turn (m : Memory W) : Turn → Memory W
  | .entry overlapped => ((m.dispatchEntry overlapped).map Dispatched.memory).getD m
  | .resubmit key accepted => ((m.resubmitOne key accepted).map Resubmitted.memory).getD m

end Memory

namespace Slot

theorem set_eq_self_iff (s : Slot W) (d : Direction) (w : W) :
    s.set d (some w) = s ↔ s.waker d = some w := by
  cases s
  cases d <;> simp [Slot.set, Slot.waker, eq_comm]

theorem setWaker_eq_self_iff (s : Slot W) (d : Direction) (w : W) :
    s.setWaker d w = s ↔ ¬ (s.cancelled = false ∧ s.waker d ≠ some w) := by
  unfold setWaker
  split
  · rename_i hc
    simp [hc]
  · rename_i hc
    rw [set_eq_self_iff, Bool.not_eq_true] at *
    simp [hc]

theorem cancel_eq_self_iff (s : Slot W) :
    s.cancel = s ↔ ¬ (s.cancelled = false ∨ s.read ≠ none ∨ s.write ≠ none) := by
  cases s
  simp [cancel, silent, eq_comm]
  tauto

end Slot

namespace Memory

theorem get_free_of_ne {m : Memory W} {key k : Nat} (hne : k ≠ key) (slot : Slot W) :
    (m.free key slot).slots.get k = m.slots.get k := by
  unfold free
  split <;> simp only [Slab.get_remove, if_neg hne]

/-- A slot that is not cancelled survives phase 1. -/
theorem dispatchEntry_keeps {m : Memory W} {overlapped : Option Nat} {r : Dispatched W}
    (hr : m.dispatchEntry overlapped = some r) {key : Nat} {slot : Slot W}
    (h : m.slots.get key = some slot) (hc : slot.cancelled = false) :
    ∃ slot', r.memory.slots.get key = some slot' ∧ slot'.owner = slot.owner
      ∧ slot'.cancelled = false := by
  cases overlapped with
  | none =>
      obtain rfl := Option.some.inj hr
      exact ⟨slot, h, rfl, hc⟩
  | some p =>
      obtain ⟨state, _, hr⟩ := Option.bind_eq_some_iff.mp hr
      split at hr
      · obtain rfl := Option.some.inj hr
        exact ⟨slot, h, rfl, hc⟩
      · rename_i own hown
        split at hr
        · rename_i hcan
          obtain rfl := Option.some.inj hr
          -- what phase 1 frees is cancelled, and this slot is not
          have hne : key ≠ state.slabKey := by
            rintro rfl
            obtain rfl := Option.some.inj (h.symm.trans hown)
            rw [hc] at hcan
            exact absurd hcan (by simp)
          exact ⟨slot, (get_free_of_ne hne own).trans h, rfl, hc⟩
        · split at hr
          · obtain rfl := Option.some.inj hr
            exact ⟨slot, h, rfl, hc⟩
          · obtain ⟨state', _, rfl⟩ := Option.map_eq_some_iff.mp hr
            by_cases hk : key = state.slabKey
            · subst hk
              obtain rfl := Option.some.inj (h.symm.trans hown)
              refine ⟨(slot.complete state'.events).1, ?_, slot.complete_owner _,
                (slot.complete_cancelled _).trans hc⟩
              simp only [Slab.get_modify, if_true, h, Option.map_some]
            · exact ⟨slot, by simp only [Slab.get_modify, if_neg hk]; exact h, rfl, hc⟩

/-- It survives phase 3 if the kernel takes its request. -/
theorem resubmitOne_keeps {m : Memory W} {k : Nat} {r : Resubmitted W}
    (hr : m.resubmitOne k true = some r) {key : Nat} {slot : Slot W}
    (h : m.slots.get key = some slot) (hc : slot.cancelled = false) :
    r.memory.slots.get key = some slot := by
  unfold resubmitOne at hr
  split at hr
  · obtain rfl := Option.some.inj hr
    exact h
  · rename_i own hown
    split at hr
    · rename_i hcan
      obtain rfl := Option.some.inj hr
      have hne : key ≠ k := by
        rintro rfl
        obtain rfl := Option.some.inj (h.symm.trans hown)
        rw [hc] at hcan
        exact absurd hcan (by simp)
      exact (get_free_of_ne hne own).trans h
    · split at hr
      · obtain rfl := Option.some.inj hr
        exact h
      · obtain ⟨state, _, rfl⟩ := Option.map_eq_some_iff.mp hr
        exact h

end Memory

end Windows

/-- `reactor/windows.rs` -/
def windows (W : Type) : Backend W where
  State := Windows.Memory W
  Slot := Windows.Slot W
  Turn := Windows.Turn
  new := { slots := Slab.new, boxes := fun _ => none, dropped := [] }
  get m := m.slots.get
  nextKey m := m.slots.nextKey
  register m i := m.register i { read := true, write := true }
  setWaker := Windows.Memory.setWaker
  deregister m token _ := m.deregister token
  dispatch := Windows.Memory.turn
  owner := Windows.Slot.owner
  closed := Windows.Slot.cancelled
  overwrites slot d w := slot.cancelled = false ∧ slot.waker d ≠ some w
  closes slot _ := slot.cancelled = false ∨ slot.read ≠ none ∨ slot.write ≠ none
  orphans t := ∃ key, t = .resubmit key false
  get_new := Slab.get_new
  get_nextKey m := m.slots.get_nextKey
  get_register m i key := by
    simp only [Windows.Memory.register, Slab.get_insert, if_true]
  registered m i := by
    refine ⟨{ (Windows.Slot.new i : Windows.Slot W) with windows := some i }, ?_, rfl, rfl⟩
    simp only [Windows.Memory.register, Slab.get_insert, if_true]
  setWaker_other m key k d w hne := by
    simp only [Windows.Memory.setWaker, Slab.get_modify, if_neg hne]
  setWaker_slot m key d w slot h := by
    refine ⟨slot.setWaker d w, ?_, slot.setWaker_owner d w, slot.setWaker_cancelled d w,
      slot.setWaker_eq_self_iff d w⟩
    simp only [Windows.Memory.setWaker, Slab.get_modify, if_true, h, Option.map_some]
  deregister_other m key k _ hne := by
    simp only [Windows.Memory.deregister, Slab.get_modify, if_neg hne]
  deregister_slot m key _ slot h := by
    simp only [Windows.Memory.deregister, Slab.get_modify, if_true, h, Option.map_some,
      Option.some.injEq]
    exact slot.cancel_eq_self_iff
  dispatch_keeps m t key slot h hc horphan := by
    cases t with
    | entry overlapped =>
        cases hr : m.dispatchEntry overlapped with
        | none => exact ⟨slot, by simp only [Windows.Memory.turn, hr]; exact h, rfl, hc⟩
        | some r =>
            obtain ⟨slot', hslot', hown, hc'⟩ := Windows.Memory.dispatchEntry_keeps hr h hc
            exact ⟨slot', by simp only [Windows.Memory.turn, hr]; exact hslot', hown, hc'⟩
    | resubmit k accepted =>
        cases accepted with
        -- a refused re-submission frees a slot that is in use
        | false => exact absurd ⟨k, rfl⟩ horphan
        | true =>
            refine ⟨slot, ?_, rfl, hc⟩
            cases hr : m.resubmitOne k true with
            | none => simp only [Windows.Memory.turn, hr]; exact h
            | some r =>
                simp only [Windows.Memory.turn, hr]
                exact Windows.Memory.resubmitOne_keeps hr h hc

end Nanorun.Reactor
