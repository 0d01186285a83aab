import Nanorun.Reactor.Buffers

/-!
# Tokens of live sockets

A socket gets its token when `register` returns and gives it back when it is
deregistered. The slab has no generations: a freed key is the next one handed out.
So a socket's token is its own only as long as nobody frees its slot behind its back.

Four paths free a slot. A failed `register` frees the slot it has just made, and a
cancelled slot, whether found in phase 1 or in phase 3, was cancelled by the
socket's own `deregister`. The fourth is phase 3 giving up a live slot whose request
`afd::submit` refuses: the socket is still there, and so is its token.
-/

namespace Nanorun.Reactor.Windows

open Transition Function

namespace Reissue

variable {W : Type}

structure World (W : Type) where
  afd : Windows.World W
  /-- The key of the token that a socket holds, by its registration. -/
  sockets : Nat → Option Nat

inductive Label (W : Type) where
  | setWaker (socket : Nat) (d : Direction) (waker : W)
  /-- The socket is dropped. -/
  | deregister (socket : Nat)
  /-- A stage of `register`, the kernel, or the poller. -/
  | reactor (a : Windows.Label W)
  deriving DecidableEq, Repr

/-- Not a call that a socket makes with its token. -/
def internal : Windows.Label W → Bool
  | .setWaker _ _ _ | .deregister _ => false
  | _ => true

/-- `register` returns the token when it has stored the box. -/
def issue (s : World W) (a : Windows.Label W) (t : Windows.World W) : World W :=
  match a, s.afd.opening with
  | .store, some o => { afd := t, sockets := update s.sockets o.ptr (some o.key) }
  | _, _ => { s with afd := t }

def next (s : World W) : Label W → Option (World W)
  | .setWaker i d waker =>
      (s.sockets i).bind fun key =>
        (Windows.next s.afd (.setWaker (key + 1) d waker)).map fun t => { s with afd := t }
  | .deregister i =>
      (s.sockets i).bind fun key =>
        (Windows.next s.afd (.deregister (key + 1))).map fun t =>
          { afd := t, sockets := update s.sockets i none }
  | .reactor a => if internal a then (Windows.next s.afd a).map (issue s a) else none

def start : World W where
  afd := Windows.start
  sockets _ := none

def system (W : Type) : System (World W) (Label W) where
  init s := s = start
  step := next

/-- No two sockets hold the same token. -/
def Distinct (s : World W) : Prop :=
  ∀ i j key, s.sockets i = some key → s.sockets j = some key → i = j

/-- What a socket finds under its token is its own slot. -/
def OwnSlot (s : World W) : Prop :=
  ∀ i key slot, s.sockets i = some key → s.afd.mem.slots.get key = some slot → slot.owner = i

/-- `afd::submit` accepts the re-submission, if the slot whose turn it is is not cancelled. -/
def Accepted (s : World W) : Label W → Prop
  | .reactor (.poll accepted) => accepted = true ∨
      ∀ key ∈ s.afd.poller.nextResubmit, ∀ slot ∈ s.afd.mem.slots.get key, slot.cancelled = true
  | _ => True

instance decidableAccepted (s : World W) : ∀ a, Decidable (Accepted s a)
  | .reactor (.poll accepted) => inferInstanceAs (Decidable (accepted = true ∨
      ∀ key ∈ s.afd.poller.nextResubmit, ∀ slot ∈ s.afd.mem.slots.get key, slot.cancelled = true))
  | .setWaker _ _ _ | .deregister _ => .isTrue trivial
  | .reactor (.register _) | .reactor (.submit _) | .reactor .store | .reactor (.setWaker _ _ _)
  | .reactor (.deregister _) | .reactor (.complete _ _) | .reactor .post
  | .reactor (.wait _) => .isTrue trivial

/-! ## Live slots -/

/-- The registration of the slot under `key`, unless that is cancelled. -/
def liveOwner (slots : Slab (Slot W)) (key : Nat) : Option Nat :=
  (slots.get key).bind fun slot => if slot.cancelled then none else some slot.owner

theorem liveOwner_of_get {slots : Slab (Slot W)} {key : Nat} {slot : Slot W}
    (h : slots.get key = some slot) (hc : slot.cancelled = false) :
    liveOwner slots key = some slot.owner := by
  rw [liveOwner, h, Option.bind_some, hc]
  rfl

theorem liveOwner_cancelled {slots : Slab (Slot W)} {key : Nat} {slot : Slot W}
    (h : slots.get key = some slot) (hc : slot.cancelled = true) : liveOwner slots key = none := by
  rw [liveOwner, h, Option.bind_some, hc]
  rfl

theorem liveOwner_remove (slots : Slab (Slot W)) (key k : Nat) :
    liveOwner (slots.remove key) k = if k = key then none else liveOwner slots k := by
  unfold liveOwner
  rw [Slab.get_remove]
  split <;> rfl

theorem liveOwner_insert (slots : Slab (Slot W)) (owner k : Nat) :
    liveOwner (slots.insert (Slot.new owner)) k
      = if k = slots.nextKey then some owner else liveOwner slots k := by
  unfold liveOwner
  rw [Slab.get_insert]
  split <;> rfl

/-- A write that keeps owner and flag. -/
theorem liveOwner_modify (slots : Slab (Slot W)) (key : Nat) {f : Slot W → Slot W}
    (hf : ∀ slot, slots.get key = some slot →
      (f slot).owner = slot.owner ∧ (f slot).cancelled = slot.cancelled) (k : Nat) :
    liveOwner (slots.modify key f) k = liveOwner slots k := by
  unfold liveOwner
  rw [Slab.get_modify]
  split
  · rename_i hk
    subst hk
    cases h : slots.get k with
    | none => rfl
    | some slot =>
        obtain ⟨hown, hcan⟩ := hf slot h
        simp only [Option.map_some, Option.bind_some, hown, hcan]
  · rfl

theorem liveOwner_cancel (slots : Slab (Slot W)) (key k : Nat) :
    liveOwner (slots.modify key Slot.cancel) k = if k = key then none else liveOwner slots k := by
  unfold liveOwner
  rw [Slab.get_modify]
  split
  · rename_i hk
    subst hk
    cases slots.get k with
    | none => rfl
    | some slot => rfl
  · rfl

/-- Freeing a cancelled slot takes no live one away. -/
theorem liveOwner_free {m : Memory W} {key : Nat} {slot : Slot W}
    (h : m.slots.get key = some slot) (hc : slot.cancelled = true) (k : Nat) :
    liveOwner (m.free key slot).slots k = liveOwner m.slots k := by
  have hslots : (m.free key slot).slots = m.slots.remove key := by
    unfold Memory.free
    split <;> rfl
  rw [hslots, liveOwner_remove]
  split
  · rename_i hk
    subst hk
    exact (liveOwner_cancelled h hc).symm
  · rfl

/-! ## Sockets and their slots -/

/-- The sockets and the slots that they have keys of. -/
structure SocketInv (s : World W) : Prop where
  afd : AfdInv s.afd
  /-- A socket has its slot. -/
  slot : ∀ i key, s.sockets i = some key → liveOwner s.afd.mem.slots key = some i
  /-- A live slot has its socket, or is being registered. -/
  holder : ∀ key i, liveOwner s.afd.mem.slots key = some i →
    s.sockets i = some key ∨ ∃ o, s.afd.opening = some o ∧ o.key = key
  /-- The one being registered has a slot and no socket yet. -/
  opening : ∀ o, s.afd.opening = some o →
    liveOwner s.afd.mem.slots o.key = some o.ptr ∧ s.sockets o.ptr = none
  fresh : ∀ i, s.afd.nextPtr ≤ i → s.sockets i = none

theorem socketInv_start : SocketInv (start : World W) where
  afd := afdInv_start
  slot := by intro i key h; exact absurd h (by simp [start])
  holder := by intro key i h; exact absurd h (by simp [start, Windows.start, liveOwner])
  opening := by intro o h; exact absurd h (by simp [start, Windows.start])
  fresh := by intro i _; rfl

namespace SocketInv

/-- Two sockets have two keys: the slot has one owner. -/
theorem distinct {s : World W} (h : SocketInv s) : Distinct s := by
  intro i j key hi hj
  exact Option.some.inj ((h.slot i key hi).symm.trans (h.slot j key hj))

theorem ownSlot {s : World W} (h : SocketInv s) : OwnSlot s := by
  intro i key slot hi hslot
  have hlive := h.slot i key hi
  cases hc : slot.cancelled with
  | true =>
      rw [liveOwner_cancelled hslot hc] at hlive
      exact absurd hlive (by simp)
  | false =>
      rw [liveOwner_of_get hslot hc] at hlive
      exact Option.some.inj hlive

/-- The reactor moves on and every live slot stays. -/
theorem same {s : World W} (h : SocketInv s) {t : Windows.World W} (ht : AfdInv t)
    (hlive : ∀ key, liveOwner t.mem.slots key = liveOwner s.afd.mem.slots key)
    (hopen : t.opening.map (fun o => (o.key, o.ptr)) = s.afd.opening.map fun o => (o.key, o.ptr))
    (hn : t.nextPtr = s.afd.nextPtr) : SocketInv { s with afd := t } := by
  have hback : ∀ {o}, t.opening = some o →
      ∃ o', s.afd.opening = some o' ∧ o'.key = o.key ∧ o'.ptr = o.ptr := by
    intro o ho
    rw [ho, Option.map_some] at hopen
    obtain ⟨o', ho', heq⟩ := Option.map_eq_some_iff.mp hopen.symm
    exact ⟨o', ho', congrArg Prod.fst heq, congrArg Prod.snd heq⟩
  refine ⟨ht, ?_, ?_, ?_, ?_⟩
  · intro i key hi
    exact (hlive key).trans (h.slot i key hi)
  · intro key i hi
    rcases h.holder key i ((hlive key).symm.trans hi) with hsock | ⟨o, ho, hkey⟩
    · exact .inl hsock
    · rw [ho, Option.map_some] at hopen
      obtain ⟨o', ho', heq⟩ := Option.map_eq_some_iff.mp hopen
      exact .inr ⟨o', ho', (congrArg Prod.fst heq).trans hkey⟩
  · intro o ho
    obtain ⟨o', ho', hkey, hptr⟩ := hback ho
    obtain ⟨hl, hnone⟩ := h.opening o' ho'
    rw [hkey, hptr] at hl
    rw [hptr] at hnone
    exact ⟨(hlive o.key).trans hl, hnone⟩
  · intro i hi
    exact h.fresh i (by rw [← hn]; exact hi)

theorem registered {s : World W} (h : SocketInv s) (interest : Interest)
    (ht : AfdInv (s.afd.register interest)) (hopen : s.afd.opening = none) :
    SocketInv { s with afd := s.afd.register interest } := by
  have hlive : ∀ k, liveOwner (s.afd.register interest).mem.slots k
      = if k = s.afd.mem.slots.nextKey then some s.afd.nextPtr else liveOwner s.afd.mem.slots k :=
    liveOwner_insert s.afd.mem.slots s.afd.nextPtr
  have hvacant : liveOwner s.afd.mem.slots s.afd.mem.slots.nextKey = none := by
    rw [liveOwner, Slab.get_nextKey]
    rfl
  refine ⟨ht, ?_, ?_, ?_, ?_⟩
  · intro i key hi
    -- the key of a socket is not vacant, so it is not the one handed out
    have hne : key ≠ s.afd.mem.slots.nextKey := by
      intro heq
      have := h.slot i key hi
      rw [heq, hvacant] at this
      exact absurd this (by simp)
    rw [hlive, if_neg hne]
    exact h.slot i key hi
  · intro key i hi
    rw [hlive] at hi
    split at hi
    · rename_i hk
      exact .inr ⟨_, rfl, hk.symm⟩
    · rcases h.holder key i hi with hsock | ⟨o, ho, _⟩
      · exact .inl hsock
      · rw [hopen] at ho
        exact absurd ho (by simp)
  · intro o ho
    obtain rfl := Option.some.inj ho
    exact ⟨by rw [hlive, if_pos rfl], h.fresh _ (Nat.le_refl _)⟩
  · intro i hi
    exact h.fresh i (Nat.le_of_succ_le hi)

/-- The slot under `key` is no socket's any more. -/
theorem forgotten {s : World W} (h : SocketInv s) {t : Windows.World W} (ht : AfdInv t)
    {sockets : Nat → Option Nat} {key : Nat}
    (hlive : ∀ k, liveOwner t.mem.slots k
      = if k = key then none else liveOwner s.afd.mem.slots k)
    (hsock : ∀ i k, sockets i = some k ↔ k ≠ key ∧ s.sockets i = some k)
    (hopen : t.opening = none) (hold : ∀ o, s.afd.opening = some o → o.key = key)
    (hn : t.nextPtr = s.afd.nextPtr) : SocketInv { afd := t, sockets := sockets } := by
  refine ⟨ht, ?_, ?_, ?_, ?_⟩
  · intro i k hi
    obtain ⟨hne, hi⟩ := (hsock i k).mp hi
    show liveOwner t.mem.slots k = some i
    rw [hlive, if_neg hne]
    exact h.slot i k hi
  · intro k i hi
    have hi : liveOwner t.mem.slots k = some i := hi
    rw [hlive] at hi
    split at hi
    · exact absurd hi (by simp)
    · rename_i hne
      rcases h.holder k i hi with hs | ⟨o, ho, hkey⟩
      · exact .inl ((hsock i k).mpr ⟨hne, hs⟩)
      · exact absurd (hkey.symm.trans (hold o ho)) hne
  · intro o ho
    have ho : t.opening = some o := ho
    rw [hopen] at ho
    exact absurd ho (by simp)
  · intro i hi
    cases hk : sockets i with
    | none => exact hk
    | some k =>
        have hsome := ((hsock i k).mp hk).2
        rw [h.fresh i (by rw [← hn]; exact hi)] at hsome
        exact absurd hsome (by simp)

theorem abandoned {s : World W} (h : SocketInv s) {o : Opening} (ho : s.afd.opening = some o)
    (ht : AfdInv (s.afd.abandon o)) : SocketInv { s with afd := s.afd.abandon o } := by
  refine h.forgotten ht (liveOwner_remove s.afd.mem.slots o.key) ?_ rfl ?_ rfl
  · intro i k
    refine ⟨fun hi => ⟨?_, hi⟩, fun hi => hi.2⟩
    -- a socket under this key would be the registration that is only being made
    intro heq
    obtain ⟨hl, hnone⟩ := h.opening o ho
    have hi' := h.slot i k hi
    rw [heq, hl] at hi'
    rw [Option.some.inj hi', hi] at hnone
    exact absurd hnone (by simp)
  · intro o' ho'
    rw [Option.some.inj (ho.symm.trans ho')]

theorem stored {s : World W} (h : SocketInv s) {o : Opening} (ho : s.afd.opening = some o)
    (ht : AfdInv (s.afd.store o)) :
    SocketInv { afd := s.afd.store o, sockets := update s.sockets o.ptr (some o.key) } := by
  have hlive : ∀ k, liveOwner (s.afd.store o).mem.slots k = liveOwner s.afd.mem.slots k :=
    liveOwner_modify s.afd.mem.slots o.key (fun _ _ => ⟨rfl, rfl⟩)
  obtain ⟨hl, hnone⟩ := h.opening o ho
  refine ⟨ht, ?_, ?_, ?_, ?_⟩
  · intro i key hi
    show liveOwner (s.afd.store o).mem.slots key = some i
    rw [hlive]
    by_cases hio : i = o.ptr
    · subst hio
      simp only [update_self] at hi
      rw [← Option.some.inj hi]
      exact hl
    · simp only [update_of_ne hio] at hi
      exact h.slot i key hi
  · intro key i hi
    have hi : liveOwner (s.afd.store o).mem.slots key = some i := hi
    rw [hlive] at hi
    refine .inl ?_
    rcases h.holder key i hi with hsock | ⟨o', ho', hkey⟩
    · have hio : i ≠ o.ptr := by
        intro heq
        rw [heq, hnone] at hsock
        exact absurd hsock (by simp)
      simp only [update_of_ne hio]
      exact hsock
    · obtain rfl := Option.some.inj (ho.symm.trans ho')
      rw [← hkey, hl] at hi
      rw [← Option.some.inj hi, ← hkey]
      exact update_self o.ptr (some o.key) s.sockets
  · intro o' ho'
    exact absurd ho' (by simp [Windows.World.store])
  · intro i hi
    have hlt : o.ptr < s.afd.nextPtr := by
      refine h.afd.books.bound o.ptr ?_
      intro hno
      have hkey := (h.afd.books.opening o ho).2.1
      rw [hno] at hkey
      exact absurd hkey (by simp)
    have hle : s.afd.nextPtr ≤ i := hi
    have hio : i ≠ o.ptr := by omega
    simp only [update_of_ne hio]
    exact h.fresh i hle

theorem deregistered {s : World W} (h : SocketInv s) {i key : Nat} (hi : s.sockets i = some key)
    {t : Windows.World W} (ht : AfdInv t) (hopen : s.afd.opening = none)
    (hmem : t.mem.slots = s.afd.mem.slots.modify key Slot.cancel)
    (ho : t.opening = s.afd.opening) (hn : t.nextPtr = s.afd.nextPtr) :
    SocketInv { afd := t, sockets := update s.sockets i none } := by
  have hlive : ∀ k, liveOwner t.mem.slots k
      = if k = key then none else liveOwner s.afd.mem.slots k := by
    intro k
    rw [hmem]
    exact liveOwner_cancel s.afd.mem.slots key k
  refine h.forgotten ht hlive ?_ (ho.trans hopen) ?_ hn
  · intro j k
    by_cases hji : j = i
    · subst hji
      rw [update_self, hi]
      constructor
      · intro hc
        exact absurd hc (by simp)
      · intro hc
        exact absurd (Option.some.inj hc.2).symm hc.1
    · rw [update_of_ne hji]
      refine ⟨fun hj => ⟨?_, hj⟩, fun hj => hj.2⟩
      intro heq
      subst heq
      exact hji (h.distinct j i k hj hi)
  · intro o hcon
    rw [hopen] at hcon
    exact absurd hcon (by simp)

end SocketInv

/-! ## Steps -/

/-- A turn of phase 1 frees cancelled slots only. -/
theorem liveOwner_dispatch {s : Windows.World W} (h : AfdInv s) {e : Option Nat}
    {es : List (Option Nat)} {ws : List W} {ks : List Nat} {r : Memory.Dispatched W}
    (hp : s.poller = .dispatching (e :: es) ws ks) (hr : s.mem.dispatchEntry e = some r) (k : Nat) :
    liveOwner r.memory.slots k = liveOwner s.mem.slots k := by
  cases e with
  | none =>
      obtain rfl := Option.some.inj hr
      rfl
  | some p =>
      obtain ⟨state, slot, hstate, hslot, hw, _⟩ := h.entry (p := p) (by rw [hp]; rfl)
      cases hc : slot.cancelled with
      | true =>
          rw [Memory.dispatchEntry_cancelled hstate hslot hc] at hr
          obtain rfl := Option.some.inj hr
          exact liveOwner_free hslot hc k
      | false =>
          rw [Memory.dispatchEntry_live hstate hslot hc hw] at hr
          obtain rfl := Option.some.inj hr
          refine liveOwner_modify s.mem.slots state.slabKey ?_ k
          intro slot' hslot'
          obtain rfl := Option.some.inj (hslot.symm.trans hslot')
          exact ⟨slot.complete_owner _, slot.complete_cancelled _⟩

/-- A turn of phase 3 frees cancelled slots only, unless the request is refused. -/
theorem liveOwner_resubmit {s : Windows.World W} (h : AfdInv s) {key : Nat} {accepted : Bool}
    {r : Memory.Resubmitted W} (hturn : s.poller.nextResubmit = some key)
    (hr : s.mem.resubmitOne key accepted = some r)
    (hok : accepted = true ∨ ∀ slot ∈ s.mem.slots.get key, slot.cancelled = true)
    (k : Nat) : liveOwner r.memory.slots k = liveOwner s.mem.slots k := by
  obtain ⟨slot, p, state, hslot, hw, hstate, _⟩ := h.candidate hturn
  cases hc : slot.cancelled with
  | true =>
      rw [Memory.resubmitOne_cancelled hslot hc] at hr
      obtain rfl := Option.some.inj hr
      exact liveOwner_free hslot hc k
  | false =>
      have hacc : accepted = true := by
        rcases hok with hacc | hall
        · exact hacc
        · exact absurd (hc.symm.trans (hall slot hslot)) (by simp)
      rw [Memory.resubmitOne_live hslot hc hw hstate, if_pos hacc] at hr
      obtain rfl := Option.some.inj hr
      rfl

/-- A step of the reactor that is not a socket's. -/
theorem SocketInv.internal {s : World W} (h : SocketInv s) {a : Windows.Label W}
    {t : Windows.World W} (hint : internal a = true) (hok : Accepted s (.reactor a))
    (hs : Windows.next s.afd a = some t) : SocketInv (issue s a t) := by
  have ht : AfdInv t := afdInv_step h.afd hs
  cases next_spec hs with
  | register hopen _ => exact h.registered _ ht hopen
  | submit hopen _ =>
      refine h.same ht (fun _ => rfl) ?_ rfl
      rw [hopen]
      rfl
  | abandon hopen _ => exact h.abandoned hopen ht
  | @store o hopen _ =>
      have hissue : issue s .store (s.afd.store o)
          = { afd := s.afd.store o, sockets := update s.sockets o.ptr (some o.key) } := by
        simp only [issue, hopen]
      rw [hissue]
      exact h.stored hopen ht
  | setWaker => exact absurd hint (by simp [Reissue.internal])
  | deregister => exact absurd hint (by simp [Reissue.internal])
  | complete | post | wait | goto => exact h.same ht (fun _ => rfl) rfl rfl
  | dispatch hp hr => exact h.same ht (liveOwner_dispatch h.afd hp hr) rfl rfl
  | @resubmit accepted key ks fs r hp hr =>
      have hturn : s.afd.poller.nextResubmit = some key := by rw [hp]; rfl
      exact h.same ht (liveOwner_resubmit h.afd hturn hr (hok.imp_right fun hall => hall key hturn))
        rfl rfl

theorem socketInv_step {s s' : World W} {a : Label W} (h : SocketInv s) (hok : Accepted s a)
    (hs : next s a = some s') : SocketInv s' := by
  cases a with
  | setWaker i d waker =>
      obtain ⟨key, hkey, hs⟩ := Option.bind_eq_some_iff.mp hs
      obtain ⟨t, ht, rfl⟩ := Option.map_eq_some_iff.mp hs
      have hafd := afdInv_step h.afd ht
      cases next_spec ht with
      | setWaker =>
          -- the slot stays live and stays its owner's
          refine h.same hafd ?_ rfl rfl
          exact liveOwner_modify s.afd.mem.slots key fun slot _ =>
            ⟨slot.setWaker_owner d waker, slot.setWaker_cancelled d waker⟩
  | deregister i =>
      obtain ⟨key, hkey, hs⟩ := Option.bind_eq_some_iff.mp hs
      obtain ⟨t, ht, rfl⟩ := Option.map_eq_some_iff.mp hs
      have hafd := afdInv_step h.afd ht
      simp only [Windows.next] at ht
      split at ht
      · rename_i hfree
        obtain rfl := Option.some.inj ht
        exact h.deregistered hkey hafd (World.opening_of_unlocked hfree).1 rfl rfl rfl
      · exact absurd ht (by simp)
  | reactor a =>
      simp only [next] at hs
      split at hs
      · rename_i hint
        obtain ⟨t, ht, rfl⟩ := Option.map_eq_some_iff.mp hs
        exact h.internal hint hok ht
      · exact absurd hs (by simp)

theorem socketInv_reachable {s : World W} (h : (system W).ReachableVia Accepted s) : SocketInv s :=
  h.invariant (I := SocketInv) (by rintro _ rfl; exact socketInv_start)
    (fun _ _ _ hi hok hs => socketInv_step hi hok hs)

/-! ## The result -/

/-- A refused re-submission puts the key of a live socket at the head of the free list. -/
theorem SocketInv.refused {s s' : World W} {a : Label W} (h : SocketInv s) (hbad : ¬ Accepted s a)
    (hs : next s a = some s') :
    ∃ i key, s'.sockets i = some key ∧ s'.afd.mem.slots.nextKey = key := by
  unfold Accepted at hbad
  split at hbad
  · rename_i accepted
    push Not at hbad
    obtain ⟨hacc, key, hturn, slot, hslot, hlive⟩ := hbad
    have hc : slot.cancelled = false := Bool.eq_false_iff.mpr hlive
    obtain ⟨ks, fs, hpo⟩ := Poller.of_nextResubmit hturn
    have hno : s.afd.opening = none := h.afd.lock (by rw [hpo]; rfl)
    have hsock : s.sockets slot.owner = some key := by
      rcases h.holder key slot.owner (liveOwner_of_get hslot hc) with hsock | ⟨o, ho, _⟩
      · exact hsock
      · rw [hno] at ho
        exact absurd ho (by simp)
    obtain ⟨slot', p, state, hslot', hw, hstate, _⟩ := h.afd.candidate hturn
    obtain rfl := Option.some.inj (hslot.symm.trans hslot')
    have hr := Memory.resubmitOne_live hslot hc hw hstate accepted
    rw [if_neg hacc] at hr
    have hstep : ∃ po, s' = { s with afd := { s.afd with
        mem := s.afd.mem.free key slot, inFlight := [] ++ s.afd.inFlight, poller := po } } := by
      simp only [next, Reissue.internal, if_true] at hs
      obtain ⟨t, ht, rfl⟩ := Option.map_eq_some_iff.mp hs
      simp only [Windows.next, World.poll, hpo, hr, Option.map_some] at ht
      obtain rfl := Option.some.inj ht
      exact ⟨_, rfl⟩
    obtain ⟨po, rfl⟩ := hstep
    refine ⟨slot.owner, key, hsock, ?_⟩
    simp only [Memory.free_eq hw]
    exact Slab.nextKey_remove hslot
  · exact absurd trivial hbad

/--
**The token of a live socket is not handed out again, as long as no re-submission is refused.**

In every run in which `afd::submit` accepts the re-submissions of phase 3, whatever
it answers to `register`, no two sockets hold the same token and what a socket finds
under its token is its own slot. A refused re-submission breaks it at once: the key
of a socket that is still there is then the next one the slab hands out.
-/
theorem token_not_reissued {s : World W} (h : (system W).ReachableVia Accepted s) :
    (Distinct s ∧ OwnSlot s)
    ∧ ∀ a s', ¬ Accepted s a → (system W).step s a = some s' →
        ∃ i key, s'.sockets i = some key ∧ s'.afd.mem.slots.nextKey = key :=
  have hinv := socketInv_reachable h
  ⟨⟨hinv.distinct, hinv.ownSlot⟩, fun _ _ hbad hs => hinv.refused hbad hs⟩

/-- A socket is registered, its request completes, and the poller goes up to phase 3. -/
def toPhaseThree : List (Label Nat) :=
  [.reactor (.register { read := true, write := true }), .reactor (.submit true), .reactor .store,
    .reactor (.complete 0 POLL_RECEIVE), .reactor (.wait 1), .reactor (.poll true),
    .reactor (.poll true), .reactor (.poll true), .reactor (.poll true)]

/-- The rest of the poll, and another socket is registered. -/
def another (accepted : Bool) : List (Label Nat) :=
  [.reactor (.poll accepted), .reactor (.poll true), .reactor (.poll true),
    .reactor (.register { read := true, write := true }), .reactor (.submit true), .reactor .store]

theorem token_not_reissued_accepted :
    ((system Nat).exec start (toPhaseThree ++ another true)).sockets 0 = some 0
    ∧ ((system Nat).exec start (toPhaseThree ++ another true)).sockets 1 = some 1
    ∧ Distinct ((system Nat).exec start (toPhaseThree ++ another true)) :=
  have hmeets : (system Nat).Meets Accepted start (toPhaseThree ++ another true) := by
    decide +kernel
  ⟨by decide +kernel, by decide +kernel,
    (token_not_reissued (System.ReachableVia.exec (.init rfl) hmeets)).1.1⟩

/-- The re-submission is refused: both sockets hold the same token. -/
theorem token_reissued : ∃ s : World Nat, (system Nat).Reachable s ∧ ¬ Distinct s := by
  refine ⟨(system Nat).exec start (toPhaseThree ++ another false),
    System.Reachable.exec (.init rfl), ?_⟩
  intro h
  exact absurd (h 0 1 0 (by decide +kernel) (by decide +kernel)) (by decide)

end Reissue

end Nanorun.Reactor.Windows
