import Nanorun.Reactor.Cancelled

/-!
# Every slot stays armed, and no stored waker is lost

An AFD-poll request is good for one completion, so the reactor has to submit the next
one itself to stay level-triggered, and the completion has overwritten the mask it was
submitted with. `ArmedInv`: a request in the kernel's hands always asks for all that its
slot was registered for. With the books this says that wherever the poller has caught
up, every slot is watched for its whole interest again.

The wakers of a slot go through the poller's lists. One that is stored is fired, or
replaced in its own direction, or dropped by the deregistration of its own token. There
is no fourth way, in particular not a refused re-submission, which takes the slot away:
it fires what the slot holds.

This is about slots, not about sockets. The socket of a refused re-submission lives on
without a slot: nothing watches it any more, and a `set_waker` on its token drops the
waker.
-/

namespace Nanorun.Reactor.Windows

open Transition

variable {W : Type}

/-- The wakers taken out of their slots and not fired yet. -/
def Poller.pendingWakers : Poller W → List W
  | .dispatching _ ws _ | .firing ws _ => ws
  | .resubmitting _ fs | .firingFailed fs => fs
  | _ => []

/-- What the step fires. -/
def fires (s : World W) : Label W → List W
  | .poll _ =>
      match s.poller with
      | .firing (w :: _) _ | .firingFailed (w :: _) => [w]
      | _ => []
  | _ => []

/-- The request at `p` is with the kernel, or about to be submitted for the first time. -/
def World.requested (s : World W) (p : Nat) : Prop :=
  p ∈ s.inFlight ∨ ∃ o, s.opening = some o ∧ o.ptr = p ∧ o.submitted = false

/-- What is asked for, and where wakers can be. -/
structure ArmedInv (s : World W) : Prop where
  /-- A request asks for the whole interest. -/
  mask : ∀ p state, s.mem.boxes p = some state → s.requested p →
    state.events = state.requestedEvents
  /-- A cancelled slot, or one without a request, holds no waker. -/
  silent : ∀ key slot, s.mem.slots.get key = some slot →
    slot.cancelled = true ∨ slot.windows = none → slot.wakers = []

/-! ## Wakers of a slot -/

theorem Slot.mem_wakers {s : Slot W} {d : Direction} {w : W} (h : s.waker d = some w) :
    w ∈ s.wakers := by
  unfold Slot.wakers
  cases d with
  | read => exact List.mem_append_left _ (by simp [show s.read = some w from h])
  | write => exact List.mem_append_right _ (by simp [show s.write = some w from h])

theorem Slot.waker_set (s : Slot W) (d e : Direction) (w : Option W) :
    (s.set d w).waker e = if e = d then w else s.waker e := by
  cases d <;> cases e <;> rfl

/-- A completion takes a waker out to fire it, or leaves it. -/
theorem Slot.complete_waker {s : Slot W} (events : UInt32) {d : Direction} {w : W}
    (h : s.waker d = some w) :
    (s.complete events).1.waker d = some w ∨ w ∈ (s.complete events).2 := by
  have htake : ∀ (t : Slot W) e, t.waker d = some w →
      (t.takeFor events e).1.waker d = some w ∨ w ∈ (t.takeFor events e).2 := by
    intro t e ht
    unfold Slot.takeFor
    split
    · by_cases hd : d = e
      · subst hd
        exact .inr (by simp [ht])
      · exact .inl (by rw [Slot.waker_set, if_neg hd]; exact ht)
    · exact .inl ht
  rcases htake s .read h with hkept | htaken
  · rcases htake _ .write hkept with hkept' | htaken'
    · exact .inl hkept'
    · exact .inr (List.mem_append_right _ htaken')
  · exact .inr (List.mem_append_left _ htaken)

/-! ## The invariant -/

theorem armedInv_start : ArmedInv (start : World W) where
  mask := by
    intro p state hp
    exact absurd hp (by simp [start])
  silent := by
    intro key slot hslot
    exact absurd hslot (by simp [start])

namespace ArmedInv

variable {s : World W}

/-- A slot that holds a waker is open and has its request. -/
theorem holder (h : ArmedInv s) {key : Nat} {slot : Slot W} {d : Direction} {w : W}
    (hslot : s.mem.slots.get key = some slot) (hw : slot.waker d = some w) :
    slot.cancelled = false ∧ slot.windows ≠ none := by
  have hmem := Slot.mem_wakers hw
  constructor
  · by_contra hc
    rw [h.silent key slot hslot (.inl (by simpa using hc))] at hmem
    exact absurd hmem (by simp)
  · intro hnone
    rw [h.silent key slot hslot (.inr hnone)] at hmem
    exact absurd hmem (by simp)

/-- The kernel has each request once, and no request that is yet to be submitted. -/
theorem requested_erase (hi : AfdInv s) {p : Nat} (hp : p ∈ s.inFlight) {q : Nat}
    (hq : q ∈ s.inFlight.erase p ∨ ∃ o, s.opening = some o ∧ o.ptr = q ∧ o.submitted = false) :
    q ≠ p ∧ s.requested q := by
  have hle : s.inFlight.count p ≤ 1 := Nat.le_trans (Nat.le_add_right _ _) (hi.refs_le_one p)
  rcases hq with hmem | ⟨o, ho, rfl, hsub⟩
  · refine ⟨?_, .inl (List.mem_of_mem_erase hmem)⟩
    rintro rfl
    have hpos := List.count_pos_iff.mpr hmem
    rw [List.count_erase_self] at hpos
    omega
  · refine ⟨?_, .inr ⟨o, ho, rfl, hsub⟩⟩
    rintro rfl
    have hrefs := (hi.books.opening o ho).2.2
    have hpos := List.count_pos_iff.mpr hp
    rw [hsub, if_neg (by simp), World.refs] at hrefs
    omega

/-- A slot goes with its box. -/
theorem freed (h : ArmedInv s) {key p : Nat} {slot : Slot W} (hw : slot.windows = some p)
    {po : Poller W} :
    ArmedInv { s with mem := s.mem.free key slot, poller := po } := by
  rw [Memory.free_eq hw]
  refine ⟨fun q state hq hreq => ?_, fun k slot' hslot' hsil => ?_⟩
  · by_cases hqp : q = p
    · subst hqp
      simp only [Function.update_self] at hq
      exact absurd hq (by simp)
    · simp only [Function.update_of_ne hqp] at hq
      exact h.mask q state hq hreq
  · simp only [Slab.get_remove] at hslot'
    split at hslot'
    · exact absurd hslot' (by simp)
    · exact h.silent k slot' hslot' hsil

end ArmedInv

theorem armedInv_step {s s' : World W} {a : Label W} (hi : AfdInv s) (h : ArmedInv s)
    (hs : next s a = some s') : ArmedInv s' := by
  cases next_spec hs with
  | @register interest hopen _ =>
      refine ⟨fun p state hp hreq => ?_, fun key slot hslot hsil => ?_⟩
      · by_cases hpn : p = s.nextPtr
        · subst hpn
          simp only [World.register, Function.update_self, Option.some.injEq] at hp
          subst hp
          rfl
        · simp only [World.register, Function.update_of_ne hpn] at hp
          refine h.mask p state hp ?_
          rcases hreq with hmem | ⟨o, ho, hptr, _⟩
          · exact .inl hmem
          · obtain rfl := Option.some.inj ho
            exact absurd hptr.symm hpn
      · simp only [World.register, Slab.get_insert] at hslot
        split at hslot
        · obtain rfl := Option.some.inj hslot
          rfl
        · exact h.silent key slot hslot hsil
  | @submit o hopen hsub =>
      refine ⟨fun p state hp hreq => h.mask p state hp ?_, h.silent⟩
      rcases hreq with hmem | ⟨o', ho', _, hsub'⟩
      · rcases List.mem_cons.mp hmem with rfl | hmem
        · exact .inr ⟨o, hopen, rfl, hsub⟩
        · exact .inl hmem
      · obtain rfl := Option.some.inj ho'
        exact absurd hsub' (by simp)
  | @abandon o hopen hsub =>
      refine ⟨fun p state hp hreq => ?_, fun key slot hslot hsil => ?_⟩
      · by_cases hpo : p = o.ptr
        · subst hpo
          simp only [World.abandon, Function.update_self] at hp
          exact absurd hp (by simp)
        · simp only [World.abandon, Function.update_of_ne hpo] at hp
          refine h.mask p state hp ?_
          rcases hreq with hmem | ⟨o', ho', _⟩
          · exact .inl hmem
          · exact absurd ho' (by simp [World.abandon])
      · simp only [World.abandon, Slab.get_remove] at hslot
        split at hslot
        · exact absurd hslot (by simp)
        · exact h.silent key slot hslot hsil
  | @store o hopen hsub =>
      refine ⟨fun p state hp hreq => ?_, fun key slot hslot hsil => ?_⟩
      · refine h.mask p state hp ?_
        rcases hreq with hmem | ⟨o', ho', _⟩
        · exact .inl hmem
        · exact absurd ho' (by simp [World.store])
      · simp only [World.store, Slab.get_modify] at hslot
        split at hslot
        · obtain ⟨old, hold, rfl⟩ := Option.map_eq_some_iff.mp hslot
          -- the slot that gets its box has held no waker so far
          obtain ⟨⟨bare, hbare, hw⟩, _⟩ := hi.books.opening o hopen
          rw [hold] at hbare
          obtain rfl := Option.some.inj hbare
          exact h.silent o.key old hold (.inr hw)
        · exact h.silent key slot hslot hsil
  | @setWaker token d w =>
      cases token with
      | zero => exact ⟨h.mask, h.silent⟩
      | succ k =>
          refine ⟨h.mask, fun key slot hslot hsil => ?_⟩
          simp only [Memory.setWaker, Slab.get_modify] at hslot
          split at hslot
          · obtain ⟨old, hold, rfl⟩ := Option.map_eq_some_iff.mp hslot
            rw [Slot.setWaker_cancelled, Slot.setWaker_windows] at hsil
            rcases hsil with hc | hnone
            · rw [Slot.setWaker_of_cancelled hc]
              exact h.silent k old hold (.inl hc)
            · -- the lock is free, so every slot has its box
              obtain ⟨o, ho, _⟩ := hi.books.bare k old hold hnone
              simp only [next] at hs
              split at hs
              · rename_i hfree
                rw [(World.opening_of_unlocked hfree).1] at ho
                exact absurd ho (by simp)
              · exact absurd hs (by simp)
          · exact h.silent key slot hslot hsil
  | @deregister token =>
      cases token with
      | zero => exact ⟨h.mask, h.silent⟩
      | succ k =>
          refine ⟨h.mask, fun key slot hslot hsil => ?_⟩
          simp only [Memory.deregister, Slab.get_modify] at hslot
          split at hslot
          · obtain ⟨old, _, rfl⟩ := Option.map_eq_some_iff.mp hslot
            rfl
          · exact h.silent key slot hslot hsil
  | @complete p events state hmem hstate =>
      refine ⟨fun q st hq hreq => ?_, h.silent⟩
      obtain ⟨hne, hreq'⟩ := ArmedInv.requested_erase hi hmem hreq
      simp only [World.complete, Function.update_of_ne hne] at hq
      exact h.mask q st hq hreq'
  | post => exact ⟨h.mask, h.silent⟩
  | wait _ => exact ⟨h.mask, h.silent⟩
  | goto _ _ _ _ => exact ⟨h.mask, h.silent⟩
  | @dispatch accepted e es ws ks r hp hr =>
      cases e with
      | none =>
          obtain rfl := Option.some.inj hr
          exact ⟨h.mask, h.silent⟩
      | some p =>
          obtain ⟨state, slot, hstate, hslot, hw, _⟩ := hi.entry (p := p) (by rw [hp]; rfl)
          cases hc : slot.cancelled with
          | true =>
              rw [Memory.dispatchEntry_cancelled hstate hslot hc] at hr
              obtain rfl := Option.some.inj hr
              exact h.freed hw
          | false =>
              rw [Memory.dispatchEntry_live hstate hslot hc hw] at hr
              obtain rfl := Option.some.inj hr
              refine ⟨h.mask, fun key slot' hslot' hsil => ?_⟩
              simp only [Slab.get_modify] at hslot'
              split at hslot'
              · obtain ⟨old, _, rfl⟩ := Option.map_eq_some_iff.mp hslot'
                rw [Slot.complete_cancelled, Slot.complete_windows, hc, hw] at hsil
                exact absurd hsil (by simp)
              · exact h.silent key slot' hslot' hsil
  | @resubmit accepted key ks fs r hp hr =>
      have hturn : s.poller.nextResubmit = some key := by rw [hp]; rfl
      obtain ⟨slot, q, state, hslot, hw, hstate, _⟩ := hi.candidate hturn
      cases hc : slot.cancelled with
      | true =>
          rw [Memory.resubmitOne_cancelled hslot hc] at hr
          obtain rfl := Option.some.inj hr
          exact h.freed hw
      | false =>
          rw [Memory.resubmitOne_live hslot hc hw hstate] at hr
          obtain rfl := Option.some.inj hr
          cases accepted with
          | false => exact h.freed hw
          | true =>
              refine ⟨fun p st hp' hreq => ?_, h.silent⟩
              by_cases hpq : p = q
              · subst hpq
                simp only [if_true, Function.update_self, Option.some.injEq] at hp'
                subst hp'
                rfl
              · simp only [if_true, Function.update_of_ne hpq] at hp'
                refine h.mask p st hp' (hreq.imp_left fun hmem => ?_)
                exact (List.mem_cons.mp hmem).resolve_left hpq

theorem armedInv_reachable {s : World W} (h : (system W).Reachable s) : AfdInv s ∧ ArmedInv s :=
  h.invariant (I := fun s => AfdInv s ∧ ArmedInv s)
    (by rintro _ rfl; exact ⟨afdInv_start, armedInv_start⟩)
    (fun _ _ _ hi hs => ⟨afdInv_step hi.1 hs, armedInv_step hi.1 hi.2 hs⟩)

/-! ## Where wakers go -/

/-- The slot still holds the waker. -/
def HeldAt (s : World W) (key : Nat) (d : Direction) (w : W) : Prop :=
  ∃ slot, s.mem.slots.get key = some slot ∧ slot.waker d = some w

/-- Another slot is freed. -/
theorem HeldAt.free {s : World W} {key k : Nat} {d : Direction} {w : W} (h : HeldAt s key d w)
    (hne : key ≠ k) {slot : Slot W} {p : Nat} (hw : slot.windows = some p) {s' : World W}
    (hm : s'.mem = s.mem.free k slot) : HeldAt s' key d w := by
  obtain ⟨held, hheld, hwaker⟩ := h
  refine ⟨held, ?_, hwaker⟩
  rw [hm, Memory.free_eq hw]
  simp only [Slab.get_remove, if_neg hne]
  exact hheld

/-- A write to another slot, or one that keeps the waker. -/
theorem HeldAt.modify {s : World W} {key k : Nat} {d : Direction} {w : W} (h : HeldAt s key d w)
    {f : Slot W → Slot W}
    (hf : ∀ slot, k = key → s.mem.slots.get key = some slot → slot.waker d = some w →
      (f slot).waker d = some w)
    {s' : World W} (hm : s'.mem.slots = s.mem.slots.modify k f) : HeldAt s' key d w := by
  obtain ⟨held, hheld, hwaker⟩ := h
  by_cases hk : key = k
  · subst hk
    refine ⟨f held, ?_, hf held rfl hheld hwaker⟩
    rw [hm, Slab.get_modify, if_pos rfl, hheld, Option.map_some]
  · refine ⟨held, ?_, hwaker⟩
    rw [hm, Slab.get_modify, if_neg hk]
    exact hheld

/-- The slot that a `register` has open holds no waker yet. -/
theorem HeldAt.ne_opening {s : World W} {key : Nat} {d : Direction} {w : W} (hi : AfdInv s)
    (ha : ArmedInv s) (h : HeldAt s key d w) {o : Opening} (ho : s.opening = some o) :
    key ≠ o.key := by
  rintro rfl
  obtain ⟨held, hheld, hwaker⟩ := h
  obtain ⟨⟨bare, hbare, hw⟩, _⟩ := hi.books.opening o ho
  rw [hheld] at hbare
  obtain rfl := Option.some.inj hbare
  exact (ha.holder hheld hwaker).2 hw

/-- **A waker leaves its slot to be fired, or is replaced, or is deregistered.** -/
theorem waker_leaves {s s' : World W} {a : Label W} (hi : AfdInv s) (ha : ArmedInv s)
    (hs : next s a = some s') {key : Nat} {d : Direction} {w : W} (h : HeldAt s key d w) :
    HeldAt s' key d w ∨ (∃ w', a = .setWaker (key + 1) d w') ∨ a = .deregister (key + 1)
      ∨ w ∈ s'.poller.pendingWakers := by
  have ⟨held, hheld, hwaker⟩ := h
  have hopen := ha.holder hheld hwaker
  cases next_spec hs with
  | register =>
      refine .inl ⟨held, ?_, hwaker⟩
      simp only [World.register, Slab.get_insert]
      rw [if_neg]
      · exact hheld
      · rintro rfl
        rw [Slab.get_nextKey] at hheld
        exact absurd hheld (by simp)
  | submit _ _ | post | wait _ | goto _ _ _ _ | complete _ _ => exact .inl h
  | abandon ho _ =>
      refine .inl ⟨held, ?_, hwaker⟩
      simp only [World.abandon, Slab.get_remove, if_neg (h.ne_opening hi ha ho)]
      exact hheld
  | store ho _ =>
      refine .inl (h.modify (fun slot hk _ _ => ?_) rfl)
      exact absurd hk.symm (h.ne_opening hi ha ho)
  | @setWaker token e w' =>
      cases token with
      | zero => exact .inl h
      | succ k =>
          by_cases hk : k = key ∧ e = d
          · obtain ⟨rfl, rfl⟩ := hk
            exact .inr (.inl ⟨w', rfl⟩)
          · refine .inl (h.modify (fun slot hkey _ hslot => ?_) rfl)
            have hne : d ≠ e := fun he => hk ⟨hkey, he.symm⟩
            unfold Slot.setWaker
            split
            · exact hslot
            · rw [Slot.waker_set, if_neg hne]
              exact hslot
  | @deregister token =>
      cases token with
      | zero => exact .inl h
      | succ k =>
          by_cases hk : k = key
          · exact .inr (.inr (.inl (by rw [hk])))
          · exact .inl (h.modify (fun slot hkey _ _ => absurd hkey hk) rfl)
  | @dispatch accepted e es ws ks r hp hr =>
      cases e with
      | none =>
          obtain rfl := Option.some.inj hr
          exact .inl h
      | some p =>
          obtain ⟨state, slot, hstate, hslot, hw, _⟩ := hi.entry (p := p) (by rw [hp]; rfl)
          cases hc : slot.cancelled with
          | true =>
              rw [Memory.dispatchEntry_cancelled hstate hslot hc] at hr
              obtain rfl := Option.some.inj hr
              refine .inl (h.free ?_ hw rfl)
              -- the slot that goes is a cancelled one
              rintro rfl
              rw [hheld] at hslot
              obtain rfl := Option.some.inj hslot
              rw [hopen.1] at hc
              exact absurd hc (by simp)
          | false =>
              rw [Memory.dispatchEntry_live hstate hslot hc hw] at hr
              obtain rfl := Option.some.inj hr
              by_cases hkey : key = state.slabKey
              · subst hkey
                rw [hheld] at hslot
                obtain rfl := Option.some.inj hslot
                rcases Slot.complete_waker state.events hwaker with hkept | hfired
                · exact .inl (h.modify (fun _ _ _ _ => hkept) rfl)
                · exact .inr (.inr (.inr (List.mem_append_right _ hfired)))
              · exact .inl (h.modify (fun _ hk _ _ => absurd hk.symm hkey) rfl)
  | @resubmit accepted k ks fs r hp hr =>
      have hturn : s.poller.nextResubmit = some k := by rw [hp]; rfl
      obtain ⟨slot, q, state, hslot, hw, hstate, _⟩ := hi.candidate hturn
      cases hc : slot.cancelled with
      | true =>
          rw [Memory.resubmitOne_cancelled hslot hc] at hr
          obtain rfl := Option.some.inj hr
          refine .inl (h.free ?_ hw rfl)
          rintro rfl
          rw [hheld] at hslot
          obtain rfl := Option.some.inj hslot
          rw [hopen.1] at hc
          exact absurd hc (by simp)
      | false =>
          rw [Memory.resubmitOne_live hslot hc hw hstate] at hr
          obtain rfl := Option.some.inj hr
          cases accepted with
          | true => exact .inl h
          | false =>
              by_cases hkey : key = k
              · subst hkey
                rw [hheld] at hslot
                obtain rfl := Option.some.inj hslot
                exact .inr (.inr (.inr (List.mem_append_right _ (Slot.mem_wakers hwaker))))
              · exact .inl (h.free hkey hw rfl)

/-- What has been taken out is fired, in order. -/
theorem pendingWakers_step {s s' : World W} {a : Label W} (hs : next s a = some s') :
    ∃ more, s.poller.pendingWakers ++ more = fires s a ++ s'.poller.pendingWakers := by
  cases a with
  | poll accepted =>
      have hs : s.poll accepted = some s' := hs
      unfold World.poll at hs
      simp only [fires]
      split at hs
      · exact absurd hs (by simp)
      · split at hs <;> cases hs
        rename_i hp _
        exact ⟨[], by simp [hp, Poller.pendingWakers]⟩
      · rename_i hp
        obtain ⟨r, _, rfl⟩ := Option.map_eq_some_iff.mp hs
        exact ⟨r.toWake, by simp [hp, Poller.pendingWakers]⟩
      · rename_i hp
        cases hs
        exact ⟨[], by simp [hp, Poller.pendingWakers]⟩
      · rename_i hp
        cases hs
        exact ⟨[], by simp [hp, Poller.pendingWakers]⟩
      · split at hs <;> cases hs
        rename_i hp _
        exact ⟨[], by simp [hp, Poller.pendingWakers]⟩
      · rename_i hp
        obtain ⟨r, _, rfl⟩ := Option.map_eq_some_iff.mp hs
        exact ⟨r.failedWakers, by simp [hp, Poller.pendingWakers]⟩
      · rename_i hp
        cases hs
        exact ⟨[], by simp [hp, Poller.pendingWakers]⟩
      · rename_i hp
        cases hs
        exact ⟨[], by simp [hp, Poller.pendingWakers]⟩
      · rename_i hp
        cases hs
        exact ⟨[], by simp [hp, Poller.pendingWakers]⟩
  | wait k =>
      simp only [next] at hs
      split at hs
      · rename_i hp
        split at hs <;> cases hs
        refine ⟨[], ?_⟩
        by_cases hk : k = 0 <;> simp [fires, hp, hk, Poller.pendingWakers]
      · exact absurd hs (by simp)
  | _ =>
      refine ⟨[], ?_⟩
      have hsame : s'.poller = s.poller := by
        cases next_spec hs <;> rfl
      simp [fires, hsame]

/--
**On Windows every slot stays armed, and no stored waker is lost.**

In every reachable state, with any threads registering, setting wakers and deregistering,
and `afd::submit` refusing whatever it likes: a request with the kernel asks for all its
slot was registered for; where the poller has caught up, every slot has such a request;
a waker stored in a slot is fired, or replaced in its own direction, or goes with the
deregistration of its own token; and what the poller has taken out it fires, in order.
A socket whose re-submission was refused has no slot any more.
-/
theorem slots_stay_armed {s : World W} (h : (system W).Reachable s) :
    (∀ p ∈ s.inFlight, ∃ state, s.mem.boxes p = some state ∧ state.events = state.requestedEvents)
    ∧ (s.poller = .idle → s.queued = [] → s.opening = none →
      ∀ key slot, s.mem.slots.get key = some slot →
        ∃ p ∈ s.inFlight, slot.windows = some p
          ∧ ∃ state, s.mem.boxes p = some state ∧ state.slabKey = key
            ∧ state.events = state.requestedEvents)
    ∧ ∀ a s', next s a = some s' →
      (∀ key d w, HeldAt s key d w →
        HeldAt s' key d w ∨ (∃ w', a = .setWaker (key + 1) d w') ∨ a = .deregister (key + 1)
          ∨ w ∈ s'.poller.pendingWakers)
      ∧ ∃ more, s.poller.pendingWakers ++ more = fires s a ++ s'.poller.pendingWakers := by
  obtain ⟨hi, ha⟩ := armedInv_reachable h
  have hflight : ∀ p ∈ s.inFlight,
      ∃ state, s.mem.boxes p = some state ∧ state.events = state.requestedEvents := by
    intro p hp
    have hrefs : 0 < s.refs p := Nat.add_pos_left (List.count_pos_iff.mpr hp) _
    obtain ⟨state, hstate, _⟩ := hi.referenced hrefs
    exact ⟨state, hstate, ha.mask p state hstate (.inl hp)⟩
  refine ⟨hflight, fun hidle hempty hno key slot hslot => ?_, fun a s' hs => ⟨?_, ?_⟩⟩
  · cases hw : slot.windows with
    | none =>
        obtain ⟨o, ho, _⟩ := hi.books.bare key slot hslot hw
        rw [hno] at ho
        exact absurd ho (by simp)
    | some p =>
        have hk := (boxAt_of_get hslot).trans hw
        have hone := hi.books.once key p hk
        simp only [World.refs, World.completions, World.resubmits, hidle, hempty, Poller.entries,
          Poller.toResubmit, List.count_nil] at hone
        have hp : p ∈ s.inFlight := List.count_pos_iff.mp (by omega)
        obtain ⟨state, hstate, hmask⟩ := hflight p hp
        have hkey := hi.books.alive key p hk
        rw [hstate, Option.map_some, Option.some.injEq] at hkey
        exact ⟨p, hp, rfl, state, hstate, hkey, hmask⟩
  · exact fun key d w hheld => waker_leaves hi ha hs hheld
  · exact pendingWakers_step hs

/-- A slot's waker is set, its request completes, is dispatched, fired and submitted again. -/
def firedAndRearmed : List (Label Nat) :=
  [.register { read := true, write := true }, .submit true, .store, .setWaker 1 .read 7,
    .complete 0 POLL_RECEIVE, .wait 1, .poll true, .poll true, .poll true, .poll true, .poll true,
    .poll true, .poll true, .poll true]

theorem slots_stay_armed_firedAndRearmed :
    ((system Nat).exec start firedAndRearmed).poller = .idle
    ∧ ∀ p ∈ ((system Nat).exec start firedAndRearmed).inFlight,
      ∃ state, ((system Nat).exec start firedAndRearmed).mem.boxes p = some state
        ∧ state.events = state.requestedEvents :=
  ⟨by decide +kernel, (slots_stay_armed (System.Reachable.exec (.init rfl))).1⟩

end Nanorun.Reactor.Windows
