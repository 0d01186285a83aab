import Mathlib.Data.List.Nodup
import Nanorun.Reactor.Buffers

/-!
# Cancelled slots

A deregistered slot keeps its box until the step that is still pending for it: the
dispatch of its completion, or the poller's next look at its key. That step frees
both, no other step does, and it is always defined, since a completion never points
at a box that is gone.
-/

namespace Nanorun.Reactor.Windows

open Transition

variable {W : Type}

/-- The slot of `key` has been deregistered and still owns the box at `p`. -/
def CancelledAt (m : Memory W) (key p : Nat) : Prop :=
  ∃ slot, m.slots.get key = some slot ∧ slot.windows = some p ∧ slot.cancelled = true

/-- Slot and box are gone. -/
structure Freed (m m' : Memory W) (key p : Nat) : Prop where
  slot : m'.slots.get key = none
  box : m'.boxes p = none
  dropped : m'.dropped = p :: m.dropped

/-- The step that handles the slot's completion, or its key on the list. -/
def Settles (s : World W) (key p : Nat) : Label W → Prop
  | .poll _ => s.poller.nextEntry = some p ∨ s.poller.nextResubmit = some key
  | _ => False

theorem freed_free {m : Memory W} {key p : Nat} {slot : Slot W} (hw : slot.windows = some p) :
    Freed m (m.free key slot) key p := by
  rw [Memory.free_eq hw]
  exact ⟨by simp only [Slab.get_remove, if_true], Function.update_self p none m.boxes, rfl⟩

namespace CancelledAt

variable {m : Memory W} {key p : Nat}

/-- Writes that leave a cancelled slot what it is. -/
theorem modify (h : CancelledAt m key p) (k : Nat) {f : Slot W → Slot W}
    (hf : ∀ slot, m.slots.get k = some slot → slot.cancelled = true →
      (f slot).windows = slot.windows ∧ (f slot).cancelled = true) :
    CancelledAt { m with slots := m.slots.modify k f } key p := by
  obtain ⟨slot, hslot, hw, hc⟩ := h
  by_cases hk : key = k
  · subst hk
    refine ⟨f slot, ?_, (hf slot hslot hc).1.trans hw, (hf slot hslot hc).2⟩
    simp only [Slab.get_modify, if_true, hslot, Option.map_some]
  · exact ⟨slot, by simp only [Slab.get_modify, if_neg hk]; exact hslot, hw, hc⟩

theorem remove (h : CancelledAt m key p) {k : Nat} (hne : key ≠ k) {m' : Memory W}
    (hm : m'.slots = m.slots.remove k) : CancelledAt m' key p := by
  obtain ⟨slot, hslot, hw, hc⟩ := h
  exact ⟨slot, by rw [hm, Slab.get_remove, if_neg hne]; exact hslot, hw, hc⟩

theorem free (h : CancelledAt m key p) {k : Nat} (hne : key ≠ k) (slot : Slot W) :
    CancelledAt (m.free k slot) key p := by
  unfold Memory.free
  split
  · exact h.remove hne rfl
  · exact h.remove hne rfl

theorem boxAt (h : CancelledAt m key p) : boxAt m.slots key = some p := by
  obtain ⟨slot, hslot, hw, _⟩ := h
  exact (boxAt_of_get hslot).trans hw

end CancelledAt

/-- The pending step of a cancelled slot is always defined, and frees it. -/
theorem AfdInv.settles {s : World W} (h : AfdInv s) {key p : Nat} (hc : CancelledAt s.mem key p)
    {a : Label W} (ha : Settles s key p a) :
    ∃ s', next s a = some s' ∧ Freed s.mem s'.mem key p := by
  cases a with
  | poll accepted =>
      obtain ⟨slot, hslot, hw, hcan⟩ := hc
      rcases ha with hent | hres
      · obtain ⟨state, slot', hstate, hslot', hw', _⟩ := h.entry hent
        have hk' := (boxAt_of_get hslot').trans hw'
        -- the key that the box names is this slot's
        obtain rfl := h.books.key_unique hk' ((boxAt_of_get hslot).trans hw)
        have hd := Memory.dispatchEntry_cancelled hstate hslot hcan
        obtain ⟨es, ws, ks, hp⟩ := Poller.of_nextEntry hent
        refine ⟨{ s with
          mem := s.mem.free state.slabKey slot
          poller := .dispatching es (ws ++ []) (ks ++ []) }, ?_, freed_free hw⟩
        simp only [next, World.poll, hp, hd, Option.map_some]
      · have hd := Memory.resubmitOne_cancelled hslot hcan accepted
        obtain ⟨ks, fs, hp⟩ := Poller.of_nextResubmit hres
        refine ⟨{ s with
          mem := s.mem.free key slot
          poller := .resubmitting ks (fs ++ []) }, ?_, freed_free hw⟩
        simp only [next, World.poll, hp, hd, Option.map_some, Option.toList_none, List.nil_append]
  | _ => exact ha.elim

/-- A turn of phase 1 leaves the other cancelled slots alone. -/
theorem AfdInv.keeps_dispatch {s : World W} (h : AfdInv s) {key p : Nat}
    (hc : CancelledAt s.mem key p) {e : Option Nat} {es : List (Option Nat)} {ws : List W}
    {ks : List Nat} {r : Memory.Dispatched W} (hp : s.poller = .dispatching (e :: es) ws ks)
    (hr : s.mem.dispatchEntry e = some r) (hne : s.poller.nextEntry ≠ some p) :
    CancelledAt r.memory key p := by
  cases e with
  | none =>
      obtain rfl := Option.some.inj hr
      exact hc
  | some q =>
      obtain ⟨state, slot, hstate, hslot, hw, _⟩ := h.entry (p := q) (by rw [hp]; rfl)
      have hkey : key ≠ state.slabKey := by
        rintro rfl
        have heq := hc.boxAt.symm.trans ((boxAt_of_get hslot).trans hw)
        rw [hp] at hne
        exact hne heq.symm
      cases hcan : slot.cancelled with
      | true =>
          rw [Memory.dispatchEntry_cancelled hstate hslot hcan] at hr
          obtain rfl := Option.some.inj hr
          exact hc.free hkey slot
      | false =>
          rw [Memory.dispatchEntry_live hstate hslot hcan hw] at hr
          obtain rfl := Option.some.inj hr
          obtain ⟨own, hown, hrest⟩ := hc
          exact ⟨own, by simp only [Slab.get_modify, if_neg hkey]; exact hown, hrest⟩

/-- So does a turn of phase 3. -/
theorem AfdInv.keeps_resubmit {s : World W} (h : AfdInv s) {key p : Nat}
    (hc : CancelledAt s.mem key p) {k : Nat} {accepted : Bool} {r : Memory.Resubmitted W}
    (hturn : s.poller.nextResubmit = some k) (hr : s.mem.resubmitOne k accepted = some r)
    (hkey : key ≠ k) : CancelledAt r.memory key p := by
  obtain ⟨slot, q, state, hslot, hw, hstate, _⟩ := h.candidate hturn
  cases hcan : slot.cancelled with
  | true =>
      rw [Memory.resubmitOne_cancelled hslot hcan] at hr
      obtain rfl := Option.some.inj hr
      exact hc.free hkey slot
  | false =>
      rw [Memory.resubmitOne_live hslot hcan hw hstate] at hr
      obtain rfl := Option.some.inj hr
      cases accepted with
      | true => exact hc
      | false => exact hc.free hkey slot

/-- Until its pending step, a cancelled slot stays and keeps its box. -/
theorem AfdInv.keeps {s s' : World W} (h : AfdInv s) {key p : Nat} (hc : CancelledAt s.mem key p)
    {a : Label W} (hs : next s a = some s') (ha : ¬ Settles s key p a) :
    CancelledAt s'.mem key p := by
  -- the slot being registered has no box yet
  have hopening : ∀ {o}, s.opening = some o → key ≠ o.key := by
    rintro o hopen rfl
    have hbare := (h.books.opening_bare hopen).1
    rw [hc.boxAt] at hbare
    exact absurd hbare (by simp)
  cases next_spec hs with
  | register =>
      obtain ⟨slot, hslot, hrest⟩ := hc
      refine ⟨slot, ?_, hrest⟩
      show (s.mem.slots.insert (Slot.new s.nextPtr)).get key = some slot
      rw [Slab.get_insert, if_neg]
      · exact hslot
      -- `insert` hands out a vacant key
      · rintro rfl
        rw [Slab.get_nextKey] at hslot
        exact absurd hslot (by simp)
  | submit => exact hc
  | abandon hopen _ => exact hc.remove (hopening hopen) rfl
  | store hopen _ =>
      obtain ⟨slot, hslot, hrest⟩ := hc
      refine ⟨slot, ?_, hrest⟩
      simp only [World.store, Slab.get_modify, if_neg (hopening hopen)]
      exact hslot
  | @setWaker token d w =>
      cases token with
      | zero => exact hc
      | succ k =>
          -- a cancelled slot takes no waker
          refine hc.modify k ?_
          intro slot _ hcan
          rw [Slot.setWaker_of_cancelled hcan]
          exact ⟨rfl, hcan⟩
  | @deregister token =>
      cases token with
      | zero => exact hc
      | succ k => exact hc.modify k (fun slot _ _ => ⟨slot.cancel_windows, slot.cancel_cancelled⟩)
  | complete | post | wait | goto => exact hc
  | dispatch hp hr => exact h.keeps_dispatch hc hp hr (fun hent => ha (.inl hent))
  | @resubmit accepted k ks fs r hp hr =>
      have hturn : s.poller.nextResubmit = some k := by rw [hp]; rfl
      refine h.keeps_resubmit hc hturn hr ?_
      rintro rfl
      exact ha (.inr hturn)

/-! ## The result -/

/-- Buffers and slots are in order. -/
structure BuffersSafe (s : World W) : Prop where
  /-- The buffer of a slot is waited for in exactly one place. -/
  once : ∀ key slot p, s.mem.slots.get key = some slot → slot.windows = some p →
    s.inFlight.count p + s.completions p + s.resubmits key = 1
  /-- A box that the kernel or a completion refers to is there, and its slot, or the `register`
  that is about to give it to its slot, owns it. -/
  referenced : ∀ p, 0 < s.inFlight.count p + s.completions p →
    ∃ state, s.mem.boxes p = some state
      ∧ ((∃ slot, s.mem.slots.get state.slabKey = some slot ∧ slot.windows = some p)
        ∨ s.opening = some { key := state.slabKey, ptr := p, submitted := true })
  /-- A completion that is dispatched points at a box that its slot owns. -/
  dequeued : ∀ p, s.poller.nextEntry = some p →
    ∃ state slot, s.mem.boxes p = some state ∧ s.mem.slots.get state.slabKey = some slot
      ∧ slot.windows = some p
  inFlight_nodup : s.inFlight.Nodup
  /-- A dropped box was dropped once, and nothing refers to it. -/
  dropped : s.mem.dropped.Nodup
    ∧ ∀ p ∈ s.mem.dropped, s.mem.boxes p = none ∧ s.inFlight.count p + s.completions p = 0
  /-- A cancelled slot is freed by its pending step and by no other. -/
  cancelled : ∀ key p, CancelledAt s.mem key p → p ∉ s.mem.dropped
    ∧ ∀ a, (Settles s key p a → ∃ s', (system W).step s a = some s' ∧ Freed s.mem s'.mem key p)
      ∧ ∀ s', (system W).step s a = some s' → ¬ Settles s key p a → CancelledAt s'.mem key p
  /-- Once the poller is through, a cancelled slot waits for the kernel only. -/
  reclaimed : s.poller = .idle → s.queued = [] → ∀ key p, CancelledAt s.mem key p → p ∈ s.inFlight

theorem AfdInv.refs_le_one {s : World W} (h : AfdInv s) (p : Nat) : s.refs p ≤ 1 := by
  by_contra hmany
  rcases h.books.owned p (by omega) with ⟨key, hk⟩ | ⟨o, ho, rfl⟩
  · have := h.books.once key p hk
    omega
  · have hrefs := (h.books.opening o ho).2.2
    split at hrefs <;> omega

theorem AfdInv.referenced {s : World W} (h : AfdInv s) {p : Nat} (hp : 0 < s.refs p) :
    ∃ state, s.mem.boxes p = some state
      ∧ ((∃ slot, s.mem.slots.get state.slabKey = some slot ∧ slot.windows = some p)
        ∨ s.opening = some { key := state.slabKey, ptr := p, submitted := true }) := by
  rcases h.books.owned p hp with ⟨key, hk⟩ | ⟨o, ho, rfl⟩
  · obtain ⟨slot, hslot, hw⟩ := boxAt_eq_some hk
    obtain ⟨state, hstate, rfl⟩ := Option.map_eq_some_iff.mp (h.books.alive key p hk)
    exact ⟨state, hstate, .inl ⟨slot, hslot, hw⟩⟩
  · obtain ⟨_, hkey, hrefs⟩ := h.books.opening o ho
    obtain ⟨state, hstate, hkey'⟩ := Option.map_eq_some_iff.mp hkey
    refine ⟨state, hstate, .inr ?_⟩
    -- a reference means that it has been submitted
    cases hsub : o.submitted with
    | false =>
        rw [hrefs, hsub] at hp
        exact absurd hp (by simp)
    | true =>
        rw [ho, hkey', ← hsub]

/--
**AFD-poll buffers outlive their requests, and cancelled slots are reclaimed.**

In every reachable state, whatever the interleaving of registrations, wakers,
deregistrations, kernel completions and the poller's phases.
-/
theorem afd_buffers {s : World W} (h : (system W).Reachable s) : BuffersSafe s := by
  have hi := afdInv_reachable h
  refine ⟨?_, fun p hp => hi.referenced hp, ?_, ?_, ⟨hi.books.nodup, ?_⟩, ?_, ?_⟩
  · intro key slot p hslot hw
    exact hi.books.once key p ((boxAt_of_get hslot).trans hw)
  · intro p hp
    obtain ⟨state, slot, hstate, hslot, hw, _⟩ := hi.entry hp
    exact ⟨state, slot, hstate, hslot, hw⟩
  · refine List.nodup_iff_count_le_one.mpr ?_
    intro p
    exact Nat.le_trans (Nat.le_add_right _ _) (hi.refs_le_one p)
  · intro p hp
    have hnone := (hi.books.gone p hp).2
    refine ⟨hnone, ?_⟩
    by_contra hpos
    obtain ⟨state, hstate, _⟩ := hi.referenced (p := p) (Nat.pos_of_ne_zero hpos)
    rw [hnone] at hstate
    exact absurd hstate (by simp)
  · intro key p hc
    refine ⟨?_, ?_⟩
    · intro hp
      exact hi.books.alive_ne_none hc.boxAt (hi.books.gone p hp).2
    · intro a
      exact ⟨fun ha => hi.settles hc ha, fun s' hs ha => hi.keeps hc hs ha⟩
  · intro hidle hempty key p hc
    have hone := hi.books.once key p hc.boxAt
    simp only [World.refs, World.completions, World.resubmits, hidle, hempty, Poller.entries,
      Poller.toResubmit, List.count_nil] at hone
    exact List.count_pos_iff.mp (by omega)

/-- A socket is deregistered while the poller fires its waker, between phases 1 and 3. -/
def cancelledBetween : List (Label Nat) :=
  [.register { read := true, write := true }, .submit true, .store, .setWaker 1 .read 7,
    .complete 0 POLL_RECEIVE, .wait 1, .poll true, .poll true, .poll true, .deregister 1]

theorem afd_buffers_cancelledBetween :
    ((system Nat).exec start cancelledBetween).poller = .firing [7] [0]
    ∧ (((system Nat).exec start cancelledBetween).mem.slots.get 0).map Slot.cancelled = some true
    ∧ BuffersSafe ((system Nat).exec start cancelledBetween) :=
  ⟨by decide +kernel, by decide +kernel, afd_buffers (System.Reachable.exec (.init rfl))⟩

end Nanorun.Reactor.Windows
