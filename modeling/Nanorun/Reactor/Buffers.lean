import Nanorun.Reactor.Afd

/-!
# Every buffer is waited for once

`AfdInv`: the books balance in every reachable state, and the lock has one holder.
Each step moves one unit between the three places or none at all; the two turns
that carry the argument are phase 1, where a completion becomes a key on the list or
takes its slot with it, and phase 3, where a key becomes a request again or takes
its slot with it.
-/

namespace Nanorun.Reactor.Windows

open Transition

variable {W : Type}

/-- The boxes against the kernel, the queue and the poller. -/
structure AfdInv (s : World W) : Prop where
  books : Books s.mem s.nextPtr s.opening s.refs s.resubmits
  /-- The lock has one holder. -/
  lock : s.poller.locked = true → s.opening = none

theorem afdInv_start : AfdInv (start : World W) where
  books := by
    refine ⟨?_, ?_, ?_, ?_, ?_, ?_, ?_, ?_, List.nodup_nil⟩
    · intro key p hk
      exact absurd hk (by simp [start, boxAt])
    · intro key p hk
      exact absurd hk (by simp [start, boxAt])
    · intro p hp
      exact absurd hp (by simp [start, World.refs, World.completions, Poller.entries])
    · intro key hk
      exact absurd hk (by simp [start, World.resubmits, Poller.toResubmit])
    · intro key slot hslot
      exact absurd hslot (by simp [start])
    · intro o ho
      exact absurd ho (by simp [start])
    · intro p hp
      exact absurd rfl hp
    · intro p hp
      exact absurd hp List.not_mem_nil
  lock := by intro h; rfl

namespace AfdInv

/-- Steps that move nothing between the three places. -/
theorem same {s s' : World W} (h : AfdInv s) (hmem : s'.mem = s.mem) (hn : s'.nextPtr = s.nextPtr)
    (ho : s'.opening = s.opening) (hrefs : ∀ p, s'.refs p = s.refs p)
    (hkeys : ∀ key, s'.resubmits key = s.resubmits key)
    (hlock : s'.poller.locked = true → s.opening = none) : AfdInv s' := by
  refine ⟨?_, by rw [ho]; exact hlock⟩
  rw [hmem, hn, ho, funext hrefs, funext hkeys]
  exact h.books

/-- The dequeued completion whose turn it is points at a box that its slot owns. -/
theorem entry {s : World W} (h : AfdInv s) {p : Nat} (hp : s.poller.nextEntry = some p) :
    ∃ state slot, s.mem.boxes p = some state ∧ s.mem.slots.get state.slabKey = some slot
      ∧ slot.windows = some p ∧ s.refs p = 1 ∧ s.resubmits state.slabKey = 0 := by
  obtain ⟨es, ws, ks, hpo⟩ := Poller.of_nextEntry hp
  have hopen : s.opening = none := h.lock (by rw [hpo]; rfl)
  have hpos : 0 < s.refs p := by
    simp only [World.refs, World.completions, hpo, Poller.entries, List.count_cons_self]
    omega
  -- referred to, so it has an owner; the poller holds the lock, so that is not a `register`
  rcases h.books.owned p hpos with ⟨key, hk⟩ | ⟨o, ho, _⟩
  · obtain ⟨slot, hslot, hw⟩ := boxAt_eq_some hk
    obtain ⟨state, hstate, rfl⟩ := Option.map_eq_some_iff.mp (h.books.alive key p hk)
    have hone := h.books.once _ p hk
    exact ⟨state, slot, hstate, hslot, hw, by omega, by omega⟩
  · rw [hopen] at ho
    exact absurd ho (by simp)

/-- The key whose turn it is still has its slot and its box. -/
theorem candidate {s : World W} (h : AfdInv s) {key : Nat} (hp : s.poller.nextResubmit = some key) :
    ∃ slot p state, s.mem.slots.get key = some slot ∧ slot.windows = some p
      ∧ s.mem.boxes p = some state ∧ state.slabKey = key ∧ s.refs p = 0
      ∧ s.resubmits key = 1 := by
  obtain ⟨ks, fs, hpo⟩ := Poller.of_nextResubmit hp
  have hpos : 0 < s.resubmits key := by
    simp only [World.resubmits, hpo, Poller.toResubmit, List.count_cons_self]
    omega
  obtain ⟨p, hk⟩ := h.books.listed key hpos
  obtain ⟨slot, hslot, hw⟩ := boxAt_eq_some hk
  obtain ⟨state, hstate, hkey⟩ := Option.map_eq_some_iff.mp (h.books.alive key p hk)
  have hone := h.books.once key p hk
  exact ⟨slot, p, state, hslot, hw, hstate, hkey, by omega, by omega⟩

/-- One turn of phase 1. -/
theorem dispatched {s : World W} (h : AfdInv s) {e : Option Nat} {es : List (Option Nat)}
    {ws : List W} {ks : List Nat} {r : Memory.Dispatched W}
    (hp : s.poller = .dispatching (e :: es) ws ks) (hr : s.mem.dispatchEntry e = some r) :
    AfdInv { s with
      mem := r.memory
      poller := .dispatching es (ws ++ r.toWake) (ks ++ r.toResubmit) } := by
  have hopen : s.opening = none := h.lock (by rw [hp]; rfl)
  have hb := h.books
  rw [hopen] at hb
  refine ⟨?_, fun _ => hopen⟩
  simp only [hopen]
  cases e with
  | none =>
      obtain rfl := Option.some.inj hr
      refine cast ?_ hb
      congr 1
      · funext p
        simp [World.refs, World.completions, hp, Poller.entries]
      · funext key
        simp [World.resubmits, hp, Poller.toResubmit]
  | some p =>
      obtain ⟨state, slot, hstate, hslot, hw, hone, hzero⟩ := h.entry (p := p) (by rw [hp]; rfl)
      have hk : boxAt s.mem.slots state.slabKey = some p := (boxAt_of_get hslot).trans hw
      -- the unit is in the entry at hand
      have hp1 : s.inFlight.count p + (s.queued.count (some p) + (es.count (some p) + 1)) = 1 := by
        have := hone
        simp only [World.refs, World.completions, hp, Poller.entries, List.count_cons_self] at this
        exact this
      cases hc : slot.cancelled with
      | true =>
          rw [Memory.dispatchEntry_cancelled hstate hslot hc] at hr
          obtain rfl := Option.some.inj hr
          refine hb.free hslot hw ?_ ?_ ?_ ?_
          · simp only [World.refs, World.completions, Poller.entries]
            omega
          · simp only [World.resubmits, Poller.toResubmit, List.append_nil]
            simpa [World.resubmits, hp, Poller.toResubmit] using hzero
          · intro q hq
            have hne : ¬ (some p = some q) := fun heq => hq (Option.some.inj heq).symm
            simp [World.refs, World.completions, hp, Poller.entries, hne]
          · intro k _
            simp [World.resubmits, hp, Poller.toResubmit]
      | false =>
          rw [Memory.dispatchEntry_live hstate hslot hc hw] at hr
          obtain rfl := Option.some.inj hr
          refine Books.modified ?_ state.slabKey ?_
          -- from the dequeued completions to the list
          · refine hb.moved hk ?_ ?_ ?_
            · have hks : ks.count state.slabKey = 0 := by
                simpa [World.resubmits, hp, Poller.toResubmit] using hzero
              simp only [World.refs, World.completions, World.resubmits, Poller.entries,
                Poller.toResubmit, List.count_append, List.count_singleton_self]
              omega
            · intro q hq
              have hne : ¬ (some p = some q) := fun heq => hq (Option.some.inj heq).symm
              simp [World.refs, World.completions, hp, Poller.entries, hne]
            · intro k hne
              simp [World.resubmits, hp, Poller.toResubmit, Ne.symm hne]
          · intro slot' hslot'
            obtain rfl := Option.some.inj (hslot.symm.trans hslot')
            exact slot.complete_windows state.events

/-- One turn of phase 3. -/
theorem resubmitted {s : World W} (h : AfdInv s) {key : Nat} {ks : List Nat} {fs : List W}
    {accepted : Bool} {r : Memory.Resubmitted W} (hp : s.poller = .resubmitting (key :: ks) fs)
    (hr : s.mem.resubmitOne key accepted = some r) :
    AfdInv { s with
      mem := r.memory
      inFlight := r.submitted.toList ++ s.inFlight
      poller := .resubmitting ks (fs ++ r.failedWakers) } := by
  have hopen : s.opening = none := h.lock (by rw [hp]; rfl)
  have hb := h.books
  rw [hopen] at hb
  refine ⟨?_, fun _ => hopen⟩
  simp only [hopen]
  have hturn : s.poller.nextResubmit = some key := by rw [hp]; rfl
  obtain ⟨slot, p, state, hslot, hw, hstate, hkey, hzero, hone⟩ := h.candidate hturn
  have hk : boxAt s.mem.slots key = some p := (boxAt_of_get hslot).trans hw
  have hks : ks.count key = 0 := by
    simpa [World.resubmits, hp, Poller.toResubmit] using hone
  have hcount : s.inFlight.count p + s.queued.count (some p) = 0 := by
    simpa [World.refs, World.completions, hp, Poller.entries] using hzero
  have hother : ∀ k, k ≠ key → ks.count k = s.resubmits k := by
    intro k hne
    simp [World.resubmits, hp, Poller.toResubmit, Ne.symm hne]
  cases hc : slot.cancelled with
  | true =>
      rw [Memory.resubmitOne_cancelled hslot hc] at hr
      obtain rfl := Option.some.inj hr
      refine hb.free hslot hw ?_ hks ?_ hother
      · simp only [World.refs, World.completions, Poller.entries, Option.toList_none, List.nil_append,
          List.count_nil]
        omega
      · intro q _
        simp [World.refs, World.completions, hp, Poller.entries]
  | false =>
      rw [Memory.resubmitOne_live hslot hc hw hstate] at hr
      obtain rfl := Option.some.inj hr
      cases accepted with
      | true =>
          refine Books.written ?_ hstate rfl
          -- from the list back to the kernel
          refine hb.moved hk ?_ ?_ hother
          · simp only [World.refs, World.completions, World.resubmits, Poller.entries,
              Poller.toResubmit, if_true, Option.toList_some, List.singleton_append,
              List.count_cons_self, List.count_nil]
            omega
          · intro q hq
            simp [World.refs, World.completions, hp, Poller.entries, Ne.symm hq]
      -- the kernel refused: nothing is in flight, so the box may go
      | false =>
          refine hb.free hslot hw ?_ hks ?_ hother
          · simp only [World.refs, World.completions, Poller.entries, Bool.false_eq_true, if_false,
              Option.toList_none, List.nil_append, List.count_nil]
            omega
          · intro q _
            simp [World.refs, World.completions, hp, Poller.entries]

/-- The poller goes on with the same lists. -/
theorem goto {s : World W} (h : AfdInv s) {po po' : Poller W} (hp : s.poller = po)
    (hentries : po'.entries = po.entries) (hkeys : po'.toResubmit = po.toResubmit)
    (hlock : po'.locked = true → s.opening = none) : AfdInv { s with poller := po' } := by
  subst hp
  refine h.same rfl rfl rfl ?_ ?_ hlock
  · intro p
    simp only [World.refs, World.completions, hentries]
  · intro key
    simp only [World.resubmits, hkeys]

/-- The kernel's write leaves the key, and the reference moves to the port. -/
theorem completed {s : World W} (h : AfdInv s) {p : Nat} (hp : p ∈ s.inFlight) (events : UInt32)
    {state : WindowsSlotState} (hstate : s.mem.boxes p = some state) :
    AfdInv (s.complete p events state) := by
  have hrefs : (s.complete p events state).refs = s.refs := by
    funext q
    have hpos : 0 < s.inFlight.count p := List.count_pos_iff.mpr hp
    simp only [World.refs, World.completions, World.complete, List.count_erase, List.count_append,
      List.count_singleton]
    by_cases hq : p = q
    · subst hq
      simp only [beq_self_eq_true, if_true]
      omega
    · have hne : ¬ (some p = some q) := fun heq => hq (Option.some.inj heq)
      simp only [beq_iff_eq, hq, hne, if_false]
      omega
  refine ⟨?_, h.lock⟩
  rw [hrefs]
  exact h.books.written hstate rfl

theorem waited {s : World W} (h : AfdInv s) (hp : s.poller = .idle) (n : Nat) :
    AfdInv { s with
      queued := s.queued.drop n
      poller := if n = 0 then .idle else .waited (s.queued.take n) } := by
  have hcount : ∀ q : Option Nat,
      s.queued.count q = (s.queued.take n).count q + (s.queued.drop n).count q := by
    intro q
    rw [← List.count_append, List.take_append_drop]
  by_cases hn : n = 0
  · subst hn
    refine h.same rfl rfl rfl ?_ ?_ (fun hl => absurd hl (by simp [Poller.locked]))
    · intro p
      simp [World.refs, World.completions, hp, Poller.entries]
    · intro key
      simp [World.resubmits, hp, Poller.toResubmit]
  · refine h.same rfl rfl rfl ?_ ?_ (fun hl => absurd hl (by simp [hn, Poller.locked]))
    · intro p
      simp only [World.refs, World.completions, hn, if_false, hp, Poller.entries, hcount (some p),
        List.count_nil]
      omega
    · intro key
      simp [World.resubmits, hn, hp, Poller.toResubmit]

end AfdInv

theorem afdInv_step {s s' : World W} {a : Label W} (h : AfdInv s) (hs : next s a = some s') :
    AfdInv s' := by
  -- while a `register` is open, the poller does not hold the lock
  have hlock : ∀ {o}, s.opening = some o → s.poller.locked = true → False := by
    intro o hopen hl
    have := h.lock hl
    rw [hopen] at this
    exact absurd this (by simp)
  have hb := h.books
  cases next_spec hs with
  | register hopen hfree =>
      rw [hopen] at hb
      refine ⟨hb.opened rfl, ?_⟩
      intro hl
      have hl' : s.poller.locked = true := hl
      rw [hfree] at hl'
      exact absurd hl' (by simp)
  | @submit o hopen hsub =>
      rw [hopen] at hb
      refine ⟨hb.submitted ?_ ?_, fun hl => (hlock hopen hl).elim⟩
      · have hzero : s.refs o.ptr = 0 := by
          rw [(hb.opening o rfl).2.2, hsub]
          rfl
        rw [World.refs] at hzero
        show (o.ptr :: s.inFlight).count o.ptr + s.completions o.ptr = 1
        rw [List.count_cons_self]
        omega
      · intro q hq
        show (o.ptr :: s.inFlight).count q + s.completions q = _
        rw [List.count_cons_of_ne (Ne.symm hq)]
        rfl
  | abandon hopen hsub =>
      rw [hopen] at hb
      exact ⟨hb.abandoned hsub, fun hl => (hlock hopen hl).elim⟩
  | store hopen hsub =>
      rw [hopen] at hb
      exact ⟨hb.stored hsub, fun _ => rfl⟩
  | @setWaker token d w =>
      refine ⟨?_, h.lock⟩
      cases token with
      | zero => exact hb
      | succ key => exact hb.modified key (fun slot _ => slot.setWaker_windows d w)
  | @deregister token =>
      refine ⟨?_, h.lock⟩
      cases token with
      | zero => exact hb
      | succ key => exact hb.modified key (fun slot _ => slot.cancel_windows)
  | complete hmem hstate => exact h.completed hmem _ hstate
  | post =>
      refine h.same rfl rfl rfl ?_ (fun _ => rfl) h.lock
      intro p
      simp [World.refs, World.completions]
  | wait hp => exact h.waited hp _
  | goto hp hentries hkeys hl => exact h.goto hp hentries hkeys hl
  | dispatch hp hr => exact h.dispatched hp hr
  | resubmit hp hr => exact h.resubmitted hp hr

theorem afdInv_reachable {s : World W} (h : (system W).Reachable s) : AfdInv s :=
  h.invariant (I := AfdInv) (by rintro _ rfl; exact afdInv_start)
    (fun _ _ _ hi hs => afdInv_step hi hs)

end Nanorun.Reactor.Windows
