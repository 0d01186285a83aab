import Nanorun.Reactor.Windows

/-!
# What a buffer is waited for with

The buffer of a slot is always waited for in exactly one place: its request is in
flight, or its completion is queued or dequeued, or its key is on the poller's list
for re-submission. `Books` says so over two counts, how often the kernel's side
refers to an address and how often the list has a key, so that each operation on
the memory has one lemma here about what it does with its unit. Which lists the
counts are taken from does not matter yet.
-/

namespace Nanorun.Reactor.Windows

variable {W : Type}

/-- A `register` that holds the lock. -/
structure Opening where
  key : Nat
  ptr : Nat
  submitted : Bool
  deriving DecidableEq, Repr

/-- The invariant, over the two counts, so that a step says what it does to them. -/
structure Books (m : Memory W) (nextPtr : Nat) (opening : Option Opening)
    (refs resubmits : Nat → Nat) : Prop where
  /-- A box that a slot owns is there and knows the slot's key. -/
  alive : ∀ key p, boxAt m.slots key = some p →
    (m.boxes p).map WindowsSlotState.slabKey = some key
  /-- It is waited for in exactly one place. -/
  once : ∀ key p, boxAt m.slots key = some p → refs p + resubmits key = 1
  /-- What is waited for has a slot, or is being registered. -/
  owned : ∀ p, 0 < refs p →
    (∃ key, boxAt m.slots key = some p) ∨ ∃ o, opening = some o ∧ o.ptr = p
  /-- What is to be submitted again has a box. -/
  listed : ∀ key, 0 < resubmits key → ∃ p, boxAt m.slots key = some p
  /-- The only slot without a box is the one being registered. -/
  bare : ∀ key slot, m.slots.get key = some slot → slot.windows = none →
    ∃ o, opening = some o ∧ o.key = key
  /-- The registration that is under way has its slot, its box, and at most one request. -/
  opening : ∀ o, opening = some o →
    (∃ slot, m.slots.get o.key = some slot ∧ slot.windows = none)
      ∧ (m.boxes o.ptr).map WindowsSlotState.slabKey = some o.key
      ∧ refs o.ptr = if o.submitted then 1 else 0
  /-- Addresses are given out in order. -/
  bound : ∀ p, m.boxes p ≠ none → p < nextPtr
  /-- A dropped box stays dropped. -/
  gone : ∀ p ∈ m.dropped, p < nextPtr ∧ m.boxes p = none
  nodup : m.dropped.Nodup

namespace Books

variable {m m' : Memory W} {n : Nat} {opening : Option Opening} {refs resubmits : Nat → Nat}

/-- An address has one slot. -/
theorem key_unique (h : Books m n opening refs resubmits) {key key' p : Nat}
    (hk : boxAt m.slots key = some p) (hk' : boxAt m.slots key' = some p) : key = key' :=
  Option.some.inj ((h.alive key p hk).symm.trans (h.alive key' p hk'))

theorem alive_ne_none (h : Books m n opening refs resubmits) {key p : Nat}
    (hk : boxAt m.slots key = some p) : m.boxes p ≠ none := by
  intro hnone
  have := h.alive key p hk
  rw [hnone] at this
  exact absurd this (by simp)

/-- The slot being registered has no box, so its address belongs to no slot. -/
theorem opening_bare (h : Books m n opening refs resubmits) {o : Opening} (ho : opening = some o) :
    boxAt m.slots o.key = none ∧ ∀ key, boxAt m.slots key ≠ some o.ptr := by
  obtain ⟨⟨slot, hslot, hw⟩, hkey, _⟩ := h.opening o ho
  have hbare : boxAt m.slots o.key = none := (boxAt_of_get hslot).trans hw
  refine ⟨hbare, ?_⟩
  intro key hk
  obtain rfl := Option.some.inj ((h.alive key o.ptr hk).symm.trans hkey)
  rw [hbare] at hk
  exact absurd hk (by simp)

/-- Wakers, flags and events may change; boxes and occupied slots stay. -/
theorem memory (h : Books m n opening refs resubmits)
    (hbox : ∀ k, boxAt m'.slots k = boxAt m.slots k)
    (hocc : ∀ k, (m'.slots.get k).map Slot.windows = (m.slots.get k).map Slot.windows)
    (hkeys : ∀ p, (m'.boxes p).map WindowsSlotState.slabKey = (m.boxes p).map WindowsSlotState.slabKey)
    (hdrop : m'.dropped = m.dropped) : Books m' n opening refs resubmits := by
  have hnone : ∀ p, m'.boxes p = none ↔ m.boxes p = none := by
    intro p
    rw [← Option.map_eq_none_iff (f := WindowsSlotState.slabKey), hkeys p, Option.map_eq_none_iff]
  refine ⟨?_, ?_, ?_, ?_, ?_, ?_, ?_, ?_, ?_⟩
  · intro key p hk
    rw [hkeys p]
    exact h.alive key p (hbox key ▸ hk)
  · intro key p hk
    exact h.once key p (hbox key ▸ hk)
  · intro p hp
    simp only [hbox]
    exact h.owned p hp
  · intro key hk
    rw [hbox key]
    exact h.listed key hk
  · intro key slot hslot hw
    have hwin := hocc key
    rw [hslot, Option.map_some, hw] at hwin
    obtain ⟨slot', hslot', hw'⟩ := Option.map_eq_some_iff.mp hwin.symm
    exact h.bare key slot' hslot' hw'
  · intro o ho
    obtain ⟨⟨slot, hslot, hw⟩, hkey, hrefs⟩ := h.opening o ho
    refine ⟨?_, (hkeys o.ptr).trans hkey, hrefs⟩
    have hwin := hocc o.key
    rw [hslot, Option.map_some, hw] at hwin
    exact Option.map_eq_some_iff.mp hwin
  · intro p hp
    exact h.bound p (fun hno => hp ((hnone p).mpr hno))
  · intro p hp
    rw [hdrop] at hp
    exact ⟨(h.gone p hp).1, (hnone p).mpr (h.gone p hp).2⟩
  · rw [hdrop]
    exact h.nodup

/-- A write to a slot that leaves its box. -/
theorem modified (h : Books m n opening refs resubmits) (key : Nat) {f : Slot W → Slot W}
    (hf : ∀ slot, m.slots.get key = some slot → (f slot).windows = slot.windows) :
    Books { m with slots := m.slots.modify key f } n opening refs resubmits := by
  refine h.memory (boxAt_modify m.slots key hf) ?_ (fun _ => rfl) rfl
  intro k
  simp only [Slab.get_modify]
  split
  · rename_i hk
    subst hk
    cases hslot : m.slots.get k with
    | none => rfl
    | some slot => simp only [Option.map_some, hf slot hslot]
  · rfl

/-- A write to a box that leaves its key. -/
theorem written (h : Books m n opening refs resubmits) {p : Nat} {state state' : WindowsSlotState}
    (hp : m.boxes p = some state) (hkey : state'.slabKey = state.slabKey) :
    Books { m with boxes := Function.update m.boxes p (some state') } n opening refs resubmits := by
  refine h.memory (fun _ => rfl) (fun _ => rfl) ?_ rfl
  intro q
  by_cases hq : q = p
  · subst hq
    simp only [Function.update_self, Option.map_some, hkey, hp]
  · simp only [Function.update_of_ne hq]

/-- The unit a slot is waited with moves between the kernel's side and the list. -/
theorem moved (h : Books m n none refs resubmits) {key p : Nat} (hk : boxAt m.slots key = some p)
    {refs' resubmits' : Nat → Nat} (hone : refs' p + resubmits' key = 1)
    (hrefs : ∀ q, q ≠ p → refs' q = refs q) (hkeys : ∀ k, k ≠ key → resubmits' k = resubmits k) :
    Books m n none refs' resubmits' := by
  refine ⟨h.alive, ?_, ?_, ?_, h.bare, fun o ho => absurd ho (by simp), h.bound, h.gone, h.nodup⟩
  · intro k q hq
    by_cases hkey : k = key
    · subst hkey
      obtain rfl := Option.some.inj (hk.symm.trans hq)
      exact hone
    -- another key has another box, and its counts have not moved
    · have hqp : q ≠ p := by
        rintro rfl
        exact hkey (h.key_unique hq hk)
      rw [hrefs q hqp, hkeys k hkey]
      exact h.once k q hq
  · intro q hq
    by_cases hqp : q = p
    · exact .inl ⟨key, by rw [hqp]; exact hk⟩
    · rw [hrefs q hqp] at hq
      exact h.owned q hq
  · intro k hkpos
    by_cases hkey : k = key
    · exact ⟨p, by rw [hkey]; exact hk⟩
    · rw [hkeys k hkey] at hkpos
      exact h.listed k hkpos

/-- A slot goes with its box, and nothing is waiting for it any more. -/
theorem free (h : Books m n none refs resubmits) {key p : Nat} {slot : Slot W}
    (hslot : m.slots.get key = some slot) (hw : slot.windows = some p)
    {refs' resubmits' : Nat → Nat} (hp0 : refs' p = 0) (hk0 : resubmits' key = 0)
    (hrefs : ∀ q, q ≠ p → refs' q = refs q) (hkeys : ∀ k, k ≠ key → resubmits' k = resubmits k) :
    Books (m.free key slot) n none refs' resubmits' := by
  have hk : boxAt m.slots key = some p := (boxAt_of_get hslot).trans hw
  have hrest : ∀ k q, boxAt (m.slots.remove key) k = some q →
      k ≠ key ∧ q ≠ p ∧ boxAt m.slots k = some q := by
    intro k q hq
    rw [boxAt_remove] at hq
    split at hq
    · exact absurd hq (by simp)
    · rename_i hne
      refine ⟨hne, ?_, hq⟩
      rintro rfl
      exact hne (h.key_unique hq hk)
  rw [Memory.free_eq hw]
  refine ⟨?_, ?_, ?_, ?_, ?_, fun o ho => absurd ho (by simp), ?_, ?_, ?_⟩
  · intro k q hq
    obtain ⟨_, hqp, hold⟩ := hrest k q hq
    simp only [Function.update_of_ne hqp]
    exact h.alive k q hold
  · intro k q hq
    obtain ⟨hne, hqp, hold⟩ := hrest k q hq
    rw [hrefs q hqp, hkeys k hne]
    exact h.once k q hold
  · intro q hq
    have hqp : q ≠ p := by
      rintro rfl
      omega
    rw [hrefs q hqp] at hq
    -- the owner of a box that is still referred to is not the slot that goes
    rcases h.owned q hq with ⟨k, hold⟩ | ⟨o, ho, _⟩
    · refine .inl ⟨k, ?_⟩
      simp only [boxAt_remove]
      rw [if_neg]
      · exact hold
      · rintro rfl
        exact hqp (Option.some.inj (hold.symm.trans hk))
    · exact absurd ho (by simp)
  · intro k hkpos
    have hne : k ≠ key := by
      rintro rfl
      omega
    rw [hkeys k hne] at hkpos
    obtain ⟨q, hq⟩ := h.listed k hkpos
    exact ⟨q, by simp only [boxAt_remove]; rw [if_neg hne]; exact hq⟩
  · intro k slot' hslot' hw'
    simp only [Slab.get_remove] at hslot'
    split at hslot'
    · exact absurd hslot' (by simp)
    · exact h.bare k slot' hslot' hw'
  · intro q hq
    by_cases hqp : q = p
    · subst hqp
      exact absurd (Function.update_self q none m.boxes) hq
    · simp only [Function.update_of_ne hqp] at hq
      exact h.bound q hq
  · intro q hq
    by_cases hqp : q = p
    · subst hqp
      exact ⟨h.bound q (h.alive_ne_none hk), Function.update_self q none m.boxes⟩
    · simp only [Function.update_of_ne hqp]
      refine h.gone q ?_
      rcases List.mem_cons.mp hq with heq | hq
      · exact absurd heq hqp
      · exact hq
  -- it was alive until now, so it had not been dropped before
  · refine List.nodup_cons.mpr ⟨?_, h.nodup⟩
    intro hmem
    exact h.alive_ne_none hk (h.gone p hmem).2

/-! ### `register` -/

/-- What nothing refers to: the next address, and the next key. -/
theorem fresh (h : Books m n none refs resubmits) :
    m.boxes n = none ∧ refs n = 0 ∧ ∀ key, boxAt m.slots key ≠ some n := by
  have hnone : m.boxes n = none := by
    by_contra hsome
    exact absurd (h.bound n hsome) (by omega)
  have hbox : ∀ key, boxAt m.slots key ≠ some n := by
    intro key hk
    exact h.alive_ne_none hk hnone
  refine ⟨hnone, ?_, hbox⟩
  by_contra hpos
  rcases h.owned n (by omega) with ⟨key, hk⟩ | ⟨o, ho, _⟩
  · exact hbox key hk
  · exact absurd ho (by simp)

theorem opened (h : Books m n none refs resubmits) {state : WindowsSlotState}
    (hkey : state.slabKey = m.slots.nextKey) :
    Books
      { m with
        slots := m.slots.insert (Slot.new n)
        boxes := Function.update m.boxes n (some state) }
      (n + 1) (some { key := m.slots.nextKey, ptr := n, submitted := false }) refs resubmits := by
  obtain ⟨hnone, hrefs, hbox⟩ := h.fresh
  have hsame : ∀ key, boxAt (m.slots.insert (Slot.new n)) key = boxAt m.slots key :=
    boxAt_insert m.slots n
  refine ⟨?_, ?_, ?_, ?_, ?_, ?_, ?_, ?_, h.nodup⟩
  · intro key p hk
    rw [hsame key] at hk
    have hpn : p ≠ n := by
      rintro rfl
      exact hbox key hk
    simp only [Function.update_of_ne hpn]
    exact h.alive key p hk
  · intro key p hk
    exact h.once key p (hsame key ▸ hk)
  · intro p hp
    rcases h.owned p hp with ⟨key, hk⟩ | ⟨o, ho, _⟩
    · exact .inl ⟨key, (hsame key).trans hk⟩
    · exact absurd ho (by simp)
  · intro key hk
    rw [hsame key]
    exact h.listed key hk
  · intro key slot hslot hw
    simp only [Slab.get_insert] at hslot
    split at hslot
    · rename_i hk
      exact ⟨_, rfl, hk.symm⟩
    · obtain ⟨o, ho, _⟩ := h.bare key slot hslot hw
      exact absurd ho (by simp)
  · intro o ho
    obtain rfl := Option.some.inj ho
    refine ⟨⟨Slot.new n, ?_, rfl⟩, ?_, hrefs⟩
    · simp only [Slab.get_insert, if_true]
    · simp only [Function.update_self, Option.map_some, hkey]
  · intro p hp
    by_cases hpn : p = n
    · omega
    · simp only [Function.update_of_ne hpn] at hp
      have := h.bound p hp
      omega
  · intro p hp
    obtain ⟨hlt, hgone⟩ := h.gone p hp
    have hpn : p ≠ n := by omega
    simp only [Function.update_of_ne hpn]
    exact ⟨by omega, hgone⟩

theorem submitted {o : Opening} (h : Books m n (some o) refs resubmits) {refs' : Nat → Nat}
    (hone : refs' o.ptr = 1) (hrefs : ∀ q, q ≠ o.ptr → refs' q = refs q) :
    Books m n (some { o with submitted := true }) refs' resubmits := by
  obtain ⟨_, hnot⟩ := h.opening_bare rfl
  refine ⟨h.alive, ?_, ?_, h.listed, ?_, ?_, h.bound, h.gone, h.nodup⟩
  · intro key p hk
    have hp : p ≠ o.ptr := by
      rintro rfl
      exact hnot key hk
    rw [hrefs p hp]
    exact h.once key p hk
  · intro p hpos
    by_cases hp : p = o.ptr
    · exact .inr ⟨_, rfl, hp.symm⟩
    · rw [hrefs p hp] at hpos
      rcases h.owned p hpos with hslot | ⟨o', ho', hptr⟩
      · exact .inl hslot
      · obtain rfl := Option.some.inj ho'
        exact absurd hptr.symm hp
  · intro key slot hslot hw
    obtain ⟨o', ho', hkey⟩ := h.bare key slot hslot hw
    obtain rfl := Option.some.inj ho'
    exact ⟨_, rfl, hkey⟩
  · intro o' ho'
    obtain rfl := Option.some.inj ho'
    obtain ⟨hslot, hkey, _⟩ := h.opening o rfl
    exact ⟨hslot, hkey, hone⟩

theorem abandoned {o : Opening} (h : Books m n (some o) refs resubmits) (hs : o.submitted = false) :
    Books
      { slots := m.slots.remove o.key
        boxes := Function.update m.boxes o.ptr none
        dropped := o.ptr :: m.dropped } n none refs resubmits := by
  obtain ⟨hbare, hnot⟩ := h.opening_bare rfl
  obtain ⟨_, hkey, hrefs⟩ := h.opening o rfl
  have hsome : m.boxes o.ptr ≠ none := by
    intro hnone
    rw [hnone] at hkey
    exact absurd hkey (by simp)
  have hsame : ∀ key, boxAt (m.slots.remove o.key) key = boxAt m.slots key := by
    intro key
    rw [boxAt_remove]
    split
    · rename_i hk
      rw [hk, hbare]
    · rfl
  refine ⟨?_, ?_, ?_, ?_, ?_, fun o ho => absurd ho (by simp), ?_, ?_, ?_⟩
  · intro key p hk
    rw [hsame key] at hk
    have hp : p ≠ o.ptr := by
      rintro rfl
      exact hnot key hk
    simp only [Function.update_of_ne hp]
    exact h.alive key p hk
  · intro key p hk
    exact h.once key p (hsame key ▸ hk)
  · intro p hpos
    rcases h.owned p hpos with ⟨key, hk⟩ | ⟨o', ho', rfl⟩
    · exact .inl ⟨key, (hsame key).trans hk⟩
    · -- an address that was never submitted has no reference
      obtain rfl := Option.some.inj ho'
      rw [hrefs, hs] at hpos
      exact absurd hpos (by simp)
  · intro key hk
    rw [hsame key]
    exact h.listed key hk
  · intro key slot hslot hw
    simp only [Slab.get_remove] at hslot
    split at hslot
    · exact absurd hslot (by simp)
    · rename_i hne
      obtain ⟨o', ho', hkey'⟩ := h.bare key slot hslot hw
      obtain rfl := Option.some.inj ho'
      exact absurd hkey'.symm hne
  · intro p hp
    by_cases hpo : p = o.ptr
    · subst hpo
      exact absurd (Function.update_self o.ptr none m.boxes) hp
    · simp only [Function.update_of_ne hpo] at hp
      exact h.bound p hp
  · intro p hp
    by_cases hpo : p = o.ptr
    · subst hpo
      exact ⟨h.bound o.ptr hsome, Function.update_self o.ptr none m.boxes⟩
    · simp only [Function.update_of_ne hpo]
      refine h.gone p ?_
      rcases List.mem_cons.mp hp with heq | hp
      · exact absurd heq hpo
      · exact hp
  · refine List.nodup_cons.mpr ⟨?_, h.nodup⟩
    intro hmem
    exact hsome (h.gone o.ptr hmem).2

theorem stored {o : Opening} (h : Books m n (some o) refs resubmits) (hs : o.submitted = true) :
    Books
      { m with slots := m.slots.modify o.key fun slot => { slot with windows := some o.ptr } }
      n none refs resubmits := by
  obtain ⟨hbare, hnot⟩ := h.opening_bare rfl
  obtain ⟨⟨slot, hslot, _⟩, hkey, hrefs⟩ := h.opening o rfl
  have hbox : ∀ key, boxAt (m.slots.modify o.key fun slot => { slot with windows := some o.ptr }) key
      = if key = o.key then some o.ptr else boxAt m.slots key := by
    intro key
    unfold boxAt
    rw [Slab.get_modify, hslot]
    split <;> rfl
  -- a slot without a box is on no list
  have hkey0 : resubmits o.key = 0 := by
    by_contra hpos
    obtain ⟨p, hp⟩ := h.listed o.key (by omega)
    rw [hbare] at hp
    exact absurd hp (by simp)
  refine ⟨?_, ?_, ?_, ?_, ?_, fun o ho => absurd ho (by simp), h.bound, h.gone, h.nodup⟩
  · intro key p hk
    simp only [hbox] at hk
    split at hk
    · rename_i heq
      obtain rfl := Option.some.inj hk
      rw [heq]
      exact hkey
    · exact h.alive key p hk
  · intro key p hk
    simp only [hbox] at hk
    split at hk
    · rename_i heq
      obtain rfl := Option.some.inj hk
      rw [heq, hkey0, hrefs, hs]
      rfl
    · exact h.once key p hk
  · intro p hpos
    rcases h.owned p hpos with ⟨key, hk⟩ | ⟨o', ho', rfl⟩
    · refine .inl ⟨key, ?_⟩
      simp only [hbox]
      rw [if_neg]
      · exact hk
      · rintro rfl
        rw [hbare] at hk
        exact absurd hk (by simp)
    · obtain rfl := Option.some.inj ho'
      exact .inl ⟨o.key, by simp only [hbox, if_true]⟩
  · intro key hkpos
    obtain ⟨p, hp⟩ := h.listed key hkpos
    simp only [hbox]
    split
    · exact ⟨_, rfl⟩
    · exact ⟨p, hp⟩
  · intro key slot' hslot' hw
    simp only [Slab.get_modify] at hslot'
    split at hslot'
    · rw [hslot, Option.map_some] at hslot'
      obtain rfl := Option.some.inj hslot'
      exact absurd hw (by simp)
    · rename_i hne
      obtain ⟨o', ho', hkey'⟩ := h.bare key slot' hslot' hw
      obtain rfl := Option.some.inj ho'
      exact absurd hkey'.symm hne

end Books

end Nanorun.Reactor.Windows
