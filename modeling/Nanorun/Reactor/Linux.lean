import Nanorun.Reactor.Slab

/-!
# The Linux reactor

`reactor/linux.rs`: a slab of slots behind a mutex, an epoll instance and an
eventfd. A token is a slab key plus one; token 0 is the eventfd. The functions here
are the sections that run under the slab's lock; `register` and `deregister` make
their system call outside it, so systems that care take them in two steps.

Beside the source's fields, a slot remembers the registration it was made for and
an event the registration it was reported for. Nothing reads these.
-/

namespace Nanorun.Reactor

inductive Direction where
  | read
  | write
  deriving DecidableEq, Repr

/-- One waker per direction. -/
structure Slot (W : Type) where
  read : Option W
  write : Option W
  /-- The registration the slot was made for. -/
  owner : Nat
  deriving DecidableEq, Repr

/-- The bits of an epoll event that `poll` looks at. -/
structure Readiness where
  readable : Bool
  writable : Bool
  error : Bool
  hangup : Bool
  deriving DecidableEq, Repr

structure Event where
  token : Nat
  ready : Readiness
  /-- The registration the kernel reported. -/
  source : Nat
  deriving DecidableEq, Repr

/-- A waker taken out of a slot by `poll`, and why. -/
structure Taken (W : Type) where
  waker : W
  direction : Direction
  event : Event
  /-- The registration whose slot it was. -/
  owner : Nat
  deriving DecidableEq, Repr

variable {W : Type}

namespace Slot

/-- `Slot::default()` -/
def new (owner : Nat) : Slot W where
  read := none
  write := none
  owner := owner

def waker (s : Slot W) : Direction → Option W
  | .read => s.read
  | .write => s.write

def set (s : Slot W) (d : Direction) (w : Option W) : Slot W :=
  match d with
  | .read => { s with read := w }
  | .write => { s with write := w }

@[simp] theorem set_owner (s : Slot W) (d : Direction) (w : Option W) :
    (s.set d w).owner = s.owner := by
  cases d <;> rfl

theorem waker_set (s : Slot W) (d d' : Direction) (w : Option W) :
    (s.set d w).waker d' = if d' = d then w else s.waker d' := by
  cases d <;> cases d' <;> rfl

end Slot

namespace Readiness

def errOrHup (r : Readiness) : Bool := r.error || r.hangup

/-- `readable` and `writable` as `poll` computes them. -/
def serves (r : Readiness) : Direction → Bool
  | .read => r.readable || r.errOrHup
  | .write => r.writable || r.errOrHup

end Readiness

/-- `if readable { if let Some(w) = slot.read.take() { .. } }`, and the same for write. -/
def takeFrom (ev : Event) (d : Direction) (s : Slot W) : Slot W × List (Taken W) :=
  if ev.ready.serves d then
    match s.waker d with
    | some w => (s.set d none, [{ waker := w, direction := d, event := ev, owner := s.owner }])
    | none => (s, [])
  else (s, [])

/-- Both directions of one event. -/
def Slot.dispatch (s : Slot W) (ev : Event) : Slot W × List (Taken W) :=
  let r := takeFrom ev .read s
  let q := takeFrom ev .write r.1
  (q.1, r.2 ++ q.2)

/-- One turn of the loop in `Inner::poll`. -/
def dispatchOne (slots : Slab (Slot W)) (ev : Event) : Slab (Slot W) × List (Taken W) :=
  match ev.token with
  -- the eventfd, and keys that have been freed since, wake nobody
  | 0 => (slots, [])
  | key + 1 =>
      match slots.get key with
      | some slot => (slots.modify key fun s => (s.dispatch ev).1, (slot.dispatch ev).2)
      | none => (slots, [])

/-- `Inner::poll` from the lock to the release, and what it is going to wake. -/
def dispatch (slots : Slab (Slot W)) : List Event → Slab (Slot W) × List (Taken W)
  | [] => (slots, [])
  | ev :: evs =>
      let r := dispatchOne slots ev
      let q := dispatch r.1 evs
      (q.1, r.2 ++ q.2)

/-- `Inner::set_waker` -/
def setWaker (slots : Slab (Slot W)) (token : Nat) (d : Direction) (w : W) : Slab (Slot W) :=
  match token with
  | 0 => slots
  | key + 1 => slots.modify key fun s => s.set d (some w)

/-! ## What dispatch does to one slot -/

theorem takeFrom_owner (ev : Event) (d : Direction) (s : Slot W) :
    (takeFrom ev d s).1.owner = s.owner := by
  unfold takeFrom
  split
  · split
    · exact s.set_owner d none
    · rfl
  · rfl

/-- What is taken was there, and the event serves its direction. -/
theorem mem_takeFrom {ev : Event} {d : Direction} {s : Slot W} {t : Taken W}
    (h : t ∈ (takeFrom ev d s).2) :
    t.direction = d ∧ t.event = ev ∧ t.owner = s.owner ∧ s.waker d = some t.waker
      ∧ ev.ready.serves d = true := by
  unfold takeFrom at h
  split at h
  · rename_i hserve
    split at h
    · rename_i w hw
      obtain rfl := List.mem_singleton.mp h
      exact ⟨rfl, rfl, rfl, hw, hserve⟩
    · exact absurd h List.not_mem_nil
  · exact absurd h List.not_mem_nil

/-- Every waker is kept or taken. -/
theorem takeFrom_keeps (ev : Event) (d : Direction) {d' : Direction} {s : Slot W} {w : W}
    (h : s.waker d' = some w) :
    (takeFrom ev d s).1.waker d' = some w
    ∨ ∃ t ∈ (takeFrom ev d s).2, t.waker = w ∧ t.direction = d' := by
  unfold takeFrom
  split
  · split
    · rename_i v hv
      by_cases hd : d' = d
      · subst hd
        obtain rfl := Option.some.inj (hv.symm.trans h)
        exact .inr ⟨_, List.mem_singleton_self _, rfl, rfl⟩
      · left
        rw [Slot.waker_set, if_neg hd]
        exact h
    · exact .inl h
  · exact .inl h

theorem takeFrom_subset {ev : Event} {d d' : Direction} {s : Slot W} {w : W}
    (h : (takeFrom ev d s).1.waker d' = some w) : s.waker d' = some w := by
  unfold takeFrom at h
  split at h
  · split at h
    · rw [Slot.waker_set] at h
      split at h
      · exact absurd h (by simp)
      · exact h
    · exact h
  · exact h

namespace Slot

theorem dispatch_owner (s : Slot W) (ev : Event) : (s.dispatch ev).1.owner = s.owner :=
  (takeFrom_owner ev .write _).trans (takeFrom_owner ev .read s)

theorem mem_dispatch {s : Slot W} {ev : Event} {t : Taken W} (h : t ∈ (s.dispatch ev).2) :
    t.event = ev ∧ t.owner = s.owner ∧ s.waker t.direction = some t.waker
      ∧ ev.ready.serves t.direction = true := by
  rcases List.mem_append.mp h with h | h
  · obtain ⟨hd, hev, hown, hw, hserve⟩ := mem_takeFrom h
    rw [hd]
    exact ⟨hev, hown, hw, hserve⟩
  -- for the write half the slot has already lost its read waker
  · obtain ⟨hd, hev, hown, hw, hserve⟩ := mem_takeFrom h
    rw [hd]
    exact ⟨hev, hown.trans (takeFrom_owner ev .read s), takeFrom_subset hw, hserve⟩

theorem dispatch_keeps {s : Slot W} (ev : Event) {d : Direction} {w : W} (h : s.waker d = some w) :
    (s.dispatch ev).1.waker d = some w
    ∨ ∃ t ∈ (s.dispatch ev).2, t.waker = w ∧ t.direction = d := by
  rcases takeFrom_keeps ev .read h with hkeep | ⟨t, ht, hw⟩
  · rcases takeFrom_keeps ev .write hkeep with hkeep' | ⟨t, ht, hw⟩
    · exact .inl hkeep'
    · exact .inr ⟨t, List.mem_append.mpr (.inr ht), hw⟩
  · exact .inr ⟨t, List.mem_append.mpr (.inl ht), hw⟩

end Slot

/-- A waker is taken if the event serves its direction. -/
theorem Slot.dispatch_takes {s : Slot W} {ev : Event} {d : Direction} {w : W}
    (h : s.waker d = some w) (hserve : ev.ready.serves d = true) :
    ∃ t ∈ (s.dispatch ev).2, t.owner = s.owner := by
  have htake : ∀ s' : Slot W, s'.waker d = some w →
      ∃ t ∈ (takeFrom ev d s').2, t.owner = s'.owner := by
    intro s' hw
    unfold takeFrom
    rw [if_pos hserve, hw]
    exact ⟨_, List.mem_singleton_self _, rfl⟩
  cases d with
  | read =>
      obtain ⟨t, ht, hown⟩ := htake s h
      exact ⟨t, List.mem_append.mpr (.inl ht), hown⟩
  | write =>
      rcases takeFrom_keeps ev .read h with hkeep | ⟨t, ht, _, hd⟩
      · obtain ⟨t, ht, hown⟩ := htake _ hkeep
        exact ⟨t, List.mem_append.mpr (.inr ht), hown.trans (takeFrom_owner ev .read s)⟩
      · -- the read half takes no write wakers
        have hd' := (mem_takeFrom ht).1
        rw [hd] at hd'
        exact absurd hd' (by simp)

/-! ## What dispatch does to the slab -/

/-- Slots keep their owners and none comes or goes. -/
def SameOwners (a b : Slab (Slot W)) : Prop := ∀ key, (b.get key).map Slot.owner = (a.get key).map Slot.owner

theorem dispatchOne_owners (slots : Slab (Slot W)) (ev : Event) :
    SameOwners slots (dispatchOne slots ev).1 := by
  intro k
  unfold dispatchOne
  split
  · rfl
  · split
    · rename_i key slot hslot
      simp only [Slab.get_modify]
      split
      · rename_i hk
        subst hk
        rw [hslot]
        simp only [Option.map_some, Slot.dispatch_owner]
      · rfl
    · rfl

theorem dispatch_owners (slots : Slab (Slot W)) (evs : List Event) :
    SameOwners slots (dispatch slots evs).1 := by
  induction evs generalizing slots with
  | nil => intro key; rfl
  | cons ev evs ih =>
      intro key
      exact (ih (dispatchOne slots ev).1 key).trans (dispatchOne_owners slots ev key)

theorem mem_dispatchOne {slots : Slab (Slot W)} {ev : Event} {t : Taken W}
    (h : t ∈ (dispatchOne slots ev).2) :
    ∃ key slot, ev.token = key + 1 ∧ slots.get key = some slot ∧ t ∈ (slot.dispatch ev).2 := by
  unfold dispatchOne at h
  split at h
  · exact absurd h List.not_mem_nil
  · rename_i key htok
    split at h
    · rename_i slot hslot
      exact ⟨key, slot, htok, hslot, h⟩
    · exact absurd h List.not_mem_nil

/-- A waker is taken for one of the events, out of the slot of its token. -/
theorem mem_dispatch {slots : Slab (Slot W)} {evs : List Event} {t : Taken W}
    (h : t ∈ (dispatch slots evs).2) :
    ∃ key slot, t.event ∈ evs ∧ t.event.token = key + 1 ∧ slots.get key = some slot
      ∧ t.owner = slot.owner ∧ t.event.ready.serves t.direction = true := by
  induction evs generalizing slots with
  | nil => exact absurd h List.not_mem_nil
  | cons ev evs ih =>
      rcases List.mem_append.mp h with h | h
      · obtain ⟨key, slot, htok, hslot, ht⟩ := mem_dispatchOne h
        obtain ⟨hev, hown, _, hserve⟩ := Slot.mem_dispatch ht
        refine ⟨key, slot, by rw [hev]; exact List.mem_cons_self, by rw [hev]; exact htok, hslot, hown,
          by rw [hev]; exact hserve⟩
      · obtain ⟨key, slot, hmem, htok, hslot, hown, hserve⟩ := ih h
        -- the slot had the same owner before
        have hsame := dispatchOne_owners slots ev key
        rw [hslot, Option.map_some] at hsame
        obtain ⟨slot', hslot', hown'⟩ := Option.map_eq_some_iff.mp hsame.symm
        exact ⟨key, slot', List.mem_cons_of_mem _ hmem, htok, hslot', hown.trans hown'.symm, hserve⟩

/-- The waker stored for a key and a direction. -/
def wakerAt (slots : Slab (Slot W)) (key : Nat) (d : Direction) : Option W :=
  (slots.get key).bind fun s => s.waker d

theorem dispatchOne_keeps (slots : Slab (Slot W)) (ev : Event) {key : Nat} {d : Direction} {w : W}
    (h : wakerAt slots key d = some w) :
    wakerAt (dispatchOne slots ev).1 key d = some w
    ∨ ∃ t ∈ (dispatchOne slots ev).2, t.waker = w := by
  unfold dispatchOne
  split
  · exact .inl h
  · rename_i k htok
    split
    · rename_i slot hslot
      by_cases hk : key = k
      · subst hk
        rw [wakerAt, hslot] at h
        rcases Slot.dispatch_keeps ev h with hkeep | ⟨t, ht, hw, _⟩
        · left
          simp only [wakerAt, Slab.get_modify, if_pos, hslot, Option.map_some]
          exact hkeep
        · exact .inr ⟨t, ht, hw⟩
      · left
        simp only [wakerAt, Slab.get_modify, if_neg hk]
        exact h
    · exact .inl h

/-- A stored waker is kept or among those to wake. -/
theorem dispatch_keeps (slots : Slab (Slot W)) (evs : List Event) {key : Nat} {d : Direction} {w : W}
    (h : wakerAt slots key d = some w) :
    wakerAt (dispatch slots evs).1 key d = some w ∨ ∃ t ∈ (dispatch slots evs).2, t.waker = w := by
  induction evs generalizing slots with
  | nil => exact .inl h
  | cons ev evs ih =>
      rcases dispatchOne_keeps slots ev h with hkeep | ⟨t, ht, hw⟩
      · rcases ih _ hkeep with hkeep' | ⟨t, ht, hw⟩
        · exact .inl hkeep'
        · exact .inr ⟨t, List.mem_append.mpr (.inr ht), hw⟩
      · exact .inr ⟨t, List.mem_append.mpr (.inl ht), hw⟩

theorem wakerAt_setWaker (slots : Slab (Slot W)) (key k : Nat) (d d' : Direction) (w : W) :
    wakerAt (setWaker slots (key + 1) d w) k d'
      = if k = key ∧ d' = d then (slots.get key).map fun _ => w else wakerAt slots k d' := by
  simp only [wakerAt, setWaker, Slab.get_modify]
  by_cases hk : k = key
  · subst hk
    cases slots.get k with
    | none => simp
    | some slot => by_cases hd : d' = d <;> simp [Slot.waker_set, hd]
  · simp [hk]

theorem wakerAt_insert (slots : Slab (Slot W)) (new : Nat) {key : Nat} {d : Direction} {w : W}
    (h : wakerAt slots key d = some w) :
    wakerAt (slots.insert (Slot.new new)) key d = some w := by
  have hne : key ≠ slots.nextKey := by
    rintro rfl
    rw [wakerAt, Slab.get_nextKey] at h
    exact absurd h (by simp)
  rw [wakerAt, Slab.get_insert, if_neg hne]
  exact h

theorem wakerAt_remove (slots : Slab (Slot W)) {key k : Nat} (hne : k ≠ key) (d : Direction) :
    wakerAt (slots.remove key) k d = wakerAt slots k d := by
  rw [wakerAt, Slab.get_remove, if_neg hne]
  rfl

/-! ## Owners -/

/-- The slot of `key` was made for `reg`. -/
def Owns (slots : Slab (Slot W)) (reg key : Nat) : Prop :=
  (slots.get key).map Slot.owner = some reg

namespace Owns

theorem unique {slots : Slab (Slot W)} {reg reg' key : Nat} (h : Owns slots reg key)
    (h' : Owns slots reg' key) : reg = reg' :=
  Option.some.inj (h.symm.trans h')

theorem congr {a b : Slab (Slot W)} (h : SameOwners a b) {reg key : Nat} :
    Owns b reg key ↔ Owns a reg key := by
  unfold Owns
  rw [h key]

theorem insert {slots : Slab (Slot W)} {reg key : Nat} (h : Owns slots reg key) (new : Nat) :
    Owns (slots.insert (Slot.new new)) reg key := by
  unfold Owns at *
  rw [Slab.get_insert]
  split
  · rename_i hk
    rw [hk, Slab.get_nextKey] at h
    exact absurd h (by simp)
  · exact h

theorem inserted (slots : Slab (Slot W)) (new : Nat) :
    Owns (slots.insert (Slot.new new)) new slots.nextKey := by
  rw [Owns, Slab.get_insert, if_pos rfl]
  rfl

theorem remove {slots : Slab (Slot W)} {reg key k : Nat} (h : Owns slots reg key)
    (hne : key ≠ k) : Owns (slots.remove k) reg key := by
  unfold Owns at *
  rw [Slab.get_remove, if_neg hne]
  exact h

end Owns

/-- One event takes the waker of a slot, or leaves it and does not serve it. -/
theorem dispatchOne_takes {slots : Slab (Slot W)} (ev : Event) {key reg : Nat} {d : Direction} {w : W}
    (hown : Owns slots reg key) (h : wakerAt slots key d = some w) :
    (∃ t ∈ (dispatchOne slots ev).2, t.owner = reg)
    ∨ (wakerAt (dispatchOne slots ev).1 key d = some w
      ∧ ¬ (ev.token = key + 1 ∧ ev.ready.serves d = true)) := by
  obtain ⟨slot, hslot, hreg⟩ := Option.map_eq_some_iff.mp hown
  have hwaker : slot.waker d = some w := by rw [wakerAt, hslot] at h; exact h
  by_cases htok : ev.token = key + 1
  · have hone : dispatchOne slots ev
        = (slots.modify key fun s => (s.dispatch ev).1, (slot.dispatch ev).2) := by
      simp only [dispatchOne, htok, hslot]
    rw [hone]
    rcases Slot.dispatch_keeps ev hwaker with hkeep | ⟨t, ht, _⟩
    · by_cases hserve : ev.ready.serves d = true
      · obtain ⟨t, ht, ht'⟩ := Slot.dispatch_takes hwaker hserve
        exact .inl ⟨t, ht, ht'.trans hreg⟩
      · refine .inr ⟨?_, fun hboth => hserve hboth.2⟩
        simp only [wakerAt, Slab.get_modify, if_true, hslot, Option.map_some]
        exact hkeep
    · exact .inl ⟨t, ht, (Slot.mem_dispatch ht).2.1.trans hreg⟩
  · refine .inr ⟨?_, fun hboth => htok hboth.1⟩
    unfold dispatchOne
    split
    · exact h
    · rename_i k hk
      split
      · have hne : key ≠ k := by
          rintro rfl
          exact htok hk
        simp only [wakerAt, Slab.get_modify, if_neg hne]
        exact h
      · exact h

/-- An event of the batch that serves a slot's waker takes it, if no earlier one did. -/
theorem dispatch_takes {slots : Slab (Slot W)} {evs : List Event} {ev : Event} {key reg : Nat}
    {d : Direction} {w : W} (hmem : ev ∈ evs) (htok : ev.token = key + 1)
    (hserve : ev.ready.serves d = true) (hown : Owns slots reg key)
    (h : wakerAt slots key d = some w) : ∃ t ∈ (dispatch slots evs).2, t.owner = reg := by
  induction evs generalizing slots with
  | nil => exact absurd hmem List.not_mem_nil
  | cons ev' evs ih =>
      rcases dispatchOne_takes ev' hown h with ⟨t, ht, hreg⟩ | ⟨hkeep, hno⟩
      · exact ⟨t, List.mem_append.mpr (.inl ht), hreg⟩
      · rcases List.mem_cons.mp hmem with rfl | hrest
        · exact absurd ⟨htok, hserve⟩ hno
        · obtain ⟨t, ht, hreg⟩ :=
            ih hrest ((Owns.congr (dispatchOne_owners slots ev')).mpr hown) hkeep
          exact ⟨t, List.mem_append.mpr (.inr ht), hreg⟩

theorem setWaker_owners (slots : Slab (Slot W)) (token : Nat) (d : Direction) (w : W) :
    SameOwners slots (setWaker slots token d w) := by
  intro k
  unfold setWaker
  split
  · rfl
  · rename_i key
    rw [Slab.get_modify]
    split
    · rename_i hk
      subst hk
      cases slots.get k with
      | none => rfl
      | some slot => simp only [Option.map_some, Slot.set_owner]
    · rfl

end Nanorun.Reactor
