import Mathlib.Logic.Function.Basic
import Nanorun.Lib.Transition
import Nanorun.Reactor.Linux

/-!
# Events and the registrations they are for

One poller and any number of threads that register, set wakers and deregister. The
poller gets its batch from `epoll_wait` without the slab's lock and takes the lock
to dispatch it. `register` inserts the slot and then adds the descriptor to the
epoll set; `deregister` deletes the descriptor and then removes the slot. So while
a descriptor is in the epoll set, the slot of its token is its own.

In the batch that is no longer so: a slot may be freed and handed out again before
the dispatch, and the new owner's waker is woken for the old one's event. This is
the only way it happens. While no key of an event in the batch is handed out again,
every waker is taken for an event of its own registration.
-/

namespace Nanorun.Reactor

open Transition

namespace Stale

variable {W : Type}

/-- How far a registration is. -/
inductive Stage where
  | unused
  /-- `register` has inserted the slot; `epoll::add` comes next. -/
  | adding (key : Nat)
  /-- In the epoll set. -/
  | live (key : Nat)
  /-- `deregister` has deleted it from the epoll set; the removal comes next. -/
  | removing (key : Nat)
  | over
  deriving DecidableEq, Repr

structure World (W : Type) where
  slots : Slab (Slot W)
  stages : Nat → Stage
  nextReg : Nat
  /-- What `epoll::wait` returned, up to the dispatch. -/
  batch : Option (List Event)
  /-- All wakers taken so far. -/
  taken : List (Taken W)

inductive Label (W : Type) where
  /-- `register`: the insertion. -/
  | insert
  /-- `register`: `epoll::add`; if it fails the slot is removed again. -/
  | add (reg : Nat) (ok : Bool)
  | setWaker (token : Nat) (d : Direction) (waker : W)
  /-- `deregister`: `epoll::delete` succeeds. -/
  | delete (reg : Nat)
  /-- `deregister`: the removal. -/
  | remove (reg : Nat)
  /-- A socket closes whose `deregister` failed, or was not called. -/
  | close (reg : Nat)
  | wait (events : List Event)
  | dispatch
  deriving DecidableEq, Repr

/-- The kernel reports the eventfd and descriptors that are in the epoll set. -/
def Reportable (s : World W) (ev : Event) : Prop :=
  match ev.token with
  | 0 => True
  | key + 1 => s.stages ev.source = .live key

instance decidableReportable (s : World W) (ev : Event) : Decidable (Reportable s ev) :=
  match h : ev.token with
  | 0 => .isTrue (by rw [Reportable, h]; trivial)
  | key + 1 => decidable_of_iff (s.stages ev.source = .live key) (by rw [Reportable, h])

def World.goto (s : World W) (reg : Nat) (stage : Stage) : World W :=
  { s with stages := Function.update s.stages reg stage }

def next (s : World W) : Label W → Option (World W)
  | .insert =>
      some { s with
        slots := s.slots.insert (Slot.new s.nextReg)
        stages := Function.update s.stages s.nextReg (.adding s.slots.nextKey)
        nextReg := s.nextReg + 1 }
  | .add reg ok =>
      match s.stages reg with
      | .adding key =>
          if ok then some (s.goto reg (.live key))
          else some { s.goto reg .over with slots := s.slots.remove key }
      | _ => none
  | .setWaker token d waker => some { s with slots := Reactor.setWaker s.slots token d waker }
  | .delete reg =>
      match s.stages reg with
      | .live key => some (s.goto reg (.removing key))
      | _ => none
  | .remove reg =>
      match s.stages reg with
      | .removing key => some { s.goto reg .over with slots := s.slots.remove key }
      | _ => none
  | .close reg =>
      match s.stages reg with
      | .live _ => some (s.goto reg .over)
      | _ => none
  | .wait events =>
      if s.batch = none ∧ ∀ ev ∈ events, Reportable s ev then some { s with batch := some events }
      else none
  | .dispatch =>
      match s.batch with
      | some events =>
          let r := Reactor.dispatch s.slots events
          some { s with slots := r.1, batch := none, taken := s.taken ++ r.2 }
      | none => none

def start : World W where
  slots := Slab.new
  stages _ := .unused
  nextReg := 0
  batch := none
  taken := []

def system (W : Type) : System (World W) (Label W) where
  init s := s = start
  step := next

/-- Every waker was taken for an event of the registration whose slot it was in. -/
def OwnEvents (s : World W) : Prop := ∀ t ∈ s.taken, t.event.source = t.owner

/-- `insert` hands out no key that an event of the batch carries. -/
def NoReuse (s : World W) : Label W → Prop
  | .insert => ∀ ev ∈ s.batch.getD [], ev.token ≠ s.slots.nextKey + 1
  | _ => True

instance decidableNoReuse (s : World W) : ∀ a : Label W, Decidable (NoReuse s a)
  | .insert => inferInstanceAs (Decidable (∀ ev ∈ s.batch.getD [], _))
  | .add _ _ | .setWaker _ _ _ | .delete _ | .remove _ | .close _ | .wait _ | .dispatch => .isTrue trivial

/-! ## What a step can do -/

/-- The slot a registration has, from the insertion to the removal. -/
def Stage.key : Stage → Option Nat
  | .adding key | .live key | .removing key => some key
  | _ => none

inductive StepTo (s : World W) : Label W → World W → Prop where
  | insert :
      StepTo s .insert
        { s with
          slots := s.slots.insert (Slot.new s.nextReg)
          stages := Function.update s.stages s.nextReg (.adding s.slots.nextKey)
          nextReg := s.nextReg + 1 }
  /-- A registration that has a slot moves on, and keeps the slot or lets it go. -/
  | goto {a : Label W} {reg k : Nat} {stage : Stage} : (s.stages reg).key = some k →
      (∀ k', stage.key = some k' → k' = k) → StepTo s a (s.goto reg stage)
  | removed {a : Label W} {reg key : Nat} : (s.stages reg).key = some key →
      StepTo s a { s.goto reg .over with slots := s.slots.remove key }
  | setWaker {token : Nat} {d : Direction} {w : W} :
      StepTo s (.setWaker token d w) { s with slots := Reactor.setWaker s.slots token d w }
  | wait {events : List Event} : (∀ ev ∈ events, Reportable s ev) →
      StepTo s (.wait events) { s with batch := some events }
  | dispatch {events : List Event} : s.batch = some events →
      StepTo s .dispatch
        { s with
          slots := (Reactor.dispatch s.slots events).1
          batch := none
          taken := s.taken ++ (Reactor.dispatch s.slots events).2 }

theorem next_spec {s s' : World W} {a : Label W} (hs : next s a = some s') : StepTo s a s' := by
  cases a with
  | insert =>
      obtain rfl := Option.some.inj hs
      exact .insert
  | add reg ok =>
      simp only [next] at hs
      split at hs
      · rename_i key hst
        split at hs
        · obtain rfl := Option.some.inj hs
          exact .goto (k := key) (by rw [hst]; rfl) (by simp [Stage.key])
        · obtain rfl := Option.some.inj hs
          exact .removed (by rw [hst]; rfl)
      · exact absurd hs (by simp)
  | setWaker token d w =>
      obtain rfl := Option.some.inj hs
      exact .setWaker
  | delete reg =>
      simp only [next] at hs
      split at hs
      · rename_i key hst
        obtain rfl := Option.some.inj hs
        exact .goto (k := key) (by rw [hst]; rfl) (by simp [Stage.key])
      · exact absurd hs (by simp)
  | remove reg =>
      simp only [next] at hs
      split at hs
      · rename_i key hst
        obtain rfl := Option.some.inj hs
        exact .removed (by rw [hst]; rfl)
      · exact absurd hs (by simp)
  | close reg =>
      simp only [next] at hs
      split at hs
      · rename_i key hst
        obtain rfl := Option.some.inj hs
        exact .goto (k := key) (by rw [hst]; rfl) (by simp [Stage.key])
      · exact absurd hs (by simp)
  | wait events =>
      simp only [next] at hs
      split at hs
      · rename_i hwait
        obtain rfl := Option.some.inj hs
        exact .wait hwait.2
      · exact absurd hs (by simp)
  | dispatch =>
      simp only [next] at hs
      split at hs
      · rename_i events hb
        obtain rfl := Option.some.inj hs
        exact .dispatch hb
      · exact absurd hs (by simp)

/-! ## Registrations in the order of their numbers -/

/-- Registrations are numbered in order. -/
structure SeenInv (s : World W) : Prop where
  fresh : ∀ reg, s.nextReg ≤ reg → s.stages reg = .unused
  /-- What the kernel reported has been registered. -/
  batch : ∀ ev ∈ s.batch.getD [], ev.token ≠ 0 → ev.source < s.nextReg

theorem seenInv_start : SeenInv (start : World W) where
  fresh _ _ := rfl
  batch := by intro ev hev; exact absurd hev (by simp [start])

/-- A registration that has a slot is a known one. -/
theorem SeenInv.lt {s : World W} (h : SeenInv s) {reg k : Nat}
    (hkey : (s.stages reg).key = some k) : reg < s.nextReg := by
  by_contra hge
  rw [h.fresh reg (by omega)] at hkey
  exact absurd hkey (by simp [Stage.key])

theorem SeenInv.goto {s : World W} (h : SeenInv s) {reg key : Nat}
    (hkey : (s.stages reg).key = some key) (stage : Stage) : SeenInv (s.goto reg stage) := by
  refine ⟨?_, h.batch⟩
  intro r hr
  have hr' : s.nextReg ≤ r := hr
  have hlt := h.lt hkey
  have hne : r ≠ reg := by omega
  simp only [World.goto, Function.update_of_ne hne]
  exact h.fresh r hr'

theorem seenInv_step {s s' : World W} {a : Label W} (h : SeenInv s) (hs : next s a = some s') :
    SeenInv s' := by
  cases next_spec hs with
  | insert =>
      refine ⟨?_, ?_⟩
      · intro r hr
        have hr' : s.nextReg + 1 ≤ r := hr
        have hne : r ≠ s.nextReg := by omega
        simp only [Function.update_of_ne hne]
        exact h.fresh r (by omega)
      · intro ev hev htok
        exact Nat.lt_succ_of_lt (h.batch ev hev htok)
  | goto hkey _ => exact h.goto hkey _
  | removed hkey => exact ⟨(h.goto hkey .over).fresh, h.batch⟩
  | setWaker => exact ⟨h.fresh, h.batch⟩
  | wait hrep =>
      refine ⟨h.fresh, ?_⟩
      intro ev hev htok
      have hlive := hrep ev hev
      unfold Reportable at hlive
      split at hlive
      · rename_i hzero
        exact absurd hzero htok
      · rename_i key _
        exact h.lt (k := key) (by rw [hlive]; rfl)
  | dispatch => exact ⟨h.fresh, by intro ev hev; exact absurd hev (by simp)⟩

theorem seenInv_reachable {s : World W} (h : (system W).Reachable s) : SeenInv s :=
  h.invariant (I := SeenInv) (by rintro _ rfl; exact seenInv_start)
    (fun _ _ _ hi hs => seenInv_step hi hs)

/-! ## Who owns a slot -/

/-- Every slot has the registration that it was made for. -/
structure StaleInv (s : World W) : Prop where
  /-- A registration has the slot to itself. -/
  slot : ∀ reg key, (s.stages reg).key = some key → Owns s.slots reg key
  /-- An event in the batch is for the owner of its slot, if the slot still has one. -/
  batch : ∀ ev ∈ s.batch.getD [], ∀ key reg, ev.token = key + 1 → Owns s.slots reg key →
    reg = ev.source
  /-- Wakers taken so far were for the socket of their event. -/
  taken : OwnEvents s

theorem staleInv_start : StaleInv (start : World W) where
  slot := by intro reg key h; exact absurd h (by simp [start, Stage.key])
  batch := by intro ev hev; exact absurd hev (by simp [start])
  taken := by intro t ht; exact absurd ht (by simp [start])

/-- A registration moves on and keeps its slot, or gives it up. -/
theorem StaleInv.goto {s : World W} (h : StaleInv s) {reg : Nat} (stage : Stage)
    (hkey : ∀ key, stage.key = some key → (s.stages reg).key = some key) :
    StaleInv (s.goto reg stage) := by
  refine ⟨?_, h.batch, h.taken⟩
  intro r key hk
  by_cases hr : r = reg
  · subst hr
    simp only [World.goto, Function.update_self] at hk
    exact h.slot r key (hkey key hk)
  · simp only [World.goto, Function.update_of_ne hr] at hk
    exact h.slot r key hk

/-- A registration gives its slot up and the slot is removed. -/
theorem StaleInv.removed {s : World W} (h : StaleInv s) {reg key : Nat}
    (hkey : (s.stages reg).key = some key) :
    StaleInv { s.goto reg .over with slots := s.slots.remove key } := by
  have hown := h.slot reg key hkey
  refine ⟨?_, ?_, h.taken⟩
  · intro r k hk
    by_cases hr : r = reg
    · subst hr
      simp only [World.goto, Function.update_self] at hk
      exact absurd hk (by simp [Stage.key])
    · simp only [World.goto, Function.update_of_ne hr] at hk
      have hr' := h.slot r k hk
      -- two registrations with one key would be one owner
      refine hr'.remove ?_
      rintro rfl
      exact hr (hr'.unique hown)
  · intro ev hev k r htok hr
    -- the freed slot has no owner left that the batch could be wrong about
    have hne : k ≠ key := by
      rintro rfl
      have hnone : (s.slots.remove k).get k = none := by rw [Slab.get_remove, if_pos rfl]
      have hr' : ((s.slots.remove k).get k).map Slot.owner = some r := hr
      rw [hnone] at hr'
      exact absurd hr' (by simp)
    refine h.batch ev hev k r htok ?_
    have hr' : ((s.slots.remove key).get k).map Slot.owner = some r := hr
    rw [Slab.get_remove, if_neg hne] at hr'
    exact hr'

/-- Owners stay as they are. -/
theorem StaleInv.slots {s : World W} (h : StaleInv s) {slots : Slab (Slot W)}
    (hsame : SameOwners s.slots slots) : StaleInv { s with slots := slots } :=
  ⟨fun reg key hk => (Owns.congr hsame).mpr (h.slot reg key hk),
    fun ev hev key reg htok hown => h.batch ev hev key reg htok ((Owns.congr hsame).mp hown), h.taken⟩

theorem StaleInv.inserted {s : World W} (h : StaleInv s) (hok : NoReuse s .insert) :
    StaleInv { s with
      slots := s.slots.insert (Slot.new s.nextReg)
      stages := Function.update s.stages s.nextReg (.adding s.slots.nextKey)
      nextReg := s.nextReg + 1 } := by
  refine ⟨?_, ?_, h.taken⟩
  · intro r key hk
    by_cases hr : r = s.nextReg
    · subst hr
      simp only [Function.update_self, Stage.key, Option.some.injEq] at hk
      subst hk
      exact Owns.inserted s.slots _
    · simp only [Function.update_of_ne hr] at hk
      exact (h.slot r key hk).insert _
  · intro ev hev key r htok hown
    -- this is where a reused key would give an event of the batch a new owner
    have hne : key ≠ s.slots.nextKey := by
      rintro rfl
      exact hok ev hev htok
    refine h.batch ev hev key r htok ?_
    have hown' : ((s.slots.insert (Slot.new s.nextReg)).get key).map Slot.owner = some r := hown
    rw [Slab.get_insert, if_neg hne] at hown'
    exact hown'

theorem StaleInv.dispatched {s : World W} (h : StaleInv s) {events : List Event}
    (hb : s.batch = some events) :
    StaleInv { s with
      slots := (dispatch s.slots events).1
      batch := none
      taken := s.taken ++ (dispatch s.slots events).2 } := by
  have hslots := h.slots (dispatch_owners s.slots events)
  refine ⟨hslots.slot, by intro ev hev; exact absurd hev (by simp), ?_⟩
  intro t ht
  rcases List.mem_append.mp ht with ht | ht
  · exact h.taken t ht
  -- the slot still has the owner it had before the dispatch began
  · obtain ⟨key, slot, hev, htok, hslot, hown, _⟩ := mem_dispatch ht
    have howns : Owns s.slots slot.owner key := by rw [Owns, hslot]; rfl
    have hmem : t.event ∈ s.batch.getD [] := by rw [hb]; exact hev
    rw [hown]
    exact (h.batch t.event hmem key slot.owner htok howns).symm

theorem staleInv_step {s s' : World W} {a : Label W} (h : StaleInv s) (hok : NoReuse s a)
    (hs : next s a = some s') : StaleInv s' := by
  cases next_spec hs with
  | insert => exact h.inserted hok
  | @goto _ reg key stage hkey hsame =>
      refine h.goto stage ?_
      intro k hk
      rw [hsame k hk]
      exact hkey
  | removed hkey => exact h.removed hkey
  | @setWaker token d w => exact h.slots (setWaker_owners s.slots token d w)
  | wait hrep =>
      refine ⟨h.slot, ?_, h.taken⟩
      -- a descriptor in the epoll set has its slot to itself
      intro ev hev key reg htok hown
      have hlive := hrep ev hev
      rw [Reportable, htok] at hlive
      exact Owns.unique hown (h.slot ev.source key (by rw [hlive]; rfl))
  | dispatch hb => exact h.dispatched hb

theorem staleInv_reachable {s : World W} (h : (system W).ReachableVia NoReuse s) : StaleInv s :=
  h.invariant (I := StaleInv) (by rintro _ rfl; exact staleInv_start)
    (fun _ _ _ hi hok hs => staleInv_step hi hok hs)

/-! ## Reuse -/

/-- A key of the batch that is handed out again: the new owner is woken for an old event. -/
theorem SeenInv.reused {s : World W} (h : SeenInv s) {ev : Event} {d : Direction} (w : W)
    (hev : ev ∈ s.batch.getD []) (htok : ev.token = s.slots.nextKey + 1)
    (hserve : ev.ready.serves d = true) :
    ∃ s', (system W).run s
        [.insert, .add s.nextReg true, .setWaker (s.slots.nextKey + 1) d w, .dispatch] = some s'
      ∧ ¬ OwnEvents s' := by
  obtain ⟨events, hb, hmem⟩ : ∃ events, s.batch = some events ∧ ev ∈ events := by
    cases hb : s.batch with
    | none => rw [hb] at hev; exact absurd hev List.not_mem_nil
    | some events => rw [hb] at hev; exact ⟨events, rfl, hev⟩
  let slots := setWaker (s.slots.insert (Slot.new s.nextReg)) (s.slots.nextKey + 1) d w
  have hown : Owns slots s.nextReg s.slots.nextKey :=
    (Owns.congr (setWaker_owners _ _ d w)).mpr (Owns.inserted s.slots s.nextReg)
  have hwaker : wakerAt slots s.slots.nextKey d = some w := by
    rw [wakerAt_setWaker, if_pos ⟨rfl, rfl⟩, Slab.get_insert, if_pos rfl]
    rfl
  obtain ⟨t, ht, hreg⟩ := dispatch_takes hmem htok hserve hown hwaker
  obtain ⟨key, _, hin, htok', _⟩ := mem_dispatch ht
  -- whichever event took it was reported before the new registration was made
  have hold : t.event.source < s.nextReg :=
    h.batch t.event (by rw [hb]; exact hin) (by rw [htok']; omega)
  let stages := Function.update s.stages s.nextReg (.adding s.slots.nextKey)
  refine ⟨
    { slots := (dispatch slots events).1
      stages := Function.update stages s.nextReg (.live s.slots.nextKey)
      nextReg := s.nextReg + 1
      batch := none
      taken := s.taken ++ (dispatch slots events).2 }, ?_, ?_⟩
  · simp only [System.run, system, next, World.goto, Function.update_self, Option.bind_some, if_true,
      hb, slots, stages]
  · intro hall
    have heq := hall t (List.mem_append.mpr (.inr ht))
    rw [hreg] at heq
    omega

/--
**A readiness event is never dispatched to another registration, as long as no key is reused
between the wait and the dispatch.**

In every run in which `Slab::insert` hands out no key that an event of the poller's
batch carries, every waker that `Inner::poll` takes out of a slot is taken for an
event that the kernel reported for the registration owning that slot. In any
reachable state where the next key is one that an event of the batch carries, a new
registration that waits for what the event reports is woken for it.
-/
theorem event_own_registration :
    (∀ s : World W, (system W).ReachableVia NoReuse s → ∀ t ∈ s.taken, t.event.source = t.owner)
    ∧ ∀ (s : World W) (ev : Event) (d : Direction) (w : W), (system W).Reachable s →
        ev ∈ s.batch.getD [] → ev.token = s.slots.nextKey + 1 → ev.ready.serves d = true →
        ∃ s', (system W).run s
            [.insert, .add s.nextReg true, .setWaker (s.slots.nextKey + 1) d w, .dispatch] = some s'
          ∧ ∃ t ∈ s'.taken, t.event.source ≠ t.owner := by
  refine ⟨fun s h => (staleInv_reachable h).taken, ?_⟩
  intro s ev d w hreach hev htok hserve
  obtain ⟨s', hrun, hbad⟩ := (seenInv_reachable hreach).reused w hev htok hserve
  refine ⟨s', hrun, ?_⟩
  by_contra hnone
  refine hbad fun t ht => ?_
  by_contra hne
  exact hnone ⟨t, ht, hne⟩

/-- A readable event of registration `source` under `token`. -/
def readable (token source : Nat) : Event where
  token := token
  ready := { readable := true, writable := false, error := false, hangup := false }
  source := source

/-- A socket is registered, waits for input and is woken. -/
def oneWaiter : List (Label Nat) :=
  [.insert, .add 0 true, .setWaker 1 .read 7, .wait [readable 1 0], .dispatch]

theorem event_own_registration_oneWaiter :
    ((system Nat).exec start oneWaiter).taken.length = 1
    ∧ ∀ t ∈ ((system Nat).exec start oneWaiter).taken, t.event.source = t.owner :=
  ⟨by decide +kernel,
    event_own_registration.1 _ (System.ReachableVia.exec (.init rfl) (by decide +kernel))⟩

/-- Between the wait and the dispatch the first socket goes and a second one gets its slot. -/
def reused : List (Label Nat) :=
  [.insert, .add 0 true, .wait [readable 1 0], .delete 0, .remove 0, .insert, .add 1 true,
    .setWaker 1 .read 7, .dispatch]

theorem event_other_registration : ∃ s : World Nat, (system Nat).Reachable s
    ∧ ∃ t ∈ s.taken, t.event.source ≠ t.owner := by
  refine ⟨(system Nat).exec start reused, System.Reachable.exec (.init rfl), ?_⟩
  decide +kernel

end Stale

end Nanorun.Reactor
