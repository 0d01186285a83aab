import Nanorun.Reactor.Linux

/-!
# What `Inner::poll` wakes

The whole of the Linux `Inner::poll`, with the events as `epoll::wait` fills them in, the
masks it tests and its two early returns. `Linux.lean` has the loop under the lock with the
bits already read; `pollEvents_dispatch` says that the two agree as far as the loop gets.

A waker is stored for a key and a direction. A batch of events fixes which of these places
are served, in whatever order and however often their tokens come: the first event that serves
a place takes its waker, and the others find it empty. So what `poll` wakes is a list
without repetition of the places that are served and hold a waker.
-/

namespace Nanorun.Reactor

variable {W E : Type}

/-- `epoll::Event` -/
structure EpollEvent where
  token : UInt64
  ready : BitVec 32
  deriving DecidableEq, Repr

/-- `epoll::READABLE`, that is `EPOLLIN`. -/
def READABLE : BitVec 32 := 0x001

/-- `epoll::WRITABLE`, that is `EPOLLOUT`. -/
def WRITABLE : BitVec 32 := 0x004

/-- `epoll::ERROR`, that is `EPOLLERR`. -/
def ERROR : BitVec 32 := 0x008

/-- `epoll::HANGUP`, that is `EPOLLHUP`. -/
def HANGUP : BitVec 32 := 0x010

/-- The token of the eventfd. -/
def selfWakeToken : UInt64 := 0

/-- `if ready { if let Some(w) = slot.dir.take() { to_wake.push(w) } }` -/
def Slot.takeIf (s : Slot W) (ready : Bool) (d : Direction) : Slot W × List W :=
  if ready then (s.set d none, (s.waker d).toList) else (s, [])

/--
The loop of `Inner::poll` under the lock; `drain` answers `eventfd::drain`, by the number of
events still to come. A drain that fails returns at once and drops the wakers taken so far.
On a 64-bit target `usize::try_from(token - 1)` cannot fail.
-/
def pollEvents (drain : Nat → Except E Unit) (slots : Slab (Slot W)) (toWake : List W) :
    List EpollEvent → Slab (Slot W) × Except E (List W)
  | [] => (slots, .ok toWake)
  | ev :: evs =>
      if ev.token = selfWakeToken then
        match drain evs.length with
        | .error e => (slots, .error e)
        | .ok () => pollEvents drain slots toWake evs
      else
        let key := (ev.token - 1).toNat
        match slots.get key with
        | none => pollEvents drain slots toWake evs
        | some slot =>
            let errOrHup := ev.ready &&& (ERROR ||| HANGUP) != 0
            let readable := ev.ready &&& READABLE != 0 || errOrHup
            let writable := ev.ready &&& WRITABLE != 0 || errOrHup
            let r := slot.takeIf readable .read
            let q := r.1.takeIf writable .write
            pollEvents drain (slots.modify key fun _ => q.1) (toWake ++ r.2 ++ q.2) evs

/-- What a call of `Inner::poll` leaves, wakes and returns. -/
structure Polled (W E : Type) where
  slots : Slab (Slot W)
  woken : List W
  result : Except E Unit

/-- `Inner::poll`; `wait` is what `epoll::wait` answers. -/
def poll (wait : Except E (List EpollEvent)) (drain : Nat → Except E Unit) (slots : Slab (Slot W)) :
    Polled W E :=
  match wait with
  | .error e => { slots := slots, woken := [], result := .error e }
  | .ok events =>
      if events.length = 0 then { slots := slots, woken := [], result := .ok () }
      else
        match pollEvents drain slots [] events with
        | (slots, .error e) => { slots := slots, woken := [], result := .error e }
        | (slots, .ok toWake) => { slots := slots, woken := toWake, result := .ok () }

/-! ## The bits of an event -/

/-- The event says that a socket is ready in the direction, failed or hung up. -/
def EpollEvent.Serves (ev : EpollEvent) : Direction → Prop
  | .read => ev.ready &&& READABLE ≠ 0 ∨ ev.ready &&& ERROR ≠ 0 ∨ ev.ready &&& HANGUP ≠ 0
  | .write => ev.ready &&& WRITABLE ≠ 0 ∨ ev.ready &&& ERROR ≠ 0 ∨ ev.ready &&& HANGUP ≠ 0

/-- The event as `dispatch` takes it. -/
def EpollEvent.decode (ev : EpollEvent) : Event where
  token := ev.token.toNat
  ready :=
    { readable := ev.ready &&& READABLE != 0
      writable := ev.ready &&& WRITABLE != 0
      error := ev.ready &&& ERROR != 0
      hangup := ev.ready &&& HANGUP != 0 }
  source := 0

theorem errOrHup_eq (ready : BitVec 32) :
    (ready &&& (ERROR ||| HANGUP) != 0) = (ready &&& ERROR != 0 || ready &&& HANGUP != 0) := by
  have hsplit : ready &&& (ERROR ||| HANGUP) = 0 ↔ ready &&& ERROR = 0 ∧ ready &&& HANGUP = 0 := by
    rw [BitVec.and_or_distrib_left]
    exact BitVec.or_eq_zero_iff
  rw [Bool.eq_iff_iff, Bool.or_eq_true, bne_iff_ne, bne_iff_ne, bne_iff_ne, Ne, hsplit]
  exact Decidable.not_and_iff_not_or_not

theorem serves_decode (ev : EpollEvent) (d : Direction) :
    ev.decode.ready.serves d = true ↔ ev.Serves d := by
  cases d <;> simp [EpollEvent.decode, Readiness.serves, Readiness.errOrHup, EpollEvent.Serves]

theorem token_decode {ev : EpollEvent} (h : ev.token ≠ selfWakeToken) :
    ev.decode.token = (ev.token - 1).toNat + 1 := by
  have hne : ev.token.toNat ≠ 0 := fun h0 => h (UInt64.toNat_inj.mp h0)
  have hle : (1 : UInt64) ≤ ev.token := UInt64.le_iff_toNat_le.mpr (Nat.one_le_iff_ne_zero.mpr hne)
  have hsub := UInt64.toNat_sub_of_le _ _ hle
  show ev.token.toNat = _
  rw [hsub]
  show _ = _ - 1 + 1
  omega

/-! ## The loop is `dispatch` -/

theorem Slot.set_none {s : Slot W} {d : Direction} (h : s.waker d = none) : s.set d none = s := by
  cases d with
  | read => cases s; cases h; rfl
  | write => cases s; cases h; rfl

theorem takeIf_eq (ev : Event) (d : Direction) (s : Slot W) :
    s.takeIf (ev.ready.serves d) d
      = ((takeFrom ev d s).1, (takeFrom ev d s).2.map Taken.waker) := by
  unfold Slot.takeIf takeFrom
  split
  · cases hw : s.waker d with
    | none => simp [Slot.set_none hw]
    | some w => rfl
  · rfl

/-- One event that finds a slot. -/
theorem dispatchOne_slot {slots : Slab (Slot W)} {ev : Event} {key : Nat} {slot : Slot W}
    (htok : ev.token = key + 1) (hslot : slots.get key = some slot) :
    dispatchOne slots ev
      = (slots.modify key fun s => (s.dispatch ev).1, (slot.dispatch ev).2) := by
  simp only [dispatchOne, htok, hslot]

theorem dispatchOne_vacant {slots : Slab (Slot W)} {ev : Event} {key : Nat}
    (htok : ev.token = key + 1) (hslot : slots.get key = none) :
    dispatchOne slots ev = (slots, []) := by
  simp only [dispatchOne, htok, hslot]

/-- One turn of the loop: the drain of the self-wake fails, or the event is dispatched. -/
theorem pollEvents_cons (drain : Nat → Except E Unit) (slots : Slab (Slot W)) (toWake : List W)
    (ev : EpollEvent) (evs : List EpollEvent) :
    (∃ e, pollEvents drain slots toWake (ev :: evs) = (slots, .error e))
    ∨ pollEvents drain slots toWake (ev :: evs)
      = pollEvents drain (dispatchOne slots ev.decode).1
          (toWake ++ (dispatchOne slots ev.decode).2.map Taken.waker) evs := by
  by_cases hself : ev.token = selfWakeToken
  · have htok : ev.decode.token = 0 := by
      show ev.token.toNat = 0
      rw [hself]
      rfl
    have hone : dispatchOne slots ev.decode = (slots, []) := by
      simp only [dispatchOne, htok]
    cases hdrain : drain evs.length with
    | error e => exact .inl ⟨e, by simp [pollEvents, hself, hdrain]⟩
    | ok u => exact .inr (by simp [pollEvents, hself, hdrain, hone])
  · have htok := token_decode hself
    refine .inr ?_
    cases hslot : slots.get (ev.token - 1).toNat with
    | none =>
        rw [dispatchOne_vacant htok hslot]
        simp [pollEvents, hself, hslot]
    | some slot =>
        have hread : (ev.ready &&& READABLE != 0 || ev.ready &&& (ERROR ||| HANGUP) != 0)
            = ev.decode.ready.serves .read := by
          rw [errOrHup_eq]
          rfl
        have hwrite : (ev.ready &&& WRITABLE != 0 || ev.ready &&& (ERROR ||| HANGUP) != 0)
            = ev.decode.ready.serves .write := by
          rw [errOrHup_eq]
          rfl
        have hmod : (slots.modify (ev.token - 1).toNat fun _ => (slot.dispatch ev.decode).1)
            = slots.modify (ev.token - 1).toNat fun s => (s.dispatch ev.decode).1 :=
          Slab.modify_congr hslot rfl
        rw [dispatchOne_slot htok hslot, ← hmod]
        simp only [pollEvents, if_neg hself, hslot, hread, hwrite, takeIf_eq, Slot.dispatch,
          List.map_append, List.append_assoc]

/-- The loop dispatches a part of the events, and all of them if it returns `Ok`. -/
theorem pollEvents_dispatch (drain : Nat → Except E Unit) (slots : Slab (Slot W)) (toWake : List W)
    (evs : List EpollEvent) :
    ∃ done : List EpollEvent,
      (pollEvents drain slots toWake evs).1 = (dispatch slots (done.map EpollEvent.decode)).1
      ∧ ∀ woken, (pollEvents drain slots toWake evs).2 = .ok woken →
          done = evs
          ∧ woken = toWake ++ (dispatch slots (evs.map EpollEvent.decode)).2.map Taken.waker := by
  induction evs generalizing slots toWake with
  | nil =>
      refine ⟨[], rfl, fun woken hok => ⟨rfl, ?_⟩⟩
      obtain rfl : toWake = woken := by simpa [pollEvents] using hok
      simp [dispatch]
  | cons ev evs ih =>
      rcases pollEvents_cons drain slots toWake ev evs with ⟨e, hpoll⟩ | hpoll
      · rw [hpoll]
        exact ⟨[], rfl, fun woken hw => absurd hw (by simp)⟩
      · obtain ⟨done, hslots, hok⟩ := ih (dispatchOne slots ev.decode).1
          (toWake ++ (dispatchOne slots ev.decode).2.map Taken.waker)
        rw [hpoll]
        refine ⟨ev :: done, hslots, fun woken hw => ?_⟩
        obtain ⟨rfl, hwoken⟩ := hok woken hw
        refine ⟨rfl, ?_⟩
        rw [hwoken, List.map_cons, dispatch, List.map_append, List.append_assoc]

/-! ## Which places a batch serves -/

/-- A place for a waker. -/
abbrev Place := Nat × Direction

/-- The event is for the key and serves the direction. -/
def Hits (ev : Event) (k : Nat) (d : Direction) : Prop :=
  ev.token = k + 1 ∧ ev.ready.serves d = true

instance decidableHits (ev : Event) (k : Nat) (d : Direction) : Decidable (Hits ev k d) :=
  inferInstanceAs (Decidable (_ ∧ _))

/-- The place a waker was taken from, and the waker. -/
def Taken.from (t : Taken W) : Place × W := ((t.event.token - 1, t.direction), t.waker)

theorem takeFrom_waker (ev : Event) (d d' : Direction) (s : Slot W) :
    (takeFrom ev d s).1.waker d'
      = if d' = d ∧ ev.ready.serves d = true then none else s.waker d' := by
  by_cases hserve : ev.ready.serves d = true
  · cases hw : s.waker d with
    | none =>
        have htake : takeFrom ev d s = (s, []) := by simp [takeFrom, hserve, hw]
        rw [htake]
        split
        · rename_i hd
          rw [hd.1]
          exact hw
        · rfl
    | some w =>
        simp only [takeFrom, hserve, hw, if_true, Slot.waker_set, and_true]
  · have htake : takeFrom ev d s = (s, []) := by rw [takeFrom, if_neg hserve]
    rw [htake, if_neg fun hd => hserve hd.2]

theorem takeFrom_from (ev : Event) (d : Direction) (s : Slot W) :
    (takeFrom ev d s).2.map Taken.from
      = if ev.ready.serves d then (s.waker d).toList.map fun w => ((ev.token - 1, d), w) else [] := by
  unfold takeFrom
  split
  · cases s.waker d with
    | none => rfl
    | some w => rfl
  · rfl

theorem mem_takeFrom_from {ev : Event} {d : Direction} {s : Slot W} {p : Place} {w : W} :
    (p, w) ∈ (takeFrom ev d s).2.map Taken.from
      ↔ p = (ev.token - 1, d) ∧ ev.ready.serves d = true ∧ s.waker d = some w := by
  rw [takeFrom_from]
  split
  · rename_i hserve
    cases s.waker d with
    | none => simp
    | some v => simp [hserve, eq_comm]
  · rename_i hserve
    simp [hserve]

namespace Slot

theorem dispatch_waker (s : Slot W) (ev : Event) (d : Direction) :
    (s.dispatch ev).1.waker d = if ev.ready.serves d = true then none else s.waker d := by
  rw [Slot.dispatch]
  simp only [takeFrom_waker]
  cases d with
  | read => simp
  | write => simp

theorem mem_dispatch_from {s : Slot W} {ev : Event} {k : Nat} {d : Direction} {w : W} :
    ((k, d), w) ∈ (s.dispatch ev).2.map Taken.from
      ↔ k = ev.token - 1 ∧ ev.ready.serves d = true ∧ s.waker d = some w := by
  -- the write half finds the write waker it would have found before the read half
  have hwrite : (takeFrom ev .read s).1.waker .write = s.waker .write := by
    rw [takeFrom_waker, if_neg (by simp)]
  rw [Slot.dispatch]
  simp only [List.map_append, List.mem_append, mem_takeFrom_from, hwrite, Prod.mk.injEq]
  cases d with
  | read => simp
  | write => simp

theorem dispatch_from_nodup (s : Slot W) (ev : Event) :
    (((s.dispatch ev).2.map Taken.from).map Prod.fst).Nodup := by
  simp only [Slot.dispatch, List.map_append, takeFrom_from]
  cases ev.ready.serves .read <;> cases ev.ready.serves .write <;> cases s.waker .read <;>
    cases (takeFrom ev .read s).1.waker .write <;> simp

end Slot

/-! ## One event, then a batch -/

theorem dispatchOne_waker (slots : Slab (Slot W)) (ev : Event) (k : Nat) (d : Direction) :
    wakerAt (dispatchOne slots ev).1 k d = if Hits ev k d then none else wakerAt slots k d := by
  cases htok : ev.token with
  | zero =>
      have hone : dispatchOne slots ev = (slots, []) := by simp only [dispatchOne, htok]
      rw [hone, if_neg]
      intro hhit
      have := hhit.1
      omega
  | succ key =>
      cases hslot : slots.get key with
      | none =>
          rw [dispatchOne_vacant htok hslot]
          split
          · rename_i hhit
            obtain rfl : key = k := by have := hhit.1; omega
            rw [wakerAt, hslot]
            rfl
          · rfl
      | some slot =>
          rw [dispatchOne_slot htok hslot]
          simp only [wakerAt, Slab.get_modify]
          by_cases hk : k = key
          · subst hk
            simp [hslot, Slot.dispatch_waker, Hits, htok]
          · have hmiss : ¬ Hits ev k d := by
              intro hhit
              have := hhit.1
              omega
            rw [if_neg hk, if_neg hmiss]

theorem mem_dispatchOne_from {slots : Slab (Slot W)} {ev : Event} {k : Nat} {d : Direction} {w : W} :
    ((k, d), w) ∈ (dispatchOne slots ev).2.map Taken.from
      ↔ Hits ev k d ∧ wakerAt slots k d = some w := by
  cases htok : ev.token with
  | zero =>
      have hone : dispatchOne slots ev = (slots, []) := by simp only [dispatchOne, htok]
      simp [hone, Hits, htok]
  | succ key =>
      cases hslot : slots.get key with
      | none =>
          rw [dispatchOne_vacant htok hslot]
          constructor
          · intro hmem
            exact absurd hmem List.not_mem_nil
          · rintro ⟨hhit, hw⟩
            obtain rfl : key = k := by have := hhit.1; omega
            rw [wakerAt, hslot] at hw
            exact absurd hw (by simp)
      | some slot =>
          rw [dispatchOne_slot htok hslot, Slot.mem_dispatch_from, htok]
          constructor
          · rintro ⟨rfl, hserve, hw⟩
            refine ⟨⟨htok, hserve⟩, ?_⟩
            rw [wakerAt, hslot]
            exact hw
          · rintro ⟨hhit, hw⟩
            obtain rfl : key = k := by have := hhit.1; omega
            rw [wakerAt, hslot] at hw
            exact ⟨rfl, hhit.2, hw⟩

theorem dispatchOne_from_nodup (slots : Slab (Slot W)) (ev : Event) :
    (((dispatchOne slots ev).2.map Taken.from).map Prod.fst).Nodup := by
  unfold dispatchOne
  split
  · exact List.nodup_nil
  · split
    · exact Slot.dispatch_from_nodup _ ev
    · exact List.nodup_nil

/-- The wakers that a batch takes, each with the place it was stored at. -/
def wakes (slots : Slab (Slot W)) (evs : List Event) : List (Place × W) :=
  (dispatch slots evs).2.map Taken.from

theorem wakes_cons (slots : Slab (Slot W)) (ev : Event) (evs : List Event) :
    wakes slots (ev :: evs)
      = (dispatchOne slots ev).2.map Taken.from ++ wakes (dispatchOne slots ev).1 evs := by
  rw [wakes, dispatch, List.map_append]
  rfl

/-- Some event of the batch serves the place. -/
def HitBy (evs : List Event) (k : Nat) (d : Direction) : Prop := ∃ ev ∈ evs, Hits ev k d

instance decidableHitBy (evs : List Event) (k : Nat) (d : Direction) : Decidable (HitBy evs k d) :=
  inferInstanceAs (Decidable (∃ ev ∈ evs, Hits ev k d))

theorem hitBy_cons {ev : Event} {evs : List Event} {k : Nat} {d : Direction} :
    HitBy (ev :: evs) k d ↔ Hits ev k d ∨ HitBy evs k d := by
  simp [HitBy]

/-- A place that is served is empty afterwards, and the others are as they were. -/
theorem dispatch_waker (slots : Slab (Slot W)) (evs : List Event) (k : Nat) (d : Direction) :
    wakerAt (dispatch slots evs).1 k d = if HitBy evs k d then none else wakerAt slots k d := by
  induction evs generalizing slots with
  | nil =>
      rw [if_neg (by simp [HitBy])]
      rfl
  | cons ev evs ih =>
      rw [dispatch]
      simp only [ih, dispatchOne_waker, hitBy_cons]
      by_cases hhit : Hits ev k d
      · simp [hhit]
      · simp [hhit]

/-- Exactly the wakers at places that are served are taken. -/
theorem mem_wakes {slots : Slab (Slot W)} {evs : List Event} {k : Nat} {d : Direction} {w : W} :
    ((k, d), w) ∈ wakes slots evs ↔ HitBy evs k d ∧ wakerAt slots k d = some w := by
  induction evs generalizing slots with
  | nil => simp [wakes, dispatch, HitBy]
  | cons ev evs ih =>
      rw [wakes_cons, List.mem_append, mem_dispatchOne_from, ih, hitBy_cons, dispatchOne_waker]
      by_cases hhit : Hits ev k d
      · simp [hhit]
      · simp [hhit]

/-- No place is served twice: the first event that serves it empties it. -/
theorem wakes_nodup (slots : Slab (Slot W)) (evs : List Event) :
    ((wakes slots evs).map Prod.fst).Nodup := by
  induction evs generalizing slots with
  | nil => exact List.nodup_nil
  | cons ev evs ih =>
      rw [wakes_cons, List.map_append, List.nodup_append]
      refine ⟨dispatchOne_from_nodup slots ev, ih _, ?_⟩
      rintro ⟨k, d⟩ hfirst q hrest rfl
      obtain ⟨⟨p, w⟩, hmem, hp⟩ := List.mem_map.mp hfirst
      obtain ⟨⟨p', w'⟩, hmem', hp'⟩ := List.mem_map.mp hrest
      simp only at hp hp'
      subst hp hp'
      have hhit := (mem_dispatchOne_from.mp hmem).1
      have hw' := (mem_wakes.mp hmem').2
      rw [dispatchOne_waker, if_pos hhit] at hw'
      exact absurd hw' (by simp)

/-! ## `Inner::poll` -/

/-- Some event carries the key's token and serves the direction. -/
def ServedBy (evs : List EpollEvent) (k : Nat) (d : Direction) : Prop :=
  ∃ ev ∈ evs, ev.token.toNat = k + 1 ∧ ev.Serves d

theorem hitBy_decode {evs : List EpollEvent} {k : Nat} {d : Direction} :
    HitBy (evs.map EpollEvent.decode) k d ↔ ServedBy evs k d := by
  constructor
  · rintro ⟨ev', hmem, htok, hserve⟩
    obtain ⟨ev, hev, rfl⟩ := List.mem_map.mp hmem
    exact ⟨ev, hev, htok, (serves_decode ev d).mp hserve⟩
  · rintro ⟨ev, hev, htok, hserve⟩
    exact ⟨ev.decode, List.mem_map_of_mem hev, htok, (serves_decode ev d).mpr hserve⟩

/-- The wakers a batch wakes, each with the place it was stored at. -/
def pollWakes (slots : Slab (Slot W)) (evs : List EpollEvent) : List (Place × W) :=
  wakes slots (evs.map EpollEvent.decode)

theorem mem_pollWakes {slots : Slab (Slot W)} {evs : List EpollEvent} {k : Nat} {d : Direction}
    {w : W} :
    ((k, d), w) ∈ pollWakes slots evs ↔ ServedBy evs k d ∧ wakerAt slots k d = some w := by
  rw [pollWakes, mem_wakes, hitBy_decode]

theorem map_from_snd (ts : List (Taken W)) : (ts.map Taken.from).map Prod.snd = ts.map Taken.waker := by
  rw [List.map_map]
  rfl

/-- `Inner::poll` dispatches a part of its batch, and all of it if it returns `Ok`. -/
theorem poll_dispatch (evs : List EpollEvent) (drain : Nat → Except E Unit) (slots : Slab (Slot W)) :
    ∃ done : List EpollEvent,
      (poll (.ok evs) drain slots).slots = (dispatch slots (done.map EpollEvent.decode)).1
      ∧ ((poll (.ok evs) drain slots).result = .ok () → done = evs
          ∧ (poll (.ok evs) drain slots).woken = (pollWakes slots evs).map Prod.snd) := by
  unfold poll
  simp only
  split
  · rename_i h0
    obtain rfl := List.length_eq_zero_iff.mp h0
    exact ⟨[], rfl, fun _ => ⟨rfl, rfl⟩⟩
  · obtain ⟨done, hslots, hok⟩ := pollEvents_dispatch drain slots [] evs
    generalize pollEvents drain slots [] evs = r at hslots hok
    obtain ⟨slots', result⟩ := r
    cases result with
    | error e => exact ⟨done, hslots, fun h => absurd h (by simp)⟩
    | ok woken =>
        obtain ⟨hdone, hwoken⟩ := hok woken rfl
        refine ⟨done, hslots, fun _ => ⟨hdone, ?_⟩⟩
        rw [pollWakes, wakes, map_from_snd]
        exact hwoken

/-! ## What happens to an empty place -/

/-- The sections under the slab's lock. -/
inductive Section (W E : Type) where
  | poll (wait : Except E (List EpollEvent)) (drain : Nat → Except E Unit)
  /-- `register`, for a new registration. -/
  | insert (owner : Nat)
  /-- `deregister`, or a `register` that failed. -/
  | remove (key : Nat)
  | setWaker (token : Nat) (d : Direction) (w : W)

def Section.run (slots : Slab (Slot W)) : Section W E → Slab (Slot W)
  | .poll wait drain => (Reactor.poll wait drain slots).slots
  | .insert owner => slots.insert (Slot.new owner)
  | .remove key => slots.remove key
  | .setWaker token d w => Reactor.setWaker slots token d w

/-- Only `set_waker` for the place fills it. -/
theorem section_empty {slots : Slab (Slot W)} {k : Nat} {d : Direction} (h : wakerAt slots k d = none)
    {sec : Section W E} (hne : ∀ w, sec ≠ .setWaker (k + 1) d w) :
    wakerAt (sec.run slots) k d = none := by
  cases sec with
  | poll wait drain =>
      cases wait with
      | error e => exact h
      | ok evs =>
          obtain ⟨done, hslots, _⟩ := poll_dispatch evs drain slots
          rw [Section.run, hslots, dispatch_waker, h]
          split <;> rfl
  | insert owner =>
      rw [Section.run, wakerAt, Slab.get_insert]
      split
      · cases d <;> rfl
      · exact h
  | remove key =>
      rw [Section.run, wakerAt, Slab.get_remove]
      split
      · rfl
      · exact h
  | setWaker token d' w =>
      cases token with
      | zero => exact h
      | succ key =>
          rw [Section.run, wakerAt_setWaker]
          split
          · rename_i hplace
            obtain ⟨rfl, rfl⟩ := hplace
            exact absurd rfl (hne w)
          · exact h

theorem sections_empty {slots : Slab (Slot W)} {k : Nat} {d : Direction} {secs : List (Section W E)}
    (h : wakerAt slots k d = none) (hne : ∀ w, .setWaker (k + 1) d w ∉ secs) :
    wakerAt (secs.foldl Section.run slots) k d = none := by
  induction secs generalizing slots with
  | nil => exact h
  | cons sec secs ih =>
      refine ih (section_empty h ?_) fun w hmem => hne w (List.mem_cons_of_mem sec hmem)
      rintro w rfl
      exact hne w List.mem_cons_self

/--
**A batch wakes exactly the wakers it serves, each once.**

For every slab and every batch of events, when `Inner::poll` returns `Ok`: the wakers it
wakes are those stored at a key and a direction for which some event with token `key + 1`
has the direction's bit, `ERROR` or `HANGUP` set, one for each such place. These places are
empty afterwards; all others, and which keys are live, are as before. Until `set_waker`
fills such a place again, whatever else happens, no later batch wakes anyone from it.
-/
theorem poll_wakes_served {evs : List EpollEvent} {drain : Nat → Except E Unit}
    {slots : Slab (Slot W)} (h : (poll (.ok evs) drain slots).result = .ok ()) :
    (poll (.ok evs) drain slots).woken = (pollWakes slots evs).map Prod.snd
    ∧ ((pollWakes slots evs).map Prod.fst).Nodup
    ∧ (∀ k d w, ((k, d), w) ∈ pollWakes slots evs
        ↔ ServedBy evs k d ∧ wakerAt slots k d = some w)
    ∧ (∀ k d, ServedBy evs k d → wakerAt (poll (.ok evs) drain slots).slots k d = none)
    ∧ (∀ k d, ¬ ServedBy evs k d →
        wakerAt (poll (.ok evs) drain slots).slots k d = wakerAt slots k d)
    ∧ (∀ k, ((poll (.ok evs) drain slots).slots.get k).isSome = (slots.get k).isSome)
    ∧ ∀ k d, ServedBy evs k d → ∀ secs : List (Section W E), (∀ w, .setWaker (k + 1) d w ∉ secs) →
        ∀ later w,
          ((k, d), w) ∉ pollWakes (secs.foldl Section.run (poll (.ok evs) drain slots).slots) later := by
  obtain ⟨done, hslots, hok⟩ := poll_dispatch evs drain slots
  obtain ⟨rfl, hwoken⟩ := hok h
  have hempty : ∀ k d, ServedBy done k d →
      wakerAt (poll (.ok done) drain slots).slots k d = none := by
    intro k d hserved
    rw [hslots, dispatch_waker, if_pos (hitBy_decode.mpr hserved)]
  refine ⟨hwoken, wakes_nodup _ _, fun k d w => mem_pollWakes, hempty, ?_, ?_, ?_⟩
  · intro k d hnot
    rw [hslots, dispatch_waker, if_neg fun hhit => hnot (hitBy_decode.mp hhit)]
  · intro k
    have howner := congrArg Option.isSome (dispatch_owners slots (done.map EpollEvent.decode) k)
    rw [Option.isSome_map, Option.isSome_map] at howner
    rw [hslots]
    exact howner
  · intro k d hserved secs hne later w hmem
    have hnone : wakerAt (secs.foldl Section.run (poll (.ok done) drain slots).slots) k d = none :=
      sections_empty (hempty k d hserved) hne
    rw [(mem_pollWakes.mp hmem).2] at hnone
    exact absurd hnone (by simp)

/-- One registration, with a reader and a writer waiting. -/
def bothWait : Slab (Slot Nat) :=
  setWaker (setWaker (Slab.new.insert (Slot.new 0)) 1 .read 7) 1 .write 8

/-- A hangup, the eventfd, the same token again, and a stale one. -/
def hangup : List EpollEvent :=
  [⟨1, HANGUP⟩, ⟨0, READABLE⟩, ⟨1, READABLE ||| WRITABLE⟩, ⟨9, ERROR⟩]

theorem poll_wakes_served_hangup :
    (poll (E := Unit) (.ok hangup) (fun _ => .ok ()) bothWait).result = .ok ()
    ∧ (poll (E := Unit) (.ok hangup) (fun _ => .ok ()) bothWait).woken = [7, 8]
    ∧ wakerAt (poll (E := Unit) (.ok hangup) (fun _ => .ok ()) bothWait).slots 0 .write = none := by
  have hok : (poll (E := Unit) (.ok hangup) (fun _ => .ok ()) bothWait).result = .ok () := rfl
  have hserved : ServedBy hangup 0 .write :=
    ⟨⟨1, HANGUP⟩, List.mem_cons_self, rfl, .inr (.inr (by decide))⟩
  exact ⟨hok, rfl, (poll_wakes_served hok).2.2.2.1 0 .write hserved⟩

end Nanorun.Reactor
