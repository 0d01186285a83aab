import Nanorun.Net.Streams

/-!
# No call sleeps through its readiness

The reactor over `Streams.lean`, with what `epoll_wait` says of the sockets. Epoll is
level-triggered: an item is reported as long as its socket is, whether or not it was when
the item was added, and whether or not anybody waits.

A read that would not block is reported. A write may not be: `send` takes what there is room
for, but `EPOLLOUT` takes more room than for a byte. A parked write in between waits for the
peer to make room.

A call parks after the kernel has answered `WouldBlock` and may have become ready since;
nothing but its waker in the slab remembers it. So what has to hold is that the waker is
there, under the token that the kernel reports, until a dispatch takes it. One waker is kept
for each direction: a second task on the same stream and direction pushes the first one out,
and that is excluded here.

A stream is registered for both directions, and `register` is not called again. While it is
writable it is reported to every `epoll_wait`, and the driver does not block.
-/

namespace Nanorun.Net

open Reactor Transition

/-- The item asks for the direction. -/
def Sockets.Watch.interested (item : Sockets.Watch) : Direction → Bool
  | .read => item.events &&& READABLE != 0
  | .write => item.events &&& WRITABLE != 0

namespace Streams

open Sockets (Kind Watch Books)

/-- `recv` or `send` on the socket would not block. -/
def ready (s : World) (i : Nat) : Direction → Bool
  | .read => !(s.received i).isEmpty || s.finished i
  | .write => s.room i

/-- `epoll_wait` reports the socket as readable or writable. -/
def reported (s : World) (i : Nat) : Direction → Bool
  | .read => !(s.received i).isEmpty || s.finished i
  | .write => s.writable i

/-- The event is what `epoll_wait` fills in for the item, or says more, as that its socket
failed. -/
def Reports (s : World) (item : Watch) (ev : Event) : Prop :=
  ev.token = item.token
  ∧ ∀ d, item.interested d = true → reported s item.source d = true → ev.ready.serves d = true

/-- `epoll_wait` finds nothing to report of the sockets, and blocks. -/
def Quiet (s : World) : Prop :=
  ∀ fd item, s.sockets.epoll fd = some item →
    ∀ d, item.interested d = true → reported s item.source d = false

/-- A call parks only where no other task is waiting. -/
def Alone (s : World) (a : Label) : Prop :=
  match a.blocked with
  | some (call, i, d, task) =>
      ∀ w ∈ s.waiting, w.call ≠ call → w.object = i → w.future.dir = d → w.woken = false →
        w.task = task
  | none => True

instance decidableAlone (s : World) (a : Label) : Decidable (Alone s a) := by
  unfold Alone
  split
  · exact inferInstanceAs (Decidable (∀ w ∈ s.waiting, _))
  · exact .isTrue trivial

/-- The waker of the call is where its token says. -/
def Stored (s : World) (w : Parked) : Prop :=
  ∃ key, w.future.token = key + 1 ∧ wakerAt s.sockets.slots key w.future.dir = some w.task

/-- Every parked call that has not been woken can be. -/
def NoneLost (s : World) : Prop := ∀ w ∈ s.waiting, w.woken = false → Stored s w

/-! ## Wakers stay -/

/-- Nothing that other sockets do touches the wakers of a live one, except a dispatch that
wakes them. -/
theorem wakerAt_step {s s' : Sockets.World Nat} {a : Sockets.Label Nat} (h : Books s)
    {i fd key : Nat} {kind : Kind} {d : Direction} {task : Nat}
    (hi : s.objects i = .live kind fd key) (hs : Sockets.next s a = some s')
    (hpark : ∀ d' waker, a ≠ .park i d' waker) (hw : wakerAt s.slots key d = some task) :
    wakerAt s'.slots key d = some task
    ∨ ∃ events, a = .dispatch events ∧ ∃ t ∈ (dispatch s.slots events).2, t.waker = task := by
  have hkey : (s.objects i).key = some key := by rw [hi]; rfl
  -- a slot that somebody else has is another one
  have hne : ∀ {j k : Nat}, (s.objects j).key = some k → j ≠ i → key ≠ k := by
    rintro j k hj hji rfl
    exact hji (h.key_unique hj hkey)
  cases a with
  | socket j kind' fd' =>
      simp only [Sockets.next] at hs
      split at hs
      · obtain rfl := Option.some.inj hs
        exact .inl hw
      · exact absurd hs (by simp)
  | accept l j fd' decodes =>
      simp only [Sockets.next] at hs
      split at hs
      · split at hs
        · obtain rfl := Option.some.inj hs
          exact .inl hw
        · exact absurd hs (by simp)
      · exact absurd hs (by simp)
  | go j answer =>
      have hp : Sockets.proceed s j answer = some s' := hs
      have hij : j ≠ i := by
        rintro rfl
        simp [Sockets.proceed, hi] at hp
      unfold Sockets.proceed at hp
      split at hp
      case h_4 caller fd' hst =>
        split at hp
        · obtain rfl := Option.some.inj hp
          exact .inl hw
        · obtain rfl := Option.some.inj hp
          exact .inl (wakerAt_insert s.slots j hw)
      case h_6 fd' k hst =>
        obtain rfl := Option.some.inj hp
        refine .inl ((wakerAt_remove s.slots (hne ?_ hij) d).trans hw)
        rw [hst]; rfl
      case h_7 fd' k hst =>
        obtain rfl := Option.some.inj hp
        refine .inl ((wakerAt_remove s.slots (hne ?_ hij) d).trans hw)
        rw [hst]; rfl
      case h_11 => exact absurd hp (by simp)
      all_goals
        first
          | (obtain rfl := Option.some.inj hp
             exact .inl hw)
          | (split at hp <;>
              (obtain rfl := Option.some.inj hp
               exact .inl hw))
  | poll j waker ok =>
      simp only [Sockets.next] at hs
      split at hs
      · rename_i fd' k polled hst
        have hij : j ≠ i := by
          rintro rfl
          rw [hi] at hst
          exact absurd hst (by simp)
        obtain rfl := Option.some.inj hs
        refine .inl ?_
        cases polled with
        | true => exact hw
        | false =>
            show wakerAt (setWaker s.slots (k + 1) .write waker) key d = some task
            rw [wakerAt_setWaker, if_neg fun heq => hne (by rw [hst]; rfl) hij heq.1]
            exact hw
      · exact absurd hs (by simp)
  | drop j installed =>
      simp only [Sockets.next] at hs
      split at hs
      · obtain rfl := Option.some.inj hs
        exact .inl hw
      · obtain rfl := Option.some.inj hs
        exact .inl hw
      · exact absurd hs (by simp)
  | park j d' waker =>
      simp only [Sockets.next] at hs
      split at hs
      · rename_i kind' fd' k hst
        have hij : j ≠ i := by
          rintro rfl
          exact hpark d' waker rfl
        obtain rfl := Option.some.inj hs
        refine .inl ?_
        show wakerAt (setWaker s.slots (k + 1) d' waker) key d = some task
        rw [wakerAt_setWaker, if_neg fun heq => hne (by rw [hst]; rfl) hij heq.1]
        exact hw
      · exact absurd hs (by simp)
  | dispatch events =>
      obtain rfl := Option.some.inj hs
      rcases dispatch_keeps s.slots events hw with hkeep | htaken
      · exact .inl hkeep
      · exact .inr ⟨events, rfl, htaken⟩

/-- The slot of a live socket takes a waker. -/
theorem wakerAt_live {s : Sockets.World Nat} (h : Books s) {i fd key : Nat} {kind : Kind}
    (hi : s.objects i = .live kind fd key) (task : Nat) :
    (s.slots.get key).map (fun _ => task) = some task := by
  have hown : Owns s.slots i key := (h.owns_iff i key).mpr (by rw [hi]; rfl)
  obtain ⟨slot, hslot, _⟩ := Option.map_eq_some_iff.mp hown
  rw [hslot]
  rfl

/-! ## Who is lost -/

theorem noneLost_step {s s' : World} {a : Label} (hi : StreamsInv s) (h : NoneLost s)
    (hok : Alone s a) (hs : next s a = some s') : NoneLost s' := by
  cases hi.next_spec hs with
  | @sockets a sk hfree hsk =>
      intro w hw hunwoken
      obtain ⟨v, hv, _, htask, _, hfut, hold⟩ := mem_wake hw
      obtain ⟨hvw, hnot⟩ := hold hunwoken
      obtain ⟨fd, key, hlive, hpark⟩ := hi.parked v hv
      obtain ⟨k, hk, hstored⟩ := h v hv hvw
      obtain rfl : k = key := by
        rw [hpark] at hk
        exact (Nat.succ.inj hk).symm
      refine ⟨k, by rw [hfut]; exact hk, ?_⟩
      rw [hfut, htask]
      have hother : ∀ d' waker, a ≠ .park v.object d' waker := by
        rintro d' waker rfl
        exact hfree v hv rfl
      rcases wakerAt_step hi.books hlive hsk hother hstored with hkeep | ⟨events, rfl, t, ht, heq⟩
      · exact hkeep
      · -- a waker that was taken has been woken
        exact absurd (List.mem_map.mpr ⟨t, ht, heq⟩) hnot
  | @parks _ call task i fd key d hblocked hlive =>
      intro w hw hunwoken
      rcases List.mem_cons.mp hw with rfl | hw
      · refine ⟨key, rfl, ?_⟩
        show wakerAt (setWaker s.sockets.slots (key + 1) d task) key d = some task
        rw [wakerAt_setWaker, if_pos ⟨rfl, rfl⟩]
        exact wakerAt_live hi.books hlive task
      · obtain ⟨hmem, hcall⟩ := List.mem_filter.mp hw
        obtain ⟨k, hk, hstored⟩ := h w hmem hunwoken
        refine ⟨k, hk, ?_⟩
        show wakerAt (setWaker s.sockets.slots (key + 1) d task) k w.future.dir = some w.task
        rw [wakerAt_setWaker]
        split
        · rename_i hsame
          -- the same stream and direction, so the same task
          obtain ⟨rfl, hdir⟩ := hsame
          obtain ⟨_, key', hlive', hpark⟩ := hi.parked w hmem
          obtain rfl : key' = k := by
            rw [hpark] at hk
            exact Nat.succ.inj hk
          have hobj : w.object = i :=
            hi.books.key_unique (by rw [hlive']; rfl) (by rw [hlive]; rfl)
          have halone : ∀ w ∈ s.waiting, w.call ≠ call → w.object = i → w.future.dir = d →
              w.woken = false → w.task = task := by
            simpa only [Alone, hblocked] using hok
          rw [halone w hmem (by simpa using hcall) hobj hdir hunwoken]
          exact wakerAt_live hi.books hlive task
        · exact hstored
  | wake =>
      intro w hw hunwoken
      obtain ⟨v, hv, _, htask, _, hfut, hold⟩ := mem_wake hw
      obtain ⟨key, hkey, hstored⟩ := h v hv (hold hunwoken).1
      exact ⟨key, by rw [hfut]; exact hkey, by rw [hfut, htask]; exact hstored⟩
  | ends _ | reads _ _ | writes => exact fun w hw => h w (List.mem_filter.mp hw).1
  | arrive | finish | setRoom _ => exact h

theorem noneLost_reachable {s : World} (h : system.ReachableVia Alone s) : NoneLost s := by
  have hboth : StreamsInv s ∧ NoneLost s := by
    refine h.invariant (I := fun s => StreamsInv s ∧ NoneLost s) ?_ ?_
    · rintro _ rfl
      exact ⟨streamsInv_start, fun w hw => absurd hw List.not_mem_nil⟩
    · rintro s a s' ⟨hi, hn⟩ hok hs
      exact ⟨streamsInv_step hi hs, noneLost_step hi hn hok hs⟩
  exact hboth.2

/-! ## What the kernel reports -/

theorem interested_stream {item : Watch} (h : item.events = Sockets.mask Kind.stream.interest)
    (d : Direction) : item.interested d = true := by
  cases d <;> (unfold Sockets.Watch.interested; rw [h]; decide)

/-- A live stream is in the epoll set, under its token and for both directions. -/
theorem StreamsInv.item {s : World} (h : StreamsInv s) {i fd key : Nat}
    (hi : s.sockets.objects i = .live .stream fd key) :
    ∃ item, s.sockets.epoll fd = some item ∧ item.source = i ∧ item.token = key + 1
      ∧ ∀ d, item.interested d = true :=
  ⟨{ source := i, token := key + 1, events := Sockets.mask Kind.stream.interest },
    (h.books.watch_iff fd _).mpr ⟨.stream, key, by rw [hi]; rfl, rfl, rfl⟩, rfl, rfl,
    interested_stream rfl⟩

/-- What is reported does not block. -/
theorem StreamsInv.ready_of_reported {s : World} (h : StreamsInv s) {i : Nat} {d : Direction}
    (hr : reported s i d = true) : ready s i d = true := by
  cases d with
  | read => exact hr
  | write => exact h.writable i hr

/-- A dispatch that serves the token and direction of a call leaves it woken. -/
theorem NoneLost.served {s s' : World} (h : NoneLost s) {w : Parked} (hw : w ∈ s.waiting)
    {ev : Event} {events : List Event} (hmem : ev ∈ events) (htok : ev.token = w.future.token)
    (hserve : ev.ready.serves w.future.dir = true)
    (hs : next s (.sockets (.dispatch events)) = some s') :
    { w with woken := true } ∈ s'.waiting := by
  have hs' : s'.waiting = s.waiting.map (Parked.wake (wakes s (.dispatch events))) := by
    simp only [next] at hs
    split at hs
    · obtain ⟨sk, _, rfl⟩ := Option.map_eq_some_iff.mp hs
      rfl
    · exact absurd hs (by simp)
  rw [hs']
  refine List.mem_map.mpr ⟨w, hw, ?_⟩
  unfold Parked.wake
  split
  · rfl
  · rename_i hnot
    cases hwoken : w.woken with
    | true => rw [← hwoken]
    | false =>
        obtain ⟨key, hkey, hstored⟩ := h w hw hwoken
        have htaken : ((key, w.future.dir), w.task) ∈ Reactor.wakes s.sockets.slots events :=
          mem_wakes.mpr ⟨⟨ev, hmem, by rw [htok, hkey], hserve⟩, hstored⟩
        obtain ⟨t, ht, heq⟩ := List.mem_map.mp htaken
        exact absurd (List.mem_map.mpr ⟨t, ht, (Prod.mk.inj heq).2⟩) hnot

/--
**A call whose stream is reported is not left asleep.**

In every run in which a call parks only where no other task is waiting: what is reported
would not block. As long as `epoll_wait` blocks, no parked call is on a stream that is
reported for its direction, so no parked read could proceed. A parked call on a stream that
is reported has it in the epoll set, for its direction, and what `epoll_wait` reports of it
then wakes the call when it is dispatched, now or at any later state in which the call is
still parked. And a writable stream keeps `epoll_wait` from blocking, whether anybody waits
for it or not.
-/
theorem ready_calls_wake {s : World} (h : system.ReachableVia Alone s) :
    (∀ i d, reported s i d = true → ready s i d = true)
    ∧ (Quiet s → ∀ w ∈ s.waiting, reported s w.object w.future.dir = false
        ∧ (w.future.dir = .read → ready s w.object .read = false))
    ∧ (∀ w ∈ s.waiting, reported s w.object w.future.dir = true →
        ∃ fd item, s.sockets.epoll fd = some item ∧ item.source = w.object
          ∧ item.interested w.future.dir = true
          ∧ ∀ ev, Reports s item ev →
            ∀ s₁ events s₂, system.ReachableVia Alone s₁ → w ∈ s₁.waiting → ev ∈ events →
              system.step s₁ (.sockets (.dispatch events)) = some s₂ →
              { w with woken := true } ∈ s₂.waiting)
    ∧ ∀ i fd key, s.sockets.objects i = .live .stream fd key → s.writable i = true → ¬ Quiet s := by
  have hi := streamsInv_reachable h.reachable
  refine ⟨fun _ _ => hi.ready_of_reported, ?_, ?_, ?_⟩
  · intro hquiet w hw
    obtain ⟨fd, key, hlive, _⟩ := hi.parked w hw
    obtain ⟨item, hitem, hsrc, _, hint⟩ := hi.item hlive
    have hnone : reported s w.object w.future.dir = false := by
      rw [← hsrc]
      exact hquiet fd item hitem _ (hint _)
    refine ⟨hnone, fun hdir => ?_⟩
    rw [hdir] at hnone
    exact hnone
  · intro w hw hready
    obtain ⟨fd, key, hlive, hpark⟩ := hi.parked w hw
    obtain ⟨item, hitem, hsrc, htok, hint⟩ := hi.item hlive
    refine ⟨fd, item, hitem, hsrc, hint _, ?_⟩
    rintro ev ⟨hev, hreport⟩ s₁ events s₂ h₁ hw₁ hmem hs
    have hserve := hreport w.future.dir (hint _) (by rw [hsrc]; exact hready)
    refine (noneLost_reachable h₁).served hw₁ hmem ?_ hserve hs
    rw [hev, htok, hpark]
  · intro i fd key hlive hwritable hquiet
    obtain ⟨item, hitem, hsrc, _, hint⟩ := hi.item hlive
    have hnot := hquiet fd item hitem .write (hint _)
    rw [hsrc, reported, hwritable] at hnot
    exact absurd hnot (by simp)

/-- Bytes come in for a read that has parked. -/
def lateBytes : List Label :=
  let bound : List (Sockets.Label Nat) :=
    [.socket 0 .listener 5, .go 0 .ok, .go 0 .ok, .go 0 .ok, .go 0 .ok]
  let accepted : List (Sockets.Label Nat) := [.accept 0 1 6 true, .go 1 .ok, .go 1 .ok]
  (bound ++ accepted).map .sockets ++ [.read 0 1 7 4 .wouldBlock, .arrive 1 [1, 2]]

theorem ready_calls_wake_lateBytes :
    ∃ s ev s', system.ReachableVia Alone s ∧ s.waiting.map Parked.woken = [false]
      ∧ system.step s (.sockets (.dispatch [ev])) = some s'
      ∧ ∃ w ∈ s'.waiting, w.call = 0 ∧ w.woken = true := by
  have hreach : system.ReachableVia Alone (system.exec start lateBytes) :=
    System.ReachableVia.exec (.init rfl) (by decide +kernel)
  have hparked : ∃ w ∈ (system.exec start lateBytes).waiting, w.call = 0
      ∧ reported (system.exec start lateBytes) w.object w.future.dir = true := by
    decide +kernel
  obtain ⟨w, hw, hcall, hready⟩ := hparked
  obtain ⟨_, item, _, _, _, hserve⟩ := (ready_calls_wake hreach).2.2.1 w hw hready
  have hreport : Reports (system.exec start lateBytes) item
      { token := item.token, source := 0,
        ready := { readable := true, writable := true, error := false, hangup := false } } :=
    ⟨rfl, fun d _ _ => by cases d <;> rfl⟩
  exact ⟨_, _, _, hreach, by decide +kernel, rfl, _,
    hserve _ hreport _ _ _ hreach hw (List.mem_singleton.mpr rfl) rfl, hcall, rfl⟩

end Streams

end Nanorun.Net
