import Nanorun.Lib.Sections

/-!
# Destructors that run under a lock

A queue is cleared, a timer's waker removed and a slot overwritten while the mutex
around them is held. Each of these drops task references, a reference may be the last
one of its task, and then the task's future goes with it: what its destructor does runs
under that mutex, on the same thread. It may wake wakers, spawn on a `Handle` it has
captured, and drop further references, join handles, sleeps and sockets.

A drop is the sequence of what it goes on to do (`Drops`). Whether a reference is the last
one, whether the woken task is idle, whether the sleep is registered depends on the rest
of the runtime and is part of the data: a reference that is not the last one releases
nothing. So a container is the list of what the drops of its elements do, and every
content and every behaviour of the destructors is some such list.

`script` reads off which of the runtime's mutexes a drop locks and what happens under
them. Tasks of other runtimes lock mutexes of their own; what their release does on this
thread is a `release` here.
-/

namespace Nanorun.Destructors

open Sections

/-- The mutexes of a runtime. -/
inductive Mutex where
  | injector
  | localQueue (i : Nat)
  /-- The timer driver's `inner`. -/
  | inner
  /-- The reactor's slab. -/
  | slab
  deriving DecidableEq, Repr

/-- What a drop does, action by action; `released` is what the reference that an action drops
does in its turn, nothing unless it is the last one. -/
inductive Drops where
  | done
  /-- A `Waker`, a `TaskRef` or another `Arc` is dropped. -/
  | release (released rest : Drops)
  /-- A `Waker` is woken; `late` says that `schedule` sees a `shutdown` stored meanwhile. -/
  | wake (idle late : Bool) (released rest : Drops)
  /-- `Handle::spawn` on this runtime. -/
  | spawn (rest : Drops)
  /-- A `JoinHandle` is dropped, with the output of a completed task before the reference. -/
  | join (output released rest : Drops)
  /-- A `Sleep` is dropped; `released` is the waker that `cancel` finds under its id. -/
  | sleep (registered : Bool) (released rest : Drops)
  /-- A `TcpStream` or `TcpListener` is dropped; `released` is the wakers of its slot. -/
  | stream (deleted : Bool) (released rest : Drops)
  deriving DecidableEq, Repr

/-- What a thread brings along: the flag as it was stored before, and its current driver. -/
structure Thread where
  shutdown : Bool
  /-- A `DriverGuard` is installed. -/
  driver : Bool
  deriving DecidableEq, Repr

/-- A worker, inside `task.poll()`. -/
def worker : Thread where
  shutdown := false
  driver := true

/-- The thread of `Multi::drop`, with the reactor installed and no driver. -/
def dropping : Thread where
  shutdown := true
  driver := false

/-- `push_global`; `wake_driver_if_parked` and `unpark_one` lock nothing. -/
def pushGlobal : Script Mutex := .under .injector .done .done

/-- The mutexes that a drop goes through on a thread with the reactor installed. -/
def Drops.script (th : Thread) : Drops → Script Mutex
  | .done => .done
  | .release released rest => released.script th ++ rest.script th
  | .wake idle late released rest =>
      -- `schedule_fn`, and `Spawner::schedule` for an idle task
      (if idle then
        if th.shutdown || late then released.script th else pushGlobal
      else released.script th) ++ rest.script th
  | .spawn rest => pushGlobal ++ rest.script th
  | .join output released rest => output.script th ++ released.script th ++ rest.script th
  | .sleep registered released rest =>
      -- `Driver::cancel` on the thread's driver: `wakers.remove(&id)` under the lock
      if registered && th.driver then .under .inner (released.script th) (rest.script th)
      else rest.script th
  | .stream deleted released rest =>
      -- `Inner::deregister`, which returns early if `epoll::delete` fails
      if deleted then .under .slab (released.script th) (rest.script th) else rest.script th

/-- The drop comes to a `spawn`, with `shutdown` stored and no driver to cancel a sleep with. -/
def Drops.spawns : Drops → Bool
  | .done => false
  | .release released rest => released.spawns || rest.spawns
  | .wake _ _ released rest => released.spawns || rest.spawns
  | .spawn _ => true
  | .join output released rest => output.spawns || released.spawns || rest.spawns
  | .sleep _ _ rest => rest.spawns
  | .stream deleted released rest => deleted && released.spawns || rest.spawns

/-- Drop the elements of a container. -/
def dropAll (th : Thread) (refs : List Drops) : Script Mutex :=
  .concat (refs.map fun p => p.script th)

/-- What `Multi::drop` drains. -/
structure Contents where
  injector : List Drops
  locals : List (List Drops)
  timers : List Drops

/-- Everything `Multi::drop` drops. -/
def Contents.all (c : Contents) : List Drops := c.injector ++ c.locals.flatten ++ c.timers

/-- `w.local.lock().clear()` for the workers from `i` on. -/
def clearLocals (th : Thread) (i : Nat) : List (List Drops) → Script Mutex
  | [] => .done
  | q :: qs => .under (.localQueue i) (dropAll th q) (clearLocals th (i + 1) qs)

/-- `Driver::clear` -/
def clear (th : Thread) (timers : List Drops) : Script Mutex :=
  .under .inner (dropAll th timers) .done

/-- `Drop for Multi`, once the workers are joined. -/
def multiDrop (c : Contents) : Script Mutex :=
  .under .injector (dropAll dropping c.injector)
    (clearLocals dropping 0 c.locals ++ clear dropping c.timers)

/-- `Driver::cancel`, with the waker under the id. -/
def cancel (th : Thread) (waker : Option Drops) : Script Mutex :=
  .under .inner (dropAll th waker.toList) .done

/-- `Inner::set_waker`: the waker that the new one replaces is dropped; `live` says that the slot
is there and, on Windows, not cancelled. -/
def setWaker (th : Thread) (live : Bool) (old : Option Drops) : Script Mutex :=
  .under .slab (if live then dropAll th old.toList else .done) .done

/-- `Inner::deregister`, with the wakers of the slot, after `epoll::delete`. -/
def deregister (th : Thread) (deleted : Bool) (read write : Option Drops) : Script Mutex :=
  if deleted then .under .slab (dropAll th (read.toList ++ write.toList)) .done else .done

/-! ## What the scripts lock -/

/-- **What holds of every script of a drop**: of nothing, of a push, of a section of the driver or
the slab around a drop, and of one thing after the other. -/
theorem script_rule {th : Thread} {P : Script Mutex → Prop} (hdone : P .done) (hpush : P pushGlobal)
    (happend : ∀ s t, P s → P t → P (s ++ t))
    (hinner : th.driver = true → ∀ s, P s → P (.under .inner s .done))
    (hslab : ∀ s, P s → P (.under .slab s .done)) (p : Drops) : P (p.script th) := by
  induction p with
  | done => exact hdone
  | release released rest ihr ih => exact happend _ _ ihr ih
  | wake idle late released rest ihr ih =>
      rw [Drops.script]
      refine happend _ _ ?_ ih
      split
      · split
        · exact ihr
        · exact hpush
      · exact ihr
  | spawn rest ih => exact happend _ _ hpush ih
  | join output released rest iho ihr ih => exact happend _ _ (happend _ _ iho ihr) ih
  | sleep registered released rest ihr ih =>
      rw [Drops.script]
      split
      · rename_i hd
        exact happend _ _ (hinner (Bool.and_eq_true_iff.mp hd).2 _ ihr) ih
      · exact ih
  | stream deleted released rest ihr ih =>
      rw [Drops.script]
      split
      · exact happend _ _ (hslab _ ihr) ih
      · exact ih

/-- No destructor comes near a local queue. -/
theorem script_localQueue (th : Thread) (p : Drops) (i : Nat) :
    (p.script th).locks (.localQueue i) = false := by
  refine script_rule (P := fun s => s.locks (.localQueue i) = false) rfl rfl ?_ ?_ ?_ p
  · intro s t hs ht
    rw [Script.locks_append, hs, ht]
    rfl
  · intro _ s hs
    simp [Script.locks, hs]
  · intro s hs
    simp [Script.locks, hs]

/-- Without a driver on the thread, a dropped `Sleep` locks nothing. -/
theorem script_inner {th : Thread} (h : th.driver = false) (p : Drops) :
    (p.script th).locks .inner = false := by
  refine script_rule (P := fun s => s.locks .inner = false) rfl rfl ?_ ?_ ?_ p
  · intro s t hs ht
    rw [Script.locks_append, hs, ht]
    rfl
  · intro hd
    rw [h] at hd
    exact absurd hd (by simp)
  · intro s hs
    simp [Script.locks, hs]

/-- A destructor that pushes drops nothing under the injector's lock. -/
theorem script_injector (th : Thread) (p : Drops) : (p.script th).nests .injector = false := by
  refine script_rule (P := fun s => s.nests .injector = false) rfl rfl ?_ ?_ ?_ p
  · intro s t hs ht
    rw [Script.nests_append, hs, ht]
    rfl
  · intro _ s hs
    simp [Script.nests, hs]
  · intro s hs
    simp [Script.nests, hs]

/-- On the thread of `Multi::drop` only a `spawn` locks the injector. -/
theorem locks_injector_dropping (p : Drops) : (p.script dropping).locks .injector = p.spawns := by
  induction p with
  | done => rfl
  | release released rest ihr ih => rw [Drops.script, Script.locks_append, ihr, ih, Drops.spawns]
  | wake idle late released rest ihr ih =>
      rw [Drops.script, Script.locks_append, ih, Drops.spawns]
      -- idle or not, the reference is dropped
      cases idle <;> exact congrArg (· || rest.spawns) ihr
  | spawn rest ih => rfl
  | join output released rest iho ihr ih =>
      rw [Drops.script, Script.locks_append, Script.locks_append, iho, ihr, ih, Drops.spawns]
  | sleep registered released rest ihr ih =>
      cases registered <;> exact ih
  | stream deleted released rest ihr ih =>
      cases deleted with
      | false => exact ih
      | true =>
          rw [Drops.spawns, Bool.true_and, ← ihr, ← ih]
          rfl

theorem locks_dropAll (th : Thread) (refs : List Drops) (m : Mutex) :
    (dropAll th refs).locks m = false ↔ ∀ p ∈ refs, (p.script th).locks m = false := by
  simp [dropAll, Script.locks_concat]

theorem nests_dropAll (th : Thread) (refs : List Drops) (m : Mutex) :
    (dropAll th refs).nests m = false ↔ ∀ p ∈ refs, (p.script th).nests m = false := by
  simp [dropAll, Script.nests_concat]

theorem nests_clearLocals (th : Thread) (i : Nat) (qs : List (List Drops)) (m : Mutex) :
    (clearLocals th i qs).nests m = false ↔ ∀ p ∈ qs.flatten, (p.script th).nests m = false := by
  induction qs generalizing i with
  | nil => simp [clearLocals, Script.nests]
  | cons q qs ih =>
      have hown : (Mutex.localQueue i == m && (dropAll th q).locks m) = false := by
        by_cases hm : Mutex.localQueue i = m
        · subst hm
          rw [(locks_dropAll th q _).mpr fun p _ => script_localQueue th p i, Bool.and_false]
        · simp [hm]
      rw [clearLocals, Script.nests, hown, Bool.false_or, Bool.or_eq_false_iff, nests_dropAll, ih,
        List.flatten_cons]
      simp only [List.mem_append, or_imp, forall_and]

/-- A section of `m` around the drops of a container. -/
theorem nests_under (th : Thread) (m m' : Mutex) (refs : List Drops) (next : Script Mutex) :
    (Script.under m (dropAll th refs) next).nests m' = false
      ↔ (m = m' → ∀ p ∈ refs, (p.script th).locks m' = false)
        ∧ (∀ p ∈ refs, (p.script th).nests m' = false) ∧ next.nests m' = false := by
  rw [Script.nests, Bool.or_eq_false_iff, Bool.or_eq_false_iff, nests_dropAll, and_assoc]
  refine and_congr ?_ Iff.rfl
  by_cases hm : m = m'
  · subst hm
    simp [locks_dropAll]
  · simp [hm]

/-! ## The operations -/

/-- On the thread of `Multi::drop`, sockets are all that can nest. -/
theorem nests_dropping {p : Drops} (h : (p.script dropping).nests .slab = false) (m : Mutex) :
    (p.script dropping).nests m = false := by
  cases m with
  | injector => exact script_injector dropping p
  | localQueue i => exact Script.nests_of_not_locks (script_localQueue dropping p i)
  | inner => exact Script.nests_of_not_locks (script_inner rfl p)
  | slab => exact h

theorem clear_ok_iff (timers : List Drops) :
    (clear dropping timers).run [] = .ok () ↔
      ∀ p ∈ timers, (p.script dropping).nests .slab = false := by
  rw [Script.run_nil_iff]
  constructor
  · intro h
    exact ((nests_under dropping .inner .slab timers .done).mp (h .slab)).2.1
  · intro h m
    refine (nests_under dropping .inner m timers .done).mpr ⟨?_, ?_, rfl⟩
    · intro hm p _
      subst hm
      exact script_inner rfl p
    · intro p hp
      exact nests_dropping (h p hp) m

theorem multiDrop_ok_iff (c : Contents) :
    (multiDrop c).run [] = .ok () ↔
      (∀ p ∈ c.injector, p.spawns = false)
      ∧ ∀ p ∈ c.all, (p.script dropping).nests .slab = false := by
  have hall : ∀ m, (multiDrop c).nests m = false ↔
      (Mutex.injector = m → ∀ p ∈ c.injector, (p.script dropping).locks m = false)
      ∧ (∀ p ∈ c.all, (p.script dropping).nests m = false) := by
    intro m
    have hinner : Mutex.inner = m → ∀ p ∈ c.timers, (p.script dropping).locks m = false := by
      intro hm p _
      subst hm
      exact script_inner rfl p
    rw [multiDrop, nests_under, Script.nests_append, Bool.or_eq_false_iff, nests_clearLocals, clear,
      nests_under]
    simp only [Contents.all, List.mem_append, or_imp, forall_and, Script.nests]
    constructor
    · intro h
      exact ⟨h.1, ⟨h.2.1, h.2.2.1⟩, h.2.2.2.2.1⟩
    · intro h
      exact ⟨h.1, h.2.1.1, h.2.1.2, hinner, h.2.2, trivial⟩
  simp only [Script.run_nil_iff, ← locks_injector_dropping]
  constructor
  · intro h
    exact ⟨((hall .injector).mp (h .injector)).1 rfl, ((hall .slab).mp (h .slab)).2⟩
  · intro h m
    refine (hall m).mpr ⟨?_, fun p hp => nests_dropping (h.2 p hp) m⟩
    intro hm
    subst hm
    exact h.1

/-- On a worker, a section of `m` around a drop. -/
theorem under_ok_iff {m m' : Mutex} (hm : m = .inner ∧ m' = .slab ∨ m = .slab ∧ m' = .inner)
    (refs : List Drops) :
    (Script.under m (dropAll worker refs) .done).run [] = .ok () ↔
      ∀ p ∈ refs, (p.script worker).locks m = false ∧ (p.script worker).nests m' = false := by
  rw [Script.run_nil_iff]
  constructor
  · intro h p hp
    exact ⟨((nests_under worker m m refs .done).mp (h m)).1 rfl p hp,
      ((nests_under worker m m' refs .done).mp (h m')).2.1 p hp⟩
  · intro h k
    refine (nests_under worker m k refs .done).mpr ⟨?_, ?_, rfl⟩
    · intro hk p hp
      subst hk
      exact (h p hp).1
    · intro p hp
      obtain ⟨hlock, hnest⟩ := h p hp
      have hself := Script.nests_of_not_locks hlock
      cases k with
      | injector => exact script_injector worker p
      | localQueue i => exact Script.nests_of_not_locks (script_localQueue worker p i)
      | inner =>
          rcases hm with ⟨hm, _⟩ | ⟨_, hm⟩
          · rw [← hm]
            exact hself
          · rw [← hm]
            exact hnest
      | slab =>
          rcases hm with ⟨_, hm⟩ | ⟨hm, _⟩
          · rw [← hm]
            exact hnest
          · rw [← hm]
            exact hself

/--
**The thread never waits for itself, exactly if the destructors keep out of what is held.**

`Multi::drop` gets through if and only if no destructor that runs while it clears the
injector spawns, and no socket is dropped inside the drop of another one's slot.
`Driver::clear`, on the same thread, needs only the latter. On a worker, `Driver::cancel` gets
through if and only if the drop of the waker drops no registered sleep and no socket inside
another one's slot; `set_waker` and `deregister` if and only if the drops of the wakers drop no
socket, and no registered sleep inside the cancellation of another.
-/
theorem no_self_deadlock (c : Contents) (timers : List Drops) (waker old read write : Option Drops)
    (live deleted : Bool) :
    ((multiDrop c).run [] = .ok () ↔
      (∀ p ∈ c.injector, p.spawns = false)
      ∧ ∀ p ∈ c.all, (p.script dropping).nests .slab = false)
    ∧ ((clear dropping timers).run [] = .ok () ↔
        ∀ p ∈ timers, (p.script dropping).nests .slab = false)
    ∧ ((cancel worker waker).run [] = .ok () ↔
        ∀ p ∈ waker, (p.script worker).locks .inner = false
          ∧ (p.script worker).nests .slab = false)
    ∧ ((setWaker worker live old).run [] = .ok () ↔
        (live = true → ∀ p ∈ old, (p.script worker).locks .slab = false
          ∧ (p.script worker).nests .inner = false))
    ∧ ((deregister worker deleted read write).run [] = .ok () ↔
        (deleted = true → ∀ p, p ∈ read ∨ p ∈ write → (p.script worker).locks .slab = false
          ∧ (p.script worker).nests .inner = false)) := by
  refine ⟨multiDrop_ok_iff c, clear_ok_iff timers, ?_, ?_, ?_⟩
  · rw [cancel, under_ok_iff (.inl ⟨rfl, rfl⟩)]
    simp only [Option.mem_toList, Option.mem_def]
  · cases live with
    | false => simp [setWaker, Script.run, bind, Except.bind]
    | true =>
        rw [setWaker, if_pos rfl, under_ok_iff (.inr ⟨rfl, rfl⟩)]
        simp only [Option.mem_toList, Option.mem_def, forall_const]
  · cases deleted with
    | false => simp [deregister, Script.run]
    | true =>
        rw [deregister, if_pos rfl, under_ok_iff (.inr ⟨rfl, rfl⟩)]
        simp only [List.mem_append, Option.mem_toList, Option.mem_def, forall_const]

/-- A future whose destructor spawns. -/
def spawner : Drops := .spawn (.join .done .done .done)

/-- A future that owns a sleep and a socket. -/
def sleeper : Drops := .sleep true .done (.stream true .done .done)

/-- The spawner is in the injector when the runtime is dropped; the last reference to the sleeper
is a waker in the timer map, or in a slot. -/
theorem self_deadlock :
    (multiDrop { injector := [spawner], locals := [], timers := [] }).run [] = .error .injector
    ∧ (clear dropping [.stream true sleeper .done]).run [] = .error .slab
    ∧ (cancel worker (some sleeper)).run [] = .error .inner
    ∧ (setWaker worker true (some sleeper)).run [] = .error .slab
    ∧ (deregister worker true (some sleeper) none).run [] = .error .slab :=
  ⟨rfl, rfl, rfl, rfl, rfl⟩

end Nanorun.Destructors
