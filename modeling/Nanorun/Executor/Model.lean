import Mathlib.Algebra.GroupWithZero.Nat
import Mathlib.Logic.Function.Basic
import Nanorun.Lib.Transition

/-!
# The multi-worker executor as a step system

`executor/multi.rs` and `executor/multi/worker.rs`: `n` worker threads running
`run_worker`, any number of threads inside `Spawner::schedule`, `Spawner::spawn`
or `Driver::register`, and one thread that may run `Multi::drop`.

Each atomic access, each mutex-protected section, each park or unpark and each
reactor wake or return is one step. A thread is a program counter; what it does
next is read off the source line the counter stands at. Two things are sticky
until consumed: a thread's unpark token and the reactor's wake (the eventfd).

What the model leaves open is in the labels: why `Reactor::poll` returned,
whether `thread::park` returned spuriously, which deadline is the next one after
`Driver::advance`. The calls a worker makes itself (wakers fired by a task's
poll, by the reactor's dispatch or by `advance`) are call frames like any
other thread's; nothing below uses that the worker waits for them.
-/

namespace Nanorun.Executor

open Function

/-- Per-tick budget before a worker prefers the injector over its local queue. -/
def pollBudget : UInt64 := 61

/-- `worker::WorkerSlot`. -/
structure WorkerSlot (τ : Type) where
  /-- The `OnceLock<Thread>`; once set, the handle's unpark token. -/
  thread : Option Bool
  /-- The worker's local deque, front first. -/
  localQueue : List τ

/-- `Shared`. The reactor is its pending wake, the timer driver its next deadline. -/
structure Shared (n : Nat) (τ : Type) where
  injector : List τ
  workers : Fin n → WorkerSlot τ
  nextUnpark : UInt64
  shutdown : Bool
  /-- A reactor wake has been issued and not yet consumed. -/
  reactorWake : Bool
  /-- What `driver.next_deadline()` answers. -/
  nextDeadline : Option Nat
  driverHeld : Bool
  driverParked : Bool

variable {n : Nat} {τ : Type}

/-! The runs of these modules name the workers of a small pool by literals. -/

scoped instance neZero_one : NeZero 1 := ⟨by decide⟩

scoped instance neZero_two : NeZero 2 := ⟨by decide⟩

scoped instance neZero_three : NeZero 3 := ⟨by decide⟩

namespace Shared

/-- Write one worker's slot. -/
def setSlot (sh : Shared n τ) (i : Fin n) (slot : WorkerSlot τ) : Shared n τ :=
  { sh with workers := update sh.workers i slot }

/-- Write one worker's local queue. -/
def setLocal (sh : Shared n τ) (i : Fin n) (q : List τ) : Shared n τ :=
  sh.setSlot i { sh.workers i with localQueue := q }

/-- `Thread::unpark` through the slot's handle, if the worker has published it. -/
def unpark (sh : Shared n τ) (i : Fin n) : Shared n τ :=
  sh.setSlot i { sh.workers i with thread := (sh.workers i).thread.map fun _ => true }

end Shared

/-- `push_global`. -/
def pushGlobal (sh : Shared n τ) (t : τ) : Shared n τ :=
  { sh with injector := sh.injector ++ [t] }

/-- `pop_global`. -/
def popGlobal (sh : Shared n τ) : Option (τ × Shared n τ) :=
  match sh.injector with
  | [] => none
  | t :: rest => some (t, { sh with injector := rest })

/-- `pop_local`: the newest task, from the back. -/
def popLocal (sh : Shared n τ) (i : Fin n) : Option (τ × Shared n τ) :=
  match (sh.workers i).localQueue.getLast? with
  | none => none
  | some t => some (t, sh.setLocal i (sh.workers i).localQueue.dropLast)

/-- `xorshift64`: the next state, which is also the output. -/
def xorshift64 (state : UInt64) : UInt64 :=
  let x := if state = 0 then 0xDEADBEEFCAFEF00D else state
  let x := x ^^^ (x <<< 13)
  let x := x ^^^ (x >>> 7)
  x ^^^ (x <<< 17)

/--
The victim's half of `steal_from`, under the victim's lock: the oldest task, the
other stolen ones, and what the victim keeps.
-/
def stealTake (q : List τ) : Option (τ × List τ × List τ) :=
  let take := (q.length + 1) / 2
  match q.take take with
  | [] => none
  | first :: stolen => some (first, stolen, q.drop take)

/-- Where `has_work` stands: own queue, injector, then the peers in order. -/
inductive Probe where
  | own
  | injector
  | peer (k : Nat)
  deriving DecidableEq, Repr

/-- What one probe answers. -/
inductive Found where
  | yes
  | no
  | next (p : Probe)
  deriving DecidableEq, Repr

/-- One lock-and-look of `has_work`. -/
def hasWork (sh : Shared n τ) (i : Fin n) : Probe → Found
  | .own => if (sh.workers i).localQueue.isEmpty then .next .injector else .yes
  | .injector => if sh.injector.isEmpty then .next (.peer 0) else .yes
  | .peer k =>
      if h : k < n then
        if k = i.val then .next (.peer (k + 1))
        else if (sh.workers ⟨k, h⟩).localQueue.isEmpty then .next (.peer (k + 1)) else .yes
      else .no

/-- Where a worker thread stands in `run_worker`, `steal` and `idle`. -/
inductive WorkerPc (τ : Type) where
  /-- Before `thread.set`. -/
  | start
  /-- `shutdown.load` at the top of the loop. -/
  | loopTop
  | popFirst
  | popSecond
  /-- The `for` loop of `steal`, about to look at victim `(start + k) % n`. -/
  | steal (start k : Nat)
  /-- `steal_from` after the victim's lock, about to extend the own queue. -/
  | stealExtend (first : τ) (stolen : List τ)
  /-- Inside `task.poll()`. -/
  | poll (t : τ)
  /-- `shutdown.load` at the top of `idle`. -/
  | idleShutdown
  /-- Inside `has_work`; `recheck` is the second call, with the driver token held. -/
  | hasWork (recheck : Bool) (p : Probe)
  /-- `driver_held.compare_exchange`. -/
  | casDriver
  | setParked
  /-- The re-check found work: `driver_parked.store(false)`, then the token. -/
  | unsetParked
  | releaseEarly
  | nextDeadline
  /-- Inside `Reactor::poll`. -/
  | reactorPoll (timeout : Option Nat)
  | clearParked
  | releaseDriver
  /-- `driver.advance(Instant::now())`. -/
  | advance
  /-- Inside `thread::park`. -/
  | park
  /-- `run_worker` has returned. -/
  | exited
  deriving DecidableEq, Repr

/-- A worker thread: its program counter and the locals of `run_worker`. -/
structure Worker (τ : Type) where
  pc : WorkerPc τ
  tick : UInt64
  rng : UInt64

/-- Why the step is enabled, where the source leaves it open. -/
inductive Choice where
  | go
  /-- `Reactor::poll` returns because of a wake, an I/O event or its timeout. -/
  | wake
  | io
  | timeout
  /-- `thread::park` returns without a token. -/
  | spurious
  /-- `advance` leaves this as the next deadline. -/
  | deadline (d : Option Nat)
  deriving DecidableEq, Repr

namespace Worker

def goto (th : Worker τ) (pc : WorkerPc τ) : Worker τ := { th with pc := pc }

/-- `steal` starts: with one worker it answers `None` at once. -/
def beginSteal (n : Nat) (th : Worker τ) : Worker τ :=
  if n ≤ 1 then th.goto .idleShutdown
  else
    let x := xorshift64 th.rng
    { th with pc := .steal (x.toNat % n) 0, rng := x }

end Worker

/-- Either continue with the popped task or do `otherwise`. -/
def took (sh : Shared n τ) (th : Worker τ) (popped : Option (τ × Shared n τ))
    (otherwise : Worker τ) : Shared n τ × Worker τ :=
  match popped with
  | some (t, sh') => (sh', th.goto (.poll t))
  | none => (sh, otherwise)

/-- One iteration of the `for` loop of `steal`. -/
def stealStep (sh : Shared n τ) (i : Fin n) (th : Worker τ) (start k : Nat) :
    Shared n τ × Worker τ :=
  if k < n then
    let victim : Fin n := ⟨(start + k) % n, Nat.mod_lt _ i.pos⟩
    if victim = i then (sh, th.goto (.steal start (k + 1)))
    else
      match stealTake (sh.workers victim).localQueue with
      | none => (sh, th.goto (.steal start (k + 1)))
      | some (first, stolen, rest) =>
          (sh.setLocal victim rest,
            th.goto (if stolen.isEmpty then .poll first else .stealExtend first stolen))
  else (sh, th.goto .idleShutdown)

/-- One step of worker `i`. -/
def workerNext (sh : Shared n τ) (i : Fin n) (th : Worker τ) (c : Choice) :
    Option (Shared n τ × Worker τ) :=
  match th.pc, c with
  | .start, .go =>
      some (sh.setSlot i { sh.workers i with thread := some false }, th.goto .loopTop)
  | .loopTop, .go =>
      some (sh, th.goto (if sh.shutdown then .exited else .popFirst))
  | .popFirst, .go =>
      some (took sh th (if th.tick % pollBudget = 0 then popGlobal sh else popLocal sh i)
        (th.goto .popSecond))
  | .popSecond, .go =>
      some (took sh th (if th.tick % pollBudget = 0 then popLocal sh i else popGlobal sh)
        (th.beginSteal n))
  | .steal start k, .go => some (stealStep sh i th start k)
  | .stealExtend first stolen, .go =>
      some (sh.setLocal i ((sh.workers i).localQueue ++ stolen), th.goto (.poll first))
  | .poll _, .go => some (sh, { th with pc := .loopTop, tick := th.tick + 1 })
  | .idleShutdown, .go =>
      some (sh, th.goto (if sh.shutdown then .loopTop else .hasWork false .own))
  | .hasWork recheck p, .go =>
      match hasWork sh i p with
      | .yes => some (sh, th.goto (if recheck then .unsetParked else .loopTop))
      | .no => some (sh, th.goto (if recheck then .nextDeadline else .casDriver))
      | .next p' => some (sh, th.goto (.hasWork recheck p'))
  | .casDriver, .go =>
      if sh.driverHeld then some (sh, th.goto .park)
      else some ({ sh with driverHeld := true }, th.goto .setParked)
  | .setParked, .go => some ({ sh with driverParked := true }, th.goto (.hasWork true .own))
  | .unsetParked, .go => some ({ sh with driverParked := false }, th.goto .releaseEarly)
  | .releaseEarly, .go => some ({ sh with driverHeld := false }, th.goto .loopTop)
  | .nextDeadline, .go => some (sh, th.goto (.reactorPoll sh.nextDeadline))
  | .reactorPoll _, .wake =>
      if sh.reactorWake then some ({ sh with reactorWake := false }, th.goto .clearParked)
      else none
  | .reactorPoll _, .io => some (sh, th.goto .clearParked)
  | .reactorPoll (some _), .timeout => some (sh, th.goto .clearParked)
  | .clearParked, .go => some ({ sh with driverParked := false }, th.goto .releaseDriver)
  | .releaseDriver, .go => some ({ sh with driverHeld := false }, th.goto .advance)
  | .advance, .deadline d => some ({ sh with nextDeadline := d }, th.goto .loopTop)
  | .park, .go =>
      if (sh.workers i).thread = some true then
        some (sh.setSlot i { sh.workers i with thread := some false }, th.goto .loopTop)
      else none
  | .park, .spurious => some (sh, th.goto .loopTop)
  | _, _ => none

/-- Where a thread stands in `Spawner::schedule`, `Spawner::spawn` or `Driver::register`. -/
inductive Call (n : Nat) (τ : Type) where
  | idle
  /-- `shutdown.load` in `schedule`. -/
  | scheduleCheck (t : τ)
  | push (t : τ)
  /-- `wake_driver_if_parked`: the load, then the wake. -/
  | loadParked
  | wakeReactor
  /-- `unpark_one`: the cursor, then the unpark. -/
  | fetchAdd
  | unpark (i : Fin n)
  /-- `Driver::register` of a deadline still ahead: the insertion, then the reactor wake. -/
  | register (deadline : Nat)
  | registerWake
  deriving DecidableEq, Repr

/-- The round-robin index of `unpark_one`; `none` when there are no workers. -/
def unparkIndex (n : Nat) (raw : UInt64) : Option (Fin n) :=
  if h : 0 < n then some ⟨raw.toNat % n, Nat.mod_lt _ h⟩ else none

/-- One step of a call. -/
def callNext (sh : Shared n τ) : Call n τ → Option (Shared n τ × Call n τ)
  | .idle => none
  | .scheduleCheck t => some (sh, if sh.shutdown then .idle else .push t)
  | .push t => some (pushGlobal sh t, .loadParked)
  | .loadParked => some (sh, if sh.driverParked then .wakeReactor else .fetchAdd)
  | .wakeReactor => some ({ sh with reactorWake := true }, .fetchAdd)
  | .fetchAdd =>
      match unparkIndex n sh.nextUnpark with
      | none => some (sh, .idle)
      | some i => some ({ sh with nextUnpark := sh.nextUnpark + 1 }, .unpark i)
  | .unpark i => some (sh.unpark i, .idle)
  | .register d =>
      some ({ sh with nextDeadline := some ((sh.nextDeadline.getD d).min d) }, .registerWake)
  | .registerWake => some ({ sh with reactorWake := true }, .idle)

/-- Where `Multi::drop` stands. -/
inductive DropPc where
  | notStarted
  | wake
  | unpark (k : Nat)
  | join (k : Nat)
  | clearInjector
  | clearLocal (k : Nat)
  | clearDriver
  | returned
  deriving DecidableEq, Repr

/-- One step of `Multi::drop`; `threads` is read by the joins. -/
def dropNext (sh : Shared n τ) (threads : Fin n → Worker τ) :
    DropPc → Option (Shared n τ × DropPc)
  | .notStarted => some ({ sh with shutdown := true }, .wake)
  | .wake => some ({ sh with reactorWake := true }, .unpark 0)
  | .unpark k =>
      if h : k < n then some (sh.unpark ⟨k, h⟩, .unpark (k + 1)) else some (sh, .join 0)
  | .join k =>
      if h : k < n then
        match (threads ⟨k, h⟩).pc with
        | .exited => some (sh, .join (k + 1))
        | _ => none
      else some (sh, .clearInjector)
  | .clearInjector => some ({ sh with injector := [] }, .clearLocal 0)
  | .clearLocal k =>
      if h : k < n then some (sh.setLocal ⟨k, h⟩ [], .clearLocal (k + 1))
      else some (sh, .clearDriver)
  | .clearDriver => some ({ sh with nextDeadline := none }, .returned)
  | .returned => none

/-- The runtime and every thread that touches it. -/
structure World (n : Nat) (τ : Type) where
  shared : Shared n τ
  threads : Fin n → Worker τ
  calls : Nat → Call n τ
  drop : DropPc

/-- Who moves. -/
inductive Label (n : Nat) (τ : Type) where
  | worker (i : Fin n) (c : Choice)
  /-- A thread enters `Spawner::schedule`, `Spawner::spawn` or `Driver::register`. -/
  | schedule (c : Nat) (t : τ)
  | spawn (c : Nat) (t : τ)
  | register (c : Nat) (deadline : Nat)
  | call (c : Nat)
  | drop
  deriving DecidableEq, Repr

/-- A thread that is in no call enters one. -/
def World.enter (w : World n τ) (c : Nat) (call : Call n τ) : Option (World n τ) :=
  match w.calls c with
  | .idle => some { w with calls := update w.calls c call }
  | _ => none

/-- One step of the runtime. -/
def World.step (w : World n τ) : Label n τ → Option (World n τ)
  | .worker i c =>
      (workerNext w.shared i (w.threads i) c).map fun r =>
        { w with shared := r.1, threads := update w.threads i r.2 }
  | .schedule c t => w.enter c (.scheduleCheck t)
  | .spawn c t => w.enter c (.push t)
  | .register c d => w.enter c (.register d)
  | .call c =>
      (callNext w.shared (w.calls c)).map fun r =>
        { w with shared := r.1, calls := update w.calls c r.2 }
  | .drop =>
      (dropNext w.shared w.threads w.drop).map fun r => { w with shared := r.1, drop := r.2 }

/-- `Multi::new`, with every worker thread about to start. -/
def World.new (n : Nat) (τ : Type) : World n τ where
  shared :=
    { injector := [], workers := fun _ => { thread := none, localQueue := [] }, nextUnpark := 0,
      shutdown := false, reactorWake := false, nextDeadline := none,
      driverHeld := false, driverParked := false }
  threads := fun i =>
    { pc := .start, tick := 0, rng := (UInt64.ofNat i.val + 1) * 0x9E3779B97F4A7C15 }
  calls := fun _ => .idle
  drop := .notStarted

/-- The executor with `n` workers. -/
def executor (n : Nat) (τ : Type) : Transition.System (World n τ) (Label n τ) where
  init w := w = World.new n τ
  step := World.step

end Nanorun.Executor
