import Nanorun.Lib.Pool
import Nanorun.Lib.Transition

/-!
# The runtime that a thread is in

`runtime/context.rs`: four thread-locals, and the RAII guards that set them. `run_worker`
installs all four, one after the other; `Multi::drop` installs the reactor's alone, once the
workers are joined, and then drops tasks, whose destructors are code of any kind. Such code
makes and drops other runtimes on the same thread, and panics; a panic unwinds through the
guards. `CTX` and `DRIVER` are raw pointers into a `Shared`, which lives as long as its
`Arc`s.

A thread is its call stack and its thread-locals. Threads that stand at the same place are
interchangeable. A panic that would leave a destructor during unwinding aborts the process,
and the run ends; one that is caught in there leaves nothing behind.
-/

namespace Nanorun.Runtime

open Pool Transition

namespace Context

/-! ## Thread-locals and guards -/

/-- `IS_WORKER`, `HANDLE`, `CTX` and `DRIVER`. -/
inductive Slot where
  | isWorker
  | handle
  | ctx
  | driver
  deriving DecidableEq, Repr

/-- The runtime that each thread-local is set for. Of `IS_WORKER` the program has only
whether it is set. -/
structure Locals where
  isWorker : Option Nat
  handle : Option Nat
  ctx : Option Nat
  driver : Option Nat
  deriving DecidableEq, Repr

def Locals.get (l : Locals) : Slot → Option Nat
  | .isWorker => l.isWorker
  | .handle => l.handle
  | .ctx => l.ctx
  | .driver => l.driver

def Locals.set (l : Locals) (v : Option Nat) : Slot → Locals
  | .isWorker => { l with isWorker := v }
  | .handle => { l with handle := v }
  | .ctx => { l with ctx := v }
  | .driver => { l with driver := v }

@[simp] theorem Locals.get_set (l : Locals) (v : Option Nat) (k k' : Slot) :
    (l.set v k).get k' = if k' = k then v else l.get k' := by
  cases k <;> cases k' <;> rfl

/-- `WorkerMarker::enter`, `HandleGuard::install`, `Guard::install` and `DriverGuard::install`:
the assertion that nothing is installed, and the store. -/
def Locals.install (l : Locals) (r : Nat) (k : Slot) : Option Locals :=
  if (l.get k).isSome then none else some (l.set (some r) k)

/-- The guards of `run_worker`, in order. -/
def Slot.nth : Nat → Option Slot
  | 0 => some .isWorker
  | 1 => some .handle
  | 2 => some .ctx
  | 3 => some .driver
  | _ => none

def Slot.index : Slot → Nat
  | .isWorker => 0
  | .handle => 1
  | .ctx => 2
  | .driver => 3

theorem Slot.nth_eq_some {g : Nat} {k : Slot} : Slot.nth g = some k ↔ g = k.index := by
  constructor
  · intro h
    unfold Slot.nth at h
    split at h <;> first | (obtain rfl := Option.some.inj h; rfl) | exact absurd h (by simp)
  · rintro rfl
    cases k <;> rfl

/-! ## Threads -/

inductive DropPc where
  /-- `Multi::drop` stores `shutdown` and joins the workers. -/
  | joining
  /-- With its `Guard`, it clears the queues and the timers. -/
  | draining
  /-- The guard is dropped, and then the fields of the `Multi`. -/
  | fields
  deriving DecidableEq, Repr

inductive Frame where
  /-- Code of the application, on a thread of its own. -/
  | outside
  /-- `run_worker`, with its first `guards` guards; `leaving` them, or not yet. -/
  | worker (r : Nat) (guards : Nat) (leaving : Bool)
  | drop (r : Nat) (pc : DropPc)
  deriving DecidableEq, Repr

structure Call where
  frame : Frame
  unwinding : Bool
  deriving DecidableEq, Repr

structure Thread where
  stack : List Call
  locals : Locals
  deriving DecidableEq, Repr

/-- Other people's code runs: a task, or a destructor. -/
def Frame.user : Frame → Bool
  | .outside | .drop _ .draining => true
  | .worker _ g _ => (Slot.nth g).isNone
  | .drop _ _ => false

def Frame.unwind : Frame → Frame
  | .worker r g _ => .worker r g true
  | .drop r .joining => .drop r .fields
  | f => f

def Call.panic (c : Call) : Call := { frame := c.frame.unwind, unwinding := true }

/-- The call is over; a panic goes on in its caller. -/
def Call.leave (c : Call) : List Call → List Call
  | [] => []
  | b :: below => (if c.unwinding then b.panic else b) :: below

/-- Other people's code runs in the innermost call. -/
def Thread.user (th : Thread) : Bool := th.stack.head?.any fun c => c.frame.user

def Thread.panic (th : Thread) : Thread :=
  match th.stack with
  | [] => th
  | c :: below => { th with stack := c.panic :: below }

/-- A panic is caught where it was raised: in a task, or in a destructor. -/
def Call.catchUnwind (c : Call) : Call :=
  if c.unwinding then
    { frame := match c.frame with
        | .worker r g _ => .worker r g false
        | f => f
      unwinding := false }
  else c

def Thread.catchUnwind (th : Thread) : Thread :=
  match th.stack with
  | [] => th
  | c :: below => { th with stack := c.catchUnwind :: below }

/-- What a step does to its thread, and to the `Arc`s. -/
structure Outcome where
  thread : Thread
  acquires : Option Nat
  releases : Option Nat

/-- The next step of the runtime's own code; `joined r` if the workers of `r` are gone. -/
def advance (joined : Nat → Bool) (th : Thread) : Option Outcome :=
  match th.stack with
  | [] => none
  | c :: below =>
      let goto (f : Frame) (l : Locals) : Thread :=
        { stack := { c with frame := f } :: below, locals := l }
      let leave : Thread := { th with stack := c.leave below }
      match c.frame with
      | .outside => some { thread := leave, acquires := none, releases := none }
      | .worker r g false =>
          match Slot.nth g with
          | some k =>
              match th.locals.install r k with
              | some l =>
                  some {
                    thread := goto (.worker r (g + 1) false) l
                    -- the `Handle` that is installed has an `Arc` of its own
                    acquires := if k = .handle then some r else none
                    releases := none }
              | none => some { thread := th.panic, acquires := none, releases := none }
          -- the loop sees `shutdown`
          | none => some { thread := goto (.worker r g true) th.locals, acquires := none, releases := none }
      | .worker r 0 true => some { thread := leave, acquires := none, releases := some r }
      | .worker r (g + 1) true =>
          match Slot.nth g with
          | some k =>
              some {
                thread := goto (.worker r g true) (th.locals.set none k)
                acquires := none
                releases := if k = .handle then some r else none }
          | none => none
      | .drop r .joining =>
          if joined r then
            match th.locals.install r .ctx with
            | some l => some { thread := goto (.drop r .draining) l, acquires := none, releases := none }
            | none => some { thread := th.panic, acquires := none, releases := none }
          else none
      | .drop r .draining =>
          some { thread := goto (.drop r .fields) (th.locals.set none .ctx), acquires := none, releases := none }
      | .drop r .fields => some { thread := leave, acquires := none, releases := some r }

/-! ## Runtimes -/

structure World where
  born : Nat → Bool
  /-- `Arc::strong_count` of the `Shared`, and whether it has reached 0. -/
  strong : Nat → Nat
  freed : Nat → Bool
  /-- There is a `Multi` that nobody has begun to drop. -/
  owned : Nat → Bool
  /-- `Handle`s and `Spawner`s, in tasks and elsewhere. -/
  handles : Nat → Nat
  threads : Multiset Thread

def World.acquire (w : World) (r : Nat) : World :=
  { w with strong := Function.update w.strong r (w.strong r + 1) }

def World.release (w : World) (r : Nat) : World :=
  { w with
    strong := Function.update w.strong r (w.strong r - 1)
    freed := Function.update w.freed r (w.freed r || decide (w.strong r = 1)) }

def World.optional (w : World) (f : World → Nat → World) : Option Nat → World
  | none => w
  | some r => f w r

/-- The thread `th` becomes `th'`. -/
def World.replace (w : World) (th th' : Thread) : World :=
  { w with threads := th' ::ₘ w.threads.erase th }

def Frame.worksFor (r : Nat) : Frame → Bool
  | .worker r' _ _ => r' = r
  | _ => false

/-- The thread has not returned from the `run_worker` of `r`. -/
def Thread.worksFor (r : Nat) (th : Thread) : Bool := th.stack.any fun c => c.frame.worksFor r

/-- `run_worker` of `r` on a fresh thread. -/
def Thread.start (r : Nat) : Thread where
  stack := [{ frame := .worker r 0 false, unwinding := false }]
  locals := { isWorker := none, handle := none, ctx := none, driver := none }

/-- A thread of the application. -/
def Thread.application : Thread where
  stack := [{ frame := .outside, unwinding := false }]
  locals := { isWorker := none, handle := none, ctx := none, driver := none }

inductive Label where
  /-- The runtime's code goes on. -/
  | advance (th : Thread)
  /-- Something on the thread panics; other people's code catches it. -/
  | panic (th : Thread)
  | catchUnwind (th : Thread)
  /-- `Multi::new` of `r` has started `n` workers, and has failed if not `ok`. -/
  | create (th : Thread) (r n : Nat) (ok : Bool)
  /-- The `Multi` of `r` is dropped. -/
  | drop (th : Thread) (r : Nat)
  /-- `Handle::current` -/
  | current (th : Thread)
  | clone (r : Nat)
  | release (r : Nat)
  /-- The application starts a thread. -/
  | thread
  deriving DecidableEq

def next (w : World) : Label → Option World
  | .advance th =>
      if th ∈ w.threads then
        (advance (fun r => decide (∀ u ∈ w.threads, u.worksFor r = false)) th).map fun o =>
          ((w.replace th o.thread).optional World.acquire o.acquires).optional World.release o.releases
      else none
  | .panic th => if th ∈ w.threads then some (w.replace th th.panic) else none
  | .catchUnwind th =>
      if th ∈ w.threads ∧ th.user = true then some (w.replace th th.catchUnwind) else none
  | .create th r n ok =>
      if th ∈ w.threads ∧ th.user = true ∧ w.born r = false ∧ (ok = true → 1 ≤ n) then
        let w := w.replace th (if ok then th else th.panic)
        some { w with
          born := Function.update w.born r true
          strong := Function.update w.strong r (n + ok.toNat)
          -- without a worker, the `Shared` goes with the failed `Multi::new`
          freed := Function.update w.freed r (decide (n + ok.toNat = 0))
          owned := Function.update w.owned r ok
          threads := .replicate n (Thread.start r) + w.threads }
      else none
  | .drop th r =>
      if th ∈ w.threads ∧ th.user = true ∧ w.owned r = true then
        some { w.replace th { th with
            stack := { frame := .drop r .joining, unwinding := false } :: th.stack } with
          owned := Function.update w.owned r false }
      else none
  | .current th =>
      if th ∈ w.threads ∧ th.user = true then
        th.locals.handle.map fun r =>
          { w.acquire r with handles := Function.update w.handles r (w.handles r + 1) }
      else none
  | .clone r =>
      if w.owned r = true ∨ 0 < w.handles r then
        some { w.acquire r with handles := Function.update w.handles r (w.handles r + 1) }
      else none
  | .release r =>
      if 0 < w.handles r then
        some { w.release r with handles := Function.update w.handles r (w.handles r - 1) }
      else none
  | .thread => some { w with threads := Thread.application ::ₘ w.threads }

def start : World where
  born _ := false
  strong _ := 0
  freed _ := false
  owned _ := false
  handles _ := 0
  threads := 0

def system : System World Label where
  init w := w = start
  step := next

end Context

end Nanorun.Runtime
