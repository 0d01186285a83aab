import Mathlib.Algebra.Order.Group.Multiset
import Mathlib.Algebra.BigOperators.Group.Multiset.Basic
import Nanorun.Lib.Bits
import Nanorun.Lib.Transition

/-!
# One task as a step system

`task/raw.rs`, `task/join.rs` and `waker/mod.rs` for a single task: its header
word, its stage cell, its strong count, the run queues' references to it, the
wakers made from it, its one `JoinHandle`, and any number of threads inside
`poll_fn`, `schedule_fn` or `Spawner::schedule`. Each atomic access, each lock
section and each touch of the cell is one step.

A thread is a frame; threads standing at the same place with the same locals are
interchangeable, so the threads form a multiset. A call made from inside another
call (a future that wakes its own task, say) is a frame of its own.

Borrowing is as in Rust: `wake_by_ref` holds a `&Waker` for the whole call, so
that waker is not dropped meanwhile, and the waker that `poll_fn` lends to the
future is not borrowed any more when the future's `poll` has returned.

Ghost fields record what became of the output (`returned` by the future, `moved`
out to the handle's owner, `dropped` in place) and which join wakers were woken.
-/

namespace Nanorun.Task

open Bits

/-- `NOTIFIED`, `RUNNING`, `COMPLETE`, `JOIN_INTEREST` and `JOIN_WAKER`. -/
abbrev notified : Word := bit 0
abbrev running : Word := bit 1
abbrev complete : Word := bit 2
abbrev joinInterest : Word := bit 3
abbrev joinWaker : Word := bit 4

/-- The contents of the cell; the future itself is opaque. -/
inductive Stage (V : Type) where
  | pending
  | ready (v : V)
  | empty
  deriving DecidableEq, Repr

/-- What is dropped when the stage is overwritten. -/
def Stage.output {V : Type} : Stage V → List V
  | .ready v => [v]
  | _ => []

/-- A waker of the task. -/
inductive WakerState where
  | dead
  /-- Owned by user code. -/
  | owned
  /-- The waker of a running `poll_fn`: held by it, or lent to the future. -/
  | kept
  | lent
  deriving DecidableEq, Repr

/-- Where the `JoinHandle` stands. -/
inductive Handle (V W : Type) where
  /-- Not yet built: `Spawner::spawn` still holds the join reference. -/
  | spawning
  /-- In no call; the waker of the last poll if that returned `Pending`, and when. -/
  | idle (last : Option (W × Nat))
  | load1 (w : W)
  | install (w : W)
  | setBit (w : W)
  | load2 (w : W)
  /-- `take_ready`: the load, the cell, then `self.raw = None`. -/
  | takeLoad
  | takeCell
  | dropRaw (v : V)
  | yielded (v : V)
  /-- `Drop for JoinHandle`. -/
  | dropFetch
  | dropCell
  | dropRef
  | dropped
  /-- `block_on_handle` inside `thread::park` after a `Pending`. -/
  | parked (w : W) (since : Nat)
  /-- The panic of `take_ready`. -/
  | panicked
  deriving DecidableEq, Repr

/-- The allocation, the references to it, and the ghost record. -/
structure RawTask (V W : Type) where
  state : Word
  joinSlot : Option W
  cell : Stage V
  strong : Nat
  freed : Bool
  /-- References sitting in a run queue. -/
  queued : Nat
  wakers : List WakerState
  handle : Handle V W
  shutdown : Bool
  returned : List V
  moved : List V
  dropped : List V
  woken : List W

/-- Who called `Spawner::schedule`, and what it still holds afterwards. -/
inductive Caller where
  /-- `Waker::wake`: nothing. -/
  | value
  /-- `Waker::wake_by_ref`: the borrowed waker. -/
  | byRef (wk : Nat)
  /-- The reschedule at the end of `poll_fn`: its `arc` and its waker. -/
  | poll (wk : Nat)
  deriving DecidableEq, Repr

/-- Where a thread stands. -/
inductive Frame (V W : Type) where
  /-- `Spawner::spawn`: the push, then `JoinHandle::new`. -/
  | spawnPush
  | spawnJoin
  /-- A reference on its way from one local queue to another. -/
  | stolen
  /-- Popped by a worker; `poll_fn` up to winning the `RUNNING` bit. -/
  | popped
  | cas (st : Word)
  | mkWaker
  | matchStage (wk : Nat)
  /-- Inside the future's `poll`. -/
  | polling (wk : Nat)
  | writeReady (wk : Nat) (v : V)
  | setComplete (wk : Nat)
  | clearRunning (wk : Nat) (merged : Word)
  | writeEmpty (wk : Nat)
  | takeJoin (wk : Nat)
  | wakeJoin (wk : Nat) (w : W)
  | clearPending (wk : Nat)
  | incResched (wk : Nat)
  /-- The locals of `poll_fn` go out of scope: the waker, then the `arc`. -/
  | dropWaker (wk : Nat)
  | dropArc
  /-- `task_wake_by_ref`: the clone. -/
  | wakeClone (wk : Nat)
  /-- `schedule_fn`. -/
  | fetchNotified (who : Caller)
  /-- `Spawner::schedule`; every step reads `self.shared`. -/
  | schedShutdown (who : Caller)
  | schedPush (who : Caller)
  | schedParked (who : Caller)
  | schedUnpark (who : Caller)
  /-- A reference that was not handed to the queue is released. -/
  | release (who : Caller)
  | done
  /-- The `unreachable!` of `poll_fn`. -/
  | panicked (wk : Nat)
  deriving DecidableEq, Repr

/-- What the future answers, and whether a weak exchange fails for no reason. -/
inductive Choice (V : Type) where
  | go
  | ready (v : V)
  | pending
  | spurious
  deriving DecidableEq, Repr

variable {V W : Type}

/-- Release one strong count; the last one frees the allocation and what is in the cell. -/
def RawTask.release (t : RawTask V W) : RawTask V W :=
  { t with
    strong := t.strong - 1
    freed := t.freed || decide (t.strong = 1)
    dropped := if t.strong = 1 then t.dropped ++ t.cell.output else t.dropped }

/-- Write the cell, dropping what was in it. -/
def RawTask.writeCell (t : RawTask V W) (s : Stage V) : RawTask V W :=
  { t with cell := s, dropped := t.dropped ++ t.cell.output }

def RawTask.setWaker (t : RawTask V W) (wk : Nat) (s : WakerState) : RawTask V W :=
  { t with wakers := t.wakers.set wk s }

/-- Back to the caller of `Spawner::schedule`. -/
def Caller.back : Caller → Frame V W
  | .poll wk => .dropWaker wk
  | _ => .done

/-- The `RUNNING` or `COMPLETE` bail-out of `poll_fn`. -/
def bails (st : Word) : Bool := has st running || has st complete

/-- Where the completing worker goes after clearing `RUNNING`. -/
def afterComplete (wk : Nat) (merged : Word) : Frame V W :=
  if has merged joinInterest = false then .writeEmpty wk
  else if has merged joinWaker then .takeJoin wk
  else .dropWaker wk

/-- One step of a thread; `borrowed` tells which wakers some thread holds a `&Waker` to. -/
def frameNext (t : RawTask V W) (borrowed : Nat → Bool) (f : Frame V W) (c : Choice V) :
    Option (RawTask V W × Frame V W) :=
  match f, c with
  | .spawnPush, .go => some ({ t with queued := t.queued + 1 }, .spawnJoin)
  | .spawnJoin, .go => some ({ t with handle := .idle none }, .done)
  | .stolen, .go => some ({ t with queued := t.queued + 1 }, .done)
  | .popped, .go => some (t, .cas t.state)
  | .cas st, .go =>
      if bails st then some (t, .dropArc)
      else if t.state = st then
        some ({ t with state := (st ||| running) &&& ~~~notified }, .mkWaker)
      else some (t, .cas t.state)
  | .cas st, .spurious => if bails st then none else some (t, .cas t.state)
  | .mkWaker, .go =>
      some ({ t with strong := t.strong + 1, wakers := t.wakers ++ [.kept] },
        .matchStage t.wakers.length)
  | .matchStage wk, .go =>
      match t.cell with
      | .pending => some (t.setWaker wk .lent, .polling wk)
      | _ => some (t, .panicked wk)
  | .polling wk, .ready v =>
      if borrowed wk then none
      else some ({ t.setWaker wk .kept with returned := t.returned ++ [v] }, .writeReady wk v)
  | .polling wk, .pending =>
      if borrowed wk then none else some (t.setWaker wk .kept, .clearPending wk)
  | .writeReady wk v, .go => some (t.writeCell (.ready v), .setComplete wk)
  | .setComplete wk, .go =>
      some ({ t with state := t.state ||| complete }, .clearRunning wk (t.state ||| complete))
  | .clearRunning wk merged, .go =>
      some ({ t with state := t.state &&& ~~~running }, afterComplete wk merged)
  | .writeEmpty wk, .go => some (t.writeCell .empty, .dropWaker wk)
  | .takeJoin wk, .go =>
      match t.joinSlot with
      | some w => some ({ t with joinSlot := none }, .wakeJoin wk w)
      | none => some (t, .dropWaker wk)
  | .wakeJoin wk w, .go => some ({ t with woken := t.woken ++ [w] }, .dropWaker wk)
  | .clearPending wk, .go =>
      some ({ t with state := t.state &&& ~~~running },
        if has t.state notified then .incResched wk else .dropWaker wk)
  | .incResched wk, .go => some ({ t with strong := t.strong + 1 }, .schedShutdown (.poll wk))
  | .dropWaker wk, .go => some ((t.setWaker wk .dead).release, .dropArc)
  | .dropArc, .go => some (t.release, .done)
  | .wakeClone wk, .go => some ({ t with strong := t.strong + 1 }, .fetchNotified (.byRef wk))
  | .fetchNotified who, .go =>
      some ({ t with state := t.state ||| notified },
        if has t.state (running ||| notified ||| complete) then .release who
        else .schedShutdown who)
  | .schedShutdown who, .go => some (t, if t.shutdown then .release who else .schedPush who)
  | .schedPush who, .go => some ({ t with queued := t.queued + 1 }, .schedParked who)
  | .schedParked who, .go => some (t, .schedUnpark who)
  | .schedUnpark who, .go => some (t, who.back)
  | .release who, .go => some (t.release, who.back)
  | _, _ => none

/-- What the owner of the `JoinHandle` does. -/
inductive HandleOp (W : Type) where
  | poll (w : W)
  | drop
  /-- The next step of the call in progress. -/
  | step
  /-- `block_on_handle` parks after a `Pending`; when it comes back it polls again. -/
  | park
  | unpark
  deriving DecidableEq, Repr

/-- One step of the `JoinHandle`. -/
def handleNext (t : RawTask V W) (op : HandleOp W) : Option (RawTask V W) :=
  match t.handle, op with
  | .idle _, .poll w => some { t with handle := .load1 w }
  | .load1 w, .step =>
      some { t with handle := if has t.state complete then .takeLoad else .install w }
  | .install w, .step => some { t with joinSlot := some w, handle := .setBit w }
  | .setBit w, .step => some { t with state := t.state ||| joinWaker, handle := .load2 w }
  | .load2 w, .step =>
      some { t with
        handle := if has t.state complete then .takeLoad else .idle (some (w, t.woken.length)) }
  | .takeLoad, .step =>
      some { t with handle := if has t.state complete then .takeCell else .panicked }
  | .takeCell, .step =>
      match t.cell with
      | .ready v => some { t with cell := .empty, moved := t.moved ++ [v], handle := .dropRaw v }
      | _ => some { t with cell := .empty, handle := .panicked }
  | .dropRaw v, .step => some { t.release with handle := .yielded v }
  | .idle _, .drop => some { t with handle := .dropFetch }
  | .dropFetch, .step =>
      some { t with
        state := t.state &&& ~~~joinInterest
        handle := if has t.state complete then .dropCell else .dropRef }
  | .dropCell, .step => some { t.writeCell .empty with handle := .dropRef }
  | .dropRef, .step => some { t.release with handle := .dropped }
  | .idle (some (w, since)), .park => some { t with handle := .parked w since }
  | .parked w _, .unpark => some { t with handle := .load1 w }
  | _, _ => none

/-- The waker a thread holds a `&Waker` to. -/
def Frame.borrows : Frame V W → Option Nat
  | .wakeClone wk => some wk
  | .fetchNotified (.byRef wk) | .schedShutdown (.byRef wk) | .schedPush (.byRef wk)
  | .schedParked (.byRef wk) | .schedUnpark (.byRef wk) | .release (.byRef wk) => some wk
  | _ => none

/-- A task and the threads working on it. -/
structure World (V W : Type) where
  task : RawTask V W
  frames : Multiset (Frame V W)

/-- Some thread holds a `&Waker` to waker `wk`. -/
def borrowed (frames : Multiset (Frame V W)) (wk : Nat) : Bool :=
  decide (0 < frames.countP fun f => f.borrows = some wk)

/-- The waker can be cloned or woken by reference: user code has it, or the running future. -/
def RawTask.usable (t : RawTask V W) (wk : Nat) : Bool :=
  decide (t.wakers[wk]? = some .owned ∨ t.wakers[wk]? = some .lent)

/-- The waker is user code's to give away, and nobody borrows it. -/
def World.owns (w : World V W) (wk : Nat) : Bool :=
  decide (w.task.wakers[wk]? = some .owned) && !borrowed w.frames wk

/-- Who moves. -/
inductive Label (V W : Type) where
  | thread (f : Frame V W) (c : Choice V)
  /-- A worker pops or steals a reference; `Multi::drop` drains one; the runtime shuts down. -/
  | pop
  | steal
  | drain
  | shutdown
  | wake (wk : Nat)
  | wakeByRef (wk : Nat)
  | cloneWaker (wk : Nat)
  | dropWaker (wk : Nat)
  | handle (op : HandleOp W)
  deriving DecidableEq

/-- A reference leaves the run queues and a thread holds it. -/
def World.dequeue (w : World V W) (f : Frame V W) : Option (World V W) :=
  if 0 < w.task.queued then
    some { task := { w.task with queued := w.task.queued - 1 }, frames := f ::ₘ w.frames }
  else none

section

variable [DecidableEq V] [DecidableEq W]

/-- One step of the task. -/
def World.step (w : World V W) : Label V W → Option (World V W)
  | .thread f c =>
      if f ∈ w.frames then
        (frameNext w.task (borrowed w.frames) f c).map fun r =>
          { task := r.1, frames := r.2 ::ₘ w.frames.erase f }
      else none
  | .pop => w.dequeue .popped
  | .steal => w.dequeue .stolen
  | .drain => if w.task.shutdown then w.dequeue .dropArc else none
  | .shutdown => some { w with task := { w.task with shutdown := true } }
  | .wake wk =>
      if w.owns wk then
        some { task := w.task.setWaker wk .dead, frames := .fetchNotified .value ::ₘ w.frames }
      else none
  | .wakeByRef wk =>
      if w.task.usable wk then some { w with frames := .wakeClone wk ::ₘ w.frames } else none
  | .cloneWaker wk =>
      if w.task.usable wk then
        some { w with
          task := { w.task with strong := w.task.strong + 1, wakers := w.task.wakers ++ [.owned] } }
      else none
  | .dropWaker wk =>
      if w.owns wk then some { w with task := (w.task.setWaker wk .dead).release } else none
  | .handle op => (handleNext w.task op).map fun t => { w with task := t }

/-- `spawn_raw`, inside `Spawner::spawn`: two counts, one for the queue and one for the handle. -/
def World.spawnRaw : World V W where
  task :=
    { state := notified ||| joinInterest, joinSlot := none, cell := .pending, strong := 2,
      freed := false, queued := 0, wakers := [], handle := .spawning, shutdown := false,
      returned := [], moved := [], dropped := [], woken := [] }
  frames := {.spawnPush}

/-- One task with outputs in `V` and join wakers in `W`. -/
def taskSystem (V W : Type) [DecidableEq V] [DecidableEq W] :
    Transition.System (World V W) (Label V W) where
  init w := w = World.spawnRaw
  step := World.step

end

end Nanorun.Task
