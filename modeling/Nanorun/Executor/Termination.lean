import Nanorun.Executor.Dead
import Nanorun.Executor.Progress

/-!
# Dropping the runtime comes to an end

Once `shutdown` is stored, a worker goes round its loop no more: wherever it stands, the
way from there leads to the top of the loop and out, and `WorkerPc.left` counts its steps.
`Multi::drop` itself goes straight through. So whatever the calls do meanwhile, the
workers and the drop have a bounded number of steps in them, and the drop returns unless
a worker is stranded on the way.
-/

namespace Nanorun.Executor

open Function Transition

variable {n : Nat} {τ : Type}

/-! ## The steps that are left -/

/-- The steps to the end of `run_worker`, with `shutdown` stored. -/
def WorkerPc.left (n : Nat) : WorkerPc τ → Nat
  | .exited => 0
  | .loopTop => 1
  | .start | .poll _ | .advance | .releaseEarly | .park | .idleShutdown => 2
  | .stealExtend _ _ | .releaseDriver | .unsetParked => 3
  | .steal _ k => 4 + (n - k)
  | .clearParked => 4
  | .reactorPoll _ => 5
  | .popSecond => n + 5
  | .popFirst => n + 6
  | .nextDeadline => 6
  | .hasWork true (.peer k) => 7 + (n - k)
  | .hasWork true .injector => n + 8
  | .hasWork true .own => n + 9
  | .setParked => n + 10
  | .casDriver => n + 11
  | .hasWork false (.peer k) => n + 12 + (n - k)
  | .hasWork false .injector => 2 * n + 13
  | .hasWork false .own => 2 * n + 14

/-- The steps to the end of `Multi::drop`. -/
def DropPc.left (n : Nat) : DropPc → Nat
  | .returned => 0
  | .clearDriver => 1
  | .clearLocal k => 2 + (n - k)
  | .clearInjector => n + 3
  | .join k => n + 4 + (n - k)
  | .unpark k => 2 * n + 5 + (n - k)
  | .wake => 3 * n + 6
  | .notStarted => 3 * n + 7

def World.left (w : World n τ) : Nat := ∑ i, (w.threads i).pc.left n + w.drop.left n

/-- Worker 0 drives, worker 1 is parked; the runtime is dropped and everybody leaves. -/
def dropAll : List (Label 2 Nat) :=
  List.flatten [goes 0 21, goes 1 14, List.replicate 5 .drop, goes 1 2, [.worker 0 .wake], goes 0 2,
    [.worker 0 (.deadline none)], goes 0 1, List.replicate 8 .drop]

end Nanorun.Executor
