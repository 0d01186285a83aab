import Nanorun.Executor.Fifo
import Nanorun.Task.References
import Nanorun.Task.RunToken

/-!
# The executor and its tasks together

The executor's model moves task names about, the task's model counts the references to
one task in the run queues. Here they run side by side: `n` workers, and a task for
every name that has been spawned. They meet where the source does: a push puts the name
into the injector and a reference into the queues, a worker that takes the name pops the
reference, `Multi::drop` stores the one `shutdown` flag that all of them read and clears
the injector of all its references.

Between these points the two models take their steps on their own, in any order. So the
runs are those of the program and some more, and what holds in all of them holds in it.
-/

namespace Nanorun.Runtime

open Function Transition

variable {n : Nat} {V W : Type}

/-- The executor, and the tasks by name. -/
structure World (n : Nat) (V W : Type) where
  exec : Executor.World n Nat
  tasks : Nat → Option (Task.World V W)

/-- Who moves. -/
inductive Label (n : Nat) (V W : Type) where
  /-- The executor, at no queue. -/
  | exec (a : Executor.Label n Nat)
  /-- A thread of the task, at no queue. -/
  | task (t : Nat) (l : Task.Label V W)
  /-- `spawn_raw`, inside the call `c` to `Spawner::spawn`. -/
  | spawn (c t : Nat)
  /-- The call `c` pushes its task; `f` is where its thread stands in the task's model. -/
  | push (c : Nat) (f : Task.Frame V W)
  /-- Worker `i` takes a task from the injector. -/
  | take (i : Fin n)
  /-- `Multi::drop` stores the flag, and later clears the injector. -/
  | shutdown
  | clear

/-- The steps of a task that move a reference to it, or read the store of the flag. -/
def isShared : Task.Label V W → Bool
  | .thread .spawnPush _ | .thread (.schedPush _) _ | .thread .stolen _ => true
  | .pop | .steal | .drain | .shutdown => true
  | _ => false

/-- About to call `push_global`. -/
def pushing : Task.Frame V W → Bool
  | .spawnPush | .schedPush _ => true
  | _ => false

/-- The step leads from `e` to `e'` with the injector and the flag untouched. -/
def silent (e : Executor.World n Nat) (a : Executor.Label n Nat) (e' : Executor.World n Nat) :
    Bool :=
  (Executor.pushes e a).isEmpty && (Executor.takes e' a).isEmpty
    && match a with
      | .spawn _ _ => false
      | .drop => decide (e.drop ≠ .notStarted) && decide (e.drop ≠ .clearInjector)
      | _ => true

/-- A new task of a runtime whose flag reads `sd`. -/
def spawned (sd : Bool) : Task.World V W :=
  { Task.World.spawnRaw with task := { Task.World.spawnRaw.task with shutdown := sd } }

section

variable [DecidableEq V] [DecidableEq W]

/-- One step of the runtime. -/
def World.step (w : World n V W) : Label n V W → Option (World n V W)
  | .exec a =>
      (w.exec.step a).bind fun e => if silent w.exec a e then some { w with exec := e } else none
  | .task t l =>
      if isShared l then none
      else
        (w.tasks t).bind fun s =>
          (s.step l).map fun s' => { w with tasks := update w.tasks t (some s') }
  | .spawn c t =>
      match w.tasks t with
      | some _ => none
      | none =>
          (w.exec.step (.spawn c t)).map fun e =>
            { exec := e, tasks := update w.tasks t (some (spawned e.shared.shutdown)) }
  | .push c f =>
      match w.exec.calls c with
      | .push t =>
          if pushing f then
            (w.exec.step (.call c)).bind fun e =>
              (w.tasks t).bind fun s =>
                (s.step (.thread f .go)).map fun s' =>
                  { exec := e, tasks := update w.tasks t (some s') }
          else none
      | _ => none
  | .take i =>
      (w.exec.step (.worker i .go)).bind fun e =>
        match Executor.takes e (.worker i .go) with
        | [t] =>
            (w.tasks t).bind fun s =>
              (s.step .pop).map fun s' => { exec := e, tasks := update w.tasks t (some s') }
        | _ => none
  | .shutdown =>
      if w.exec.drop = .notStarted then
        (w.exec.step .drop).map fun e =>
          { exec := e, tasks := fun t => (w.tasks t).bind fun s => s.step .shutdown }
      else none
  | .clear =>
      if w.exec.drop = .clearInjector then
        (w.exec.step .drop).map fun e =>
          { exec := e
            tasks := fun t => (w.tasks t).bind fun s =>
              if t ∈ w.exec.shared.injector then s.step .drain else some s }
      else none

/-- A runtime with `n` workers and tasks with outputs in `V`. -/
def runtime (n : Nat) (V W : Type) [DecidableEq V] [DecidableEq W] :
    System (World n V W) (Label n V W) where
  init w := w = { exec := .new n Nat, tasks := fun _ => none }
  step := World.step

/-- The outcomes of `World.step`. -/
inductive WorldStep (w : World n V W) : World n V W → Prop where
  | exec {a : Executor.Label n Nat} {e : Executor.World n Nat} : w.exec.step a = some e →
      silent w.exec a e = true → WorldStep w { w with exec := e }
  | task {t : Nat} {l : Task.Label V W} {s s' : Task.World V W} : isShared l = false →
      w.tasks t = some s → s.step l = some s' →
      WorldStep w { w with tasks := update w.tasks t (some s') }
  | spawn {c t : Nat} {e : Executor.World n Nat} : w.tasks t = none →
      w.exec.step (.spawn c t) = some e →
      WorldStep w { exec := e, tasks := update w.tasks t (some (spawned e.shared.shutdown)) }
  | push {c t : Nat} {f : Task.Frame V W} {e : Executor.World n Nat} {s s' : Task.World V W} :
      w.exec.calls c = .push t → pushing f = true → w.exec.step (.call c) = some e →
      w.tasks t = some s → s.step (.thread f .go) = some s' →
      WorldStep w { exec := e, tasks := update w.tasks t (some s') }
  | take {i : Fin n} {t : Nat} {e : Executor.World n Nat} {s s' : Task.World V W} :
      w.exec.step (.worker i .go) = some e → Executor.takes e (.worker i .go) = [t] →
      w.tasks t = some s → s.step .pop = some s' →
      WorldStep w { exec := e, tasks := update w.tasks t (some s') }
  | shutdown {e : Executor.World n Nat} : w.exec.drop = .notStarted →
      w.exec.step .drop = some e →
      WorldStep w { exec := e, tasks := fun t => (w.tasks t).bind fun s => s.step .shutdown }
  | clear {e : Executor.World n Nat} : w.exec.drop = .clearInjector →
      w.exec.step .drop = some e →
      WorldStep w
        { exec := e
          tasks := fun t => (w.tasks t).bind fun s =>
            if t ∈ w.exec.shared.injector then s.step .drain else some s }

/-- **Every step of the runtime is one of the listed outcomes.** -/
theorem step_worldStep {w w' : World n V W} {l : Label n V W} (h : w.step l = some w') :
    WorldStep w w' := by
  cases l with
  | exec a =>
      obtain ⟨e, he, h⟩ := Option.bind_eq_some_iff.mp h
      split at h
      · rename_i hs
        cases h
        exact .exec he hs
      · exact absurd h (by simp)
  | task t l =>
      rw [World.step] at h
      split at h
      · exact absurd h (by simp)
      · rename_i hl
        obtain ⟨s, hs, h⟩ := Option.bind_eq_some_iff.mp h
        obtain ⟨s', hs', rfl⟩ := Option.map_eq_some_iff.mp h
        exact .task (by simpa using hl) hs hs'
  | spawn c t =>
      rw [World.step] at h
      split at h
      · exact absurd h (by simp)
      · rename_i ht
        obtain ⟨e, he, rfl⟩ := Option.map_eq_some_iff.mp h
        exact .spawn ht he
  | push c f =>
      rw [World.step] at h
      split at h
      · rename_i t hc
        split at h
        · rename_i hf
          obtain ⟨e, he, h⟩ := Option.bind_eq_some_iff.mp h
          obtain ⟨s, hs, h⟩ := Option.bind_eq_some_iff.mp h
          obtain ⟨s', hs', rfl⟩ := Option.map_eq_some_iff.mp h
          exact .push hc hf he hs hs'
        · exact absurd h (by simp)
      · exact absurd h (by simp)
  | take i =>
      obtain ⟨e, he, h⟩ := Option.bind_eq_some_iff.mp h
      split at h
      · rename_i t ht
        obtain ⟨s, hs, h⟩ := Option.bind_eq_some_iff.mp h
        obtain ⟨s', hs', rfl⟩ := Option.map_eq_some_iff.mp h
        exact .take he ht hs hs'
      · exact absurd h (by simp)
  | shutdown =>
      rw [World.step] at h
      split at h
      · rename_i hd
        obtain ⟨e, he, rfl⟩ := Option.map_eq_some_iff.mp h
        exact .shutdown hd he
      · exact absurd h (by simp)
  | clear =>
      rw [World.step] at h
      split at h
      · rename_i hd
        obtain ⟨e, he, rfl⟩ := Option.map_eq_some_iff.mp h
        exact .clear hd he
      · exact absurd h (by simp)

end

end Nanorun.Runtime
