import Nanorun.Executor.Progress
import Nanorun.Runtime.Model

/-!
# What is in the injector

`Coupled` ties the two models together: a name is in the injector as often as its task
counts references in the run queues. The run token bounds that by one, so the injector
never holds a task twice, and a task in it is one that waits for a poll and that nobody
else is about to push or to run.

From the other side, a wake is not lost on the way through both: a task that is owed a
poll is in the hands of a thread, or in the injector, where the executor's own handshake
keeps a worker from sleeping beside it.
-/

namespace Nanorun.Runtime

open Function Transition Pool Bits
open Nanorun.Task (wants)

variable {n : Nat} {V W : Type}

/-! ## What each side does -/

/-- A silent step of the executor leaves the injector and the flag alone. -/
theorem silent_keeps {e e' : Executor.World n Nat} {a : Executor.Label n Nat}
    (hl : Executor.LocalInv e) (h : e.step a = some e') (hs : silent e a e' = true) :
    e'.shared.injector = e.shared.injector ∧ e'.shared.shutdown = e.shared.shutdown := by
  simp only [silent, Bool.and_eq_true, List.isEmpty_iff] at hs
  obtain ⟨⟨hpush, htake⟩, hrest⟩ := hs
  cases a with
  | worker i c =>
      obtain ⟨⟨sh', th'⟩, hr, rfl⟩ := Option.map_eq_some_iff.mp h
      have hstep := Executor.workerNext_step hr
      refine ⟨?_, hstep.handles.1⟩
      obtain ⟨_, _, hcase⟩ := hstep.locals hl.empty (hl.noExtend i)
      rcases hcase with ⟨t, hpc, _, _⟩ | ⟨_, hinj⟩
      · simp only [Executor.takes, update_self, hpc] at htake
        exact absurd htake (by simp)
      · exact hinj
  | call c =>
      obtain ⟨⟨sh', call'⟩, hr, rfl⟩ := Option.map_eq_some_iff.mp h
      have hstep := Executor.callNext_step hr
      refine ⟨?_, hstep.tokens.1⟩
      obtain ⟨_, hcase⟩ := hstep.locals hl.empty
      rcases hcase with ⟨t, hcall, _⟩ | ⟨_, hinj⟩
      · simp only [Executor.pushes, hcall] at hpush
        exact absurd hpush (by simp)
      · exact hinj
  | drop =>
      simp only [Bool.and_eq_true, decide_eq_true_eq] at hrest
      obtain ⟨⟨sh', d'⟩, hr, rfl⟩ := Option.map_eq_some_iff.mp h
      have hstep := Executor.dropNext_step hr
      generalize e.drop = d at hstep hrest
      cases hstep with
      | store => exact absurd rfl hrest.1
      | clearInjector => exact absurd rfl hrest.2
      | _ => exact ⟨rfl, rfl⟩
  | spawn c t => exact absurd hrest (by simp)
  | schedule c t | register c t =>
      obtain ⟨_, rfl⟩ := Executor.enter_some h
      exact ⟨rfl, rfl⟩

/-- A thread of the task at no queue leaves the count and the flag alone. -/
theorem frame_keeps {t t' : Task.RawTask V W} {lent : Nat → Bool} {f f' : Task.Frame V W}
    (h : Task.FrameStep t lent f t' f') (hf : ∀ c, isShared (.thread f c : Task.Label V W) = false) :
    t'.queued = t.queued ∧ t'.shutdown = t.shutdown := by
  cases h with
  | spawnPush | stolen | schedPush => exact absurd (hf .go) (by simp [isShared])
  | _ => exact ⟨rfl, rfl⟩

theorem dequeue_takes {s s' : Task.World V W} {f : Task.Frame V W} (h : s.dequeue f = some s') :
    s'.task.queued + 1 = s.task.queued ∧ s'.task.shutdown = s.task.shutdown := by
  unfold Task.World.dequeue at h
  split at h
  · cases h
    exact ⟨by dsimp only; omega, rfl⟩
  · exact absurd h (by simp)

/-- The references to the task with this name in the run queues. -/
def World.queued (w : World n V W) (t : Nat) : Nat := (w.tasks t).elim 0 fun s => s.task.queued

theorem World.queued_eq {w : World n V W} {t : Nat} {s : Task.World V W}
    (hs : w.tasks t = some s) : w.queued t = s.task.queued := by
  rw [World.queued, hs, Option.elim_some]

theorem exec_step {e e' : Executor.World n Nat} {a : Executor.Label n Nat}
    (h : (Executor.executor n Nat).Reachable e) (hs : e.step a = some e') :
    (Executor.executor n Nat).Reachable e' :=
  .tail (S := Executor.executor n Nat) (a := a) h trivial hs

/-- A word that asks for a poll. -/
theorem wants_pos {s : Word} (h : 0 < wants s) :
    has s Task.notified = true ∧ has s Task.running = false ∧ has s Task.complete = false := by
  unfold wants at h
  cases hn : has s Task.notified <;> cases hr : has s Task.running <;>
    cases hc : has s Task.complete <;> simp [hn, hr, hc] at h ⊢

section

variable [DecidableEq V] [DecidableEq W]

theorem task_keeps {s s' : Task.World V W} {l : Task.Label V W} (hl : isShared l = false)
    (h : s.step l = some s') :
    s'.task.queued = s.task.queued ∧ s'.task.shutdown = s.task.shutdown := by
  cases l with
  | thread f c =>
      have hf : ∀ c, isShared (.thread f c : Task.Label V W) = false := by
        intro c'
        cases f <;> first | rfl | exact absurd hl (by simp [isShared])
      simp only [Task.World.step] at h
      split at h
      · obtain ⟨⟨t', f'⟩, hr, rfl⟩ := Option.map_eq_some_iff.mp h
        exact frame_keeps (Task.frameNext_step hr) hf
      · exact absurd h (by simp)
  | pop | steal | drain | shutdown => exact absurd hl (by simp [isShared])
  | wake wk | wakeByRef wk | cloneWaker wk | dropWaker wk =>
      simp only [Task.World.step] at h
      split at h
      · cases h
        exact ⟨rfl, rfl⟩
      · exact absurd h (by simp)
  | handle op =>
      obtain ⟨t', hr, rfl⟩ := Option.map_eq_some_iff.mp h
      have hstep := Task.handleNext_step hr
      generalize s.task.handle = hd at hstep
      cases hstep <;> exact ⟨rfl, rfl⟩

/-- A push adds a reference. -/
theorem task_pushes {s s' : Task.World V W} {f : Task.Frame V W} (hf : pushing f = true)
    (h : s.step (.thread f .go) = some s') :
    s'.task.queued = s.task.queued + 1 ∧ s'.task.shutdown = s.task.shutdown := by
  simp only [Task.World.step] at h
  split at h
  · obtain ⟨⟨t', f'⟩, hr, rfl⟩ := Option.map_eq_some_iff.mp h
    cases f with
    | spawnPush | schedPush _ => cases hr; exact ⟨rfl, rfl⟩
    | _ => exact absurd hf (by simp [pushing])
  · exact absurd h (by simp)

/-! ## The coupling -/

/-- The executor and its tasks, side by side. -/
structure Coupled (w : World n V W) : Prop where
  /-- Each side is in a state that it reaches by itself. -/
  exec : (Executor.executor n Nat).Reachable w.exec
  tasks : ∀ t s, w.tasks t = some s → (Task.taskSystem V W).Reachable s
  /-- Every task sees the executor's `shutdown`. -/
  flag : ∀ t s, w.tasks t = some s → s.task.shutdown = w.exec.shared.shutdown
  /-- A name is in the injector as often as its task counts. -/
  queue : ∀ t, w.exec.shared.injector.count t = w.queued t

theorem coupled_init : Coupled (n := n) (V := V) (W := W)
    { exec := .new n Nat, tasks := fun _ => none } where
  exec := .init rfl
  tasks := by intro t s h; exact absurd h (by simp)
  flag := by intro t s h; exact absurd h (by simp)
  queue := by intro t; rfl

theorem spawned_reachable (sd : Bool) : (Task.taskSystem V W).Reachable (spawned sd) := by
  cases sd with
  | false => exact .init rfl
  | true => exact Task.reachable_step (l := .shutdown) (.init rfl) rfl

/-- One task moves, and the injector moves with it. -/
theorem Coupled.move {w : World n V W} (h : Coupled w) {e : Executor.World n Nat} {t : Nat}
    {s : Task.World V W} (he : (Executor.executor n Nat).Reachable e)
    (hsd : e.shared.shutdown = w.exec.shared.shutdown) (hs : (Task.taskSystem V W).Reachable s)
    (hflag : s.task.shutdown = e.shared.shutdown)
    (hother : ∀ u, u ≠ t → e.shared.injector.count u = w.exec.shared.injector.count u)
    (hself : e.shared.injector.count t = s.task.queued) :
    Coupled { exec := e, tasks := update w.tasks t (some s) } where
  exec := he
  tasks := by
    intro u r hr
    by_cases hu : u = t
    · subst hu
      simp only [update_self, Option.some.injEq] at hr
      exact hr ▸ hs
    · simp only [update_of_ne hu] at hr
      exact h.tasks u r hr
  flag := by
    intro u r hr
    by_cases hu : u = t
    · subst hu
      simp only [update_self, Option.some.injEq] at hr
      exact hr ▸ hflag
    · simp only [update_of_ne hu] at hr
      exact (h.flag u r hr).trans hsd.symm
  queue := by
    intro u
    by_cases hu : u = t
    · subst hu
      simp only [World.queued, update_self, Option.elim_some]
      exact hself
    · simp only [World.queued, update_of_ne hu]
      exact (hother u hu).trans (h.queue u)

/-- A reference in the run queues is a run token, and there is only one. -/
theorem queued_le {s : Task.World V W} (h : (Task.taskSystem V W).Reachable s) :
    s.task.queued ≤ 1 := by
  have hle := (Task.bitsInv_reachable h).tokens_le
  have hw := Task.wants_le_one s.task.state
  omega

/-- Storing the flag, or clearing the injector: every task takes one step of its own. -/
theorem coupled_all {w : World n V W} {e : Executor.World n Nat}
    {f : Nat → Task.World V W → Option (Task.World V W)}
    (he : (Executor.executor n Nat).Reachable e)
    (hf : ∀ t s, w.tasks t = some s → ∃ s', f t s = some s'
      ∧ (Task.taskSystem V W).Reachable s' ∧ s'.task.shutdown = e.shared.shutdown
      ∧ e.shared.injector.count t = s'.task.queued)
    (hnone : ∀ t, w.tasks t = none → e.shared.injector.count t = 0) :
    Coupled { exec := e, tasks := fun t => (w.tasks t).bind (f t) } := by
  have key : ∀ t s', (w.tasks t).bind (f t) = some s' →
      (Task.taskSystem V W).Reachable s' ∧ s'.task.shutdown = e.shared.shutdown := by
    intro t s' hs'
    obtain ⟨s, hs, hfs⟩ := Option.bind_eq_some_iff.mp hs'
    obtain ⟨s'', hfs', hr, hfl, _⟩ := hf t s hs
    rw [hfs] at hfs'
    cases hfs'
    exact ⟨hr, hfl⟩
  refine ⟨he, fun t s' hs' => (key t s' hs').1, fun t s' hs' => (key t s' hs').2, fun t => ?_⟩
  cases hs : w.tasks t with
  | none =>
      simp only [World.queued, hs, Option.bind_none, Option.elim_none]
      exact hnone t hs
  | some s =>
      obtain ⟨s', hfs, _, _, hcount⟩ := hf t s hs
      simp only [World.queued, hs, Option.bind_some, hfs, Option.elim_some]
      exact hcount

/-- **Both models stay in step with each other.** -/
theorem coupled_step {w w' : World n V W} (h : Coupled w) (hs : WorldStep w w') : Coupled w' := by
  have hloc := Executor.localInv_reachable h.exec
  cases hs with
  | @exec a e he hsil =>
      obtain ⟨hinj, hsd⟩ := silent_keeps hloc he hsil
      exact ⟨exec_step h.exec he, h.tasks, fun t s ht => (h.flag t s ht).trans hsd.symm,
        fun t => by rw [hinj]; exact h.queue t⟩
  | @task t l s s' hl hs hs' =>
      obtain ⟨hq, hsd⟩ := task_keeps hl hs'
      refine h.move h.exec rfl (Task.reachable_step (h.tasks t s hs) hs')
        (hsd.trans (h.flag t s hs)) (fun _ _ => rfl) ?_
      rw [h.queue t, World.queued_eq hs, hq]
  | @spawn c t e ht he =>
      have hr : (Executor.executor n Nat).Reachable e := exec_step h.exec he
      obtain ⟨_, rfl⟩ := Executor.enter_some he
      refine h.move hr rfl (spawned_reachable _) rfl (fun _ _ => rfl) ?_
      rw [h.queue t, World.queued, ht]
      rfl
  | @push c t f e s s' hc hf he hs hs' =>
      have hr : (Executor.executor n Nat).Reachable e := exec_step h.exec he
      obtain ⟨hq, hsd⟩ := task_pushes hf hs'
      obtain ⟨⟨sh', call'⟩, hnext, rfl⟩ := Option.map_eq_some_iff.mp he
      rw [hc] at hnext
      cases hnext
      refine h.move hr rfl (Task.reachable_step (h.tasks t s hs) hs') (hsd.trans (h.flag t s hs))
        (fun u hu => ?_) ?_
      · simp only [Executor.pushGlobal, List.count_append]
        rw [List.count_singleton, if_neg (by simpa using Ne.symm hu), Nat.add_zero]
      · simp only [Executor.pushGlobal, List.count_append, List.count_singleton_self]
        rw [h.queue t, World.queued_eq hs, hq]
  | @take i t e s s' he ht hs hs' =>
      have hr : (Executor.executor n Nat).Reachable e := exec_step h.exec he
      obtain ⟨hq, hsd⟩ := dequeue_takes hs'
      obtain ⟨⟨sh', th'⟩, hnext, rfl⟩ := Option.map_eq_some_iff.mp he
      have hstep := Executor.workerNext_step hnext
      have hinj : w.exec.shared.injector = t :: sh'.injector := by
        simp only [Executor.takes, update_self] at ht
        obtain ⟨_, _, hcase⟩ := hstep.locals hloc.empty (hloc.noExtend i)
        rcases hcase with ⟨t', hpc, _, hinj⟩ | ⟨hno, _⟩
        · rw [hpc] at ht
          cases ht
          exact hinj
        · split at ht
          · rename_i t' hpc
            exact absurd hpc (hno t')
          · exact absurd ht (by simp)
      have hcount := h.queue
      rw [hinj] at hcount
      refine h.move hr hstep.handles.1 (Task.reachable_step (h.tasks t s hs) hs')
        ((hsd.trans (h.flag t s hs)).trans hstep.handles.1.symm) (fun u hu => ?_) ?_
      · rw [hinj, List.count_cons_of_ne (Ne.symm hu)]
      · have hself := hcount t
        rw [List.count_cons_self, World.queued_eq hs] at hself
        dsimp only
        omega
  | @shutdown e hd he =>
      have hr : (Executor.executor n Nat).Reachable e := exec_step h.exec he
      obtain ⟨⟨sh', d'⟩, hnext, rfl⟩ := Option.map_eq_some_iff.mp he
      rw [hd] at hnext
      cases hnext
      refine coupled_all (f := fun _ s => s.step .shutdown) hr (fun t s hs => ?_) (fun t ht => ?_)
      · have hcount := (h.queue t).trans (World.queued_eq hs)
        exact ⟨_, rfl, Task.reachable_step (l := .shutdown) (h.tasks t s hs) rfl, rfl, hcount⟩
      · have hcount := h.queue t
        rw [World.queued, ht] at hcount
        exact hcount
  | @clear e hd he =>
      have hr : (Executor.executor n Nat).Reachable e := exec_step h.exec he
      obtain ⟨⟨sh', d'⟩, hnext, rfl⟩ := Option.map_eq_some_iff.mp he
      rw [hd] at hnext
      cases hnext
      have hsd := (Executor.shutdownInv_reachable h.exec).stored (by rw [hd]; simp)
      refine coupled_all (f := fun t s => if t ∈ w.exec.shared.injector then s.step .drain else some s) hr
        (fun t s hs => ?_) (fun t ht => by simp)
      have hcount := (h.queue t).trans (World.queued_eq hs)
      have hflag := h.flag t s hs
      by_cases ht : t ∈ w.exec.shared.injector
      · have hpos := List.count_pos_iff.mpr ht
        have hle := queued_le (h.tasks t s hs)
        have hdrain : ∃ s', s.step .drain = some s' := by
          simp only [Task.World.step, hflag, hsd, if_true, Task.World.dequeue]
          rw [if_pos (by omega)]
          exact ⟨_, rfl⟩
        obtain ⟨s', hs'⟩ := hdrain
        refine ⟨s', by simp only [ht, if_true]; exact hs', Task.reachable_step (h.tasks t s hs) hs', ?_⟩
        simp only [Task.World.step, hflag, hsd, if_true] at hs'
        obtain ⟨hq, hkeep⟩ := dequeue_takes hs'
        refine ⟨hkeep.trans hflag, ?_⟩
        simp only [List.count_nil]
        omega
      · refine ⟨s, by simp [ht], h.tasks t s hs, hflag, ?_⟩
        rw [List.count_eq_zero_of_not_mem ht] at hcount
        simp only [List.count_nil]
        exact hcount

theorem coupled_reachable {w : World n V W} (h : (runtime n V W).Reachable w) : Coupled w := by
  refine h.invariant (I := Coupled) ?_ ?_
  · intro w hw
    cases hw
    exact coupled_init
  · intro w l w' hw hs
    exact coupled_step hw (step_worldStep hs)

/-! ## What is in the injector -/

/--
**The injector holds each task at most once, and holds the ones that wait for a poll.**

In every reachable state, also during and after the shutdown: a name is in the injector
exactly if its task counts a reference in the run queues, and no name is in it twice. A
task in it is alive and notified, neither running nor complete, and no thread is about to
push it or to poll it.
-/
theorem injector_exact {w : World n V W} (h : (runtime n V W).Reachable w) :
    w.exec.shared.injector.Nodup
    ∧ (∀ t, t ∈ w.exec.shared.injector ↔ 0 < w.queued t)
    ∧ ∀ t ∈ w.exec.shared.injector, ∃ s, w.tasks t = some s ∧ s.task.freed = false
      ∧ has s.task.state Task.notified = true ∧ has s.task.state Task.running = false
      ∧ has s.task.state Task.complete = false ∧ ∀ f ∈ s.frames, f.token = 0 := by
  have hc := coupled_reachable h
  have hle : ∀ t, w.queued t ≤ 1 := by
    intro t
    cases hs : w.tasks t with
    | none => simp [World.queued, hs]
    | some s =>
        rw [World.queued_eq hs]
        exact queued_le (hc.tasks t s hs)
  refine ⟨List.nodup_iff_count_le_one.mpr fun t => (hc.queue t).trans_le (hle t), fun t => ?_,
    fun t ht => ?_⟩
  · rw [← hc.queue t]
    exact List.count_pos_iff.symm
  · have hpos := List.count_pos_iff.mpr ht
    rw [hc.queue t] at hpos
    cases hs : w.tasks t with
    | none =>
        rw [World.queued, hs] at hpos
        exact absurd hpos (by simp)
    | some s =>
        rw [World.queued_eq hs] at hpos
        have hr := hc.tasks t s hs
        have htok := (Task.bitsInv_reachable hr).tokens_le
        have hone := Task.wants_le_one s.task.state
        have href := Task.refInv_reachable hr
        have hstrong : 0 < s.task.strong := by
          rw [href.count]
          unfold Task.owners
          omega
        obtain ⟨hnot, hrun, hcomp⟩ := wants_pos (s := s.task.state) (by omega)
        exact ⟨s, rfl, href.not_freed hstrong, hnot, hrun, hcomp,
          fun f hf => eq_zero_of_weight hf (by omega)⟩

/-- A task is spawned, and the call to `Spawner::spawn` is over. -/
def spawnSeven : List (Label 1 Unit Unit) :=
  [.spawn 0 7, .push 0 .spawnPush, .task 7 (.thread .spawnJoin .go), .exec (.call 0),
    .exec (.call 0), .exec (.call 0)]

theorem injector_exact_spawnSeven :
    ∃ w, (runtime 1 Unit Unit).run { exec := .new 1 Nat, tasks := fun _ => none } spawnSeven = some w
      ∧ 7 ∈ w.exec.shared.injector ∧ w.exec.shared.injector.Nodup ∧ 0 < w.queued 7 := by
  obtain ⟨w, hw⟩ := Option.isSome_iff_exists.mp
    (show ((runtime 1 Unit Unit).run { exec := .new 1 Nat, tasks := fun _ => none }
      spawnSeven).isSome = true by decide +kernel)
  have hmem : ∀ w ∈ (runtime 1 Unit Unit).run { exec := .new 1 Nat, tasks := fun _ => none }
      spawnSeven, 7 ∈ w.exec.shared.injector := by
    decide +kernel
  obtain ⟨hnodup, hiff, _⟩ := injector_exact (System.Reachable.run (.init rfl) hw)
  exact ⟨w, hw, hmem w hw, hnodup, (hiff 7).mp (hmem w hw)⟩

/--
**A wake is not lost on its way through both.**

Before the shutdown, with at least one worker, let a task be owed a poll: `NOTIFIED` is set
and it is not complete. Then a thread holds its run token or runs it, or it is in the
injector, and there a worker is awake or a call is still about to wake one. From then on it
is polled: every run of the workers and of the calls under way that cannot go on has taken
it.
-/
theorem woken_task_served {w : World n V W} (hn : 0 < n) (h : (runtime n V W).Reachable w)
    (hd : w.exec.drop = .notStarted) {t : Nat} {s : Task.World V W} (hs : w.tasks t = some s)
    (ho : Task.owed s.task.state) :
    (∃ f ∈ s.frames, 0 < f.token ∨ 0 < f.runs)
    ∨ t ∈ w.exec.shared.injector
      ∧ ((∃ c, (w.exec.calls c).pastPush = true) ∨ ∃ i, ¬ Executor.Asleep w.exec i)
      ∧ ∀ as e, (Executor.executor n Nat).Meets Executor.Internal w.exec as →
          (Executor.executor n Nat).run w.exec as = some e →
          (Executor.executor n Nat).Stuck Executor.Internal e → t ∈ Executor.taken w.exec as := by
  have hc := coupled_reachable h
  have hr := hc.tasks t s hs
  have hsd : s.task.shutdown = false :=
    (hc.flag t s hs).trans (Executor.notYet_reachable hc.exec hd)
  have hbits := Task.bitsInv_reachable hr
  by_cases hthread : ∃ f ∈ s.frames, 0 < f.token ∨ 0 < f.runs
  · exact .inl hthread
  -- nobody has the token in hand, so it is in the queue
  have htoken : weight Task.Frame.token s.frames = 0 := by
    refine weight_eq_zero fun f hf => ?_
    by_contra hne
    exact hthread ⟨f, hf, .inl (by omega)⟩
  have hruns : weight Task.Frame.runs s.frames = 0 := by
    refine weight_eq_zero fun f hf => ?_
    by_contra hne
    exact hthread ⟨f, hf, .inr (by omega)⟩
  have hwants : wants s.task.state = 1 := by
    rcases Task.served_of_owed ho with hw | ha
    · exact hw
    · rw [← hbits.runs, hruns] at ha
      exact absurd ha (by simp)
  have hqueued : w.queued t = 1 := by
    have heq := hbits.tokens_eq hsd
    rw [World.queued_eq hs]
    omega
  have hmem : t ∈ w.exec.shared.injector := List.count_pos_iff.mp (by rw [hc.queue t]; omega)
  refine .inr ⟨hmem, ?_, fun as e hm hrun hstuck => ?_⟩
  · by_contra hno
    obtain ⟨hcalls, hawake⟩ := not_or.mp hno
    have hquiet : ∀ c, (w.exec.calls c).pastPush = false := fun c => by
      by_contra hp
      exact hcalls ⟨c, by simpa using hp⟩
    have hasleep : ∀ i, Executor.Asleep w.exec i := fun i => by
      by_contra hi
      exact hawake ⟨i, hi⟩
    obtain ⟨i, timeout, hpc, hwake⟩ :=
      Executor.poller_of_all_asleep hn (Executor.tokenInv_reachable hc.exec) hasleep
    rw [(Executor.wakeInv_reachable hc.exec).woken hquiet (List.ne_nil_of_mem hmem) hpc] at hwake
    exact absurd hwake (by simp)
  · rw [(Executor.stuck_polls hn hc.exec hd hm hrun hstuck).1]
    exact List.mem_append_left _ hmem

theorem woken_task_served_spawnSeven :
    ∃ w, (runtime 1 Unit Unit).run { exec := .new 1 Nat, tasks := fun _ => none } spawnSeven = some w
      ∧ 7 ∈ w.exec.shared.injector
      ∧ ((∃ c, (w.exec.calls c).pastPush = true) ∨ ∃ i, ¬ Executor.Asleep w.exec i) := by
  obtain ⟨w, hw⟩ := Option.isSome_iff_exists.mp
    (show ((runtime 1 Unit Unit).run { exec := .new 1 Nat, tasks := fun _ => none }
      spawnSeven).isSome = true by decide +kernel)
  have hend : ∀ w ∈ (runtime 1 Unit Unit).run { exec := .new 1 Nat, tasks := fun _ => none }
      spawnSeven, w.exec.drop = .notStarted ∧ ∃ s ∈ w.tasks 7,
        (has s.task.state Task.notified = true ∧ has s.task.state Task.complete = false)
          ∧ s.frames = {.done} := by
    decide +kernel
  obtain ⟨hd, s, hs, ho, hframes⟩ := hend w hw
  rcases woken_task_served (by decide) (System.Reachable.run (.init rfl) hw) hd hs ho with
    ⟨f, hf, hpos⟩ | ⟨hmem, hawake, _⟩
  · rw [hframes, Multiset.mem_singleton] at hf
    subst hf
    exact absurd hpos (by simp [Task.Frame.token, Task.Frame.runs])
  · exact ⟨w, hw, hmem, hawake⟩

end

end Nanorun.Runtime
