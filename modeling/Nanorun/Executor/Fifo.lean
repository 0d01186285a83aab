import Nanorun.Executor.Wakeup

/-!
# First in, first out

Three queue layers, and one of them in use. Only a steal ever puts a task into a
local queue, and a steal takes it from another local queue, so they stay empty. What
is left is the injector: every task is pushed at its back and taken from its front,
whatever the tick says about which queue to look at first.

`pushed` and `taken` read off a run what it has pushed onto the injector and what its
workers have taken to poll, in the order of the steps.
-/

namespace Nanorun.Executor

open Function Transition

variable {n : Nat} {τ : Type}

/-- What the step pushes onto the injector. -/
def pushes (w : World n τ) : Label n τ → List τ
  | .call c =>
      match w.calls c with
      | .push t => [t]
      | _ => []
  | _ => []

/-- What the step makes a worker poll; a worker leaves `task.poll()` for the top of its loop. -/
def takes (w' : World n τ) : Label n τ → List τ
  | .worker i _ =>
      match (w'.threads i).pc with
      | .poll t => [t]
      | _ => []
  | _ => []

/-- The tasks pushed in a run, in order. -/
def pushed (w : World n τ) : List (Label n τ) → List τ
  | [] => []
  | a :: as => pushes w a ++ ((w.step a).elim [] fun w' => pushed w' as)

/-- The tasks taken for polling in a run, in order. -/
def taken (w : World n τ) : List (Label n τ) → List τ
  | [] => []
  | a :: as => (w.step a).elim [] fun w' => takes w' a ++ taken w' as

/-! ## The local queues -/

/-- Nothing is in a local queue, or on its way into one. -/
structure LocalInv (w : World n τ) : Prop where
  empty : ∀ i, (w.shared.workers i).localQueue = []
  noExtend : ∀ i first stolen, (w.threads i).pc ≠ .stealExtend first stolen

theorem localInv_init : LocalInv (World.new n τ) where
  empty := by intro i; rfl
  noExtend := by intro i first stolen h; exact absurd h (by simp [World.new])

/-- A write that leaves the local queue. -/
theorem setSlot_empty {sh : Shared n τ} (h : ∀ j, (sh.workers j).localQueue = []) (i : Fin n)
    {slot : WorkerSlot τ} (hslot : slot.localQueue = []) (j : Fin n) :
    ((sh.setSlot i slot).workers j).localQueue = [] := by
  by_cases hji : j = i
  · subst hji
    simp only [Shared.setSlot, update_self]
    exact hslot
  · simp only [Shared.setSlot, update_of_ne hji]
    exact h j

/-- With the local queues empty, a worker takes tasks from the injector only. -/
theorem WorkerStep.locals {sh sh' : Shared n τ} {i : Fin n} {pc pc' : WorkerPc τ}
    (h : WorkerStep sh i pc sh' pc') (hq : ∀ j, (sh.workers j).localQueue = [])
    (hpc : ∀ first stolen, pc ≠ .stealExtend first stolen) :
    (∀ j, (sh'.workers j).localQueue = []) ∧ (∀ first stolen, pc' ≠ .stealExtend first stolen)
    ∧ ((∃ t, pc' = .poll t ∧ (pc = .popFirst ∨ pc = .popSecond) ∧ sh.injector = t :: sh'.injector)
      ∨ ((∀ t, pc' ≠ .poll t) ∧ sh'.injector = sh.injector)) := by
  cases h with
  | takeGlobal hpop hinj =>
      exact ⟨hq, by simp, .inl ⟨_, rfl, hpop, hinj⟩⟩
  | takeLocal _ hloc =>
      rw [hq i] at hloc
      exact absurd hloc (by simp)
  | @stealOne _ _ victim _ _ _ _ htake =>
      rw [hq victim, stealTake_nil] at htake
      exact absurd htake (by simp)
  | stealPut => exact absurd rfl (hpc _ _)
  | publish => exact ⟨setSlot_empty hq i (hq i), by simp, .inr ⟨by simp, rfl⟩⟩
  | unparked => exact ⟨setSlot_empty hq i (hq i), by simp, .inr ⟨by simp, rfl⟩⟩
  | missSecond _ hnext =>
      refine ⟨hq, ?_, .inr ⟨?_, rfl⟩⟩
      · rcases hnext with rfl | ⟨_, rfl⟩ <;> simp
      · rcases hnext with rfl | ⟨_, rfl⟩ <;> simp
  | @lookYes recheck _ _ => cases recheck <;> exact ⟨hq, by simp, .inr ⟨by simp, rfl⟩⟩
  | @lookNo recheck _ _ => cases recheck <;> exact ⟨hq, by simp, .inr ⟨by simp, rfl⟩⟩
  | _ => exact ⟨hq, by simp, .inr ⟨by simp, rfl⟩⟩

/-- Calls put tasks at the back of the injector and nowhere else. -/
theorem CallStep.locals {sh sh' : Shared n τ} {call call' : Call n τ}
    (h : CallStep sh call sh' call') (hq : ∀ j, (sh.workers j).localQueue = []) :
    (∀ j, (sh'.workers j).localQueue = [])
    ∧ ((∃ t, call = .push t ∧ sh'.injector = sh.injector ++ [t])
      ∨ ((∀ t, call ≠ .push t) ∧ sh'.injector = sh.injector)) := by
  cases h with
  | push => exact ⟨hq, .inl ⟨_, rfl, rfl⟩⟩
  | @unpark i => exact ⟨setSlot_empty hq i (hq i), .inr ⟨by simp, rfl⟩⟩
  | _ => exact ⟨hq, .inr ⟨by simp, rfl⟩⟩

theorem DropStep.locals {sh sh' : Shared n τ} {threads : Fin n → Worker τ} {d d' : DropPc}
    (h : DropStep sh threads d sh' d') (hq : ∀ j, (sh.workers j).localQueue = []) :
    (∀ j, (sh'.workers j).localQueue = []) ∧ d' ≠ .notStarted := by
  cases h with
  | @unpark k hk => exact ⟨setSlot_empty hq _ (hq _), by simp⟩
  | clearLocal hk => exact ⟨setSlot_empty hq _ rfl, by simp⟩
  | _ => exact ⟨hq, by simp⟩

/-- **The local queues stay empty.** -/
theorem localInv_step {w w' : World n τ} {l : Label n τ} (h : LocalInv w)
    (hs : WorldStep w l w') : LocalInv w' := by
  cases hs with
  | @worker i c sh' th' hw =>
      obtain ⟨hq, hpc, _⟩ := hw.locals h.empty (h.noExtend i)
      refine ⟨hq, ?_⟩
      intro j first stolen hj
      by_cases hji : j = i
      · subst hji
        simp only [update_self] at hj
        exact hpc first stolen hj
      · simp only [update_of_ne hji] at hj
        exact h.noExtend j first stolen hj
  | enter => exact ⟨h.empty, h.noExtend⟩
  | call hc => exact ⟨(hc.locals h.empty).1, h.noExtend⟩
  | drop hd => exact ⟨(hd.locals h.empty).1, h.noExtend⟩

theorem localInv_reachable {w : World n τ} (h : (executor n τ).Reachable w) : LocalInv w :=
  executor_invariant localInv_init localInv_step h

/-- The loop of `steal` goes through its victims and finds nothing. -/
theorem LocalInv.steal {w : World n τ} (h : LocalInv w) (i : Fin n) (start k : Nat) :
    stealStep w.shared i (w.threads i) start k
      = (w.shared, (w.threads i).goto (if k < n then .steal start (k + 1) else .idleShutdown)) := by
  unfold stealStep
  split
  · dsimp only
    rw [h.empty, stealTake_nil]
    split <;> rfl
  · rfl

/-! ## The injector -/

/-- One step before the shutdown: what is taken leaves at the front, what is pushed joins at the
back. -/
theorem LocalInv.queue {w w' : World n τ} {a : Label n τ} (h : LocalInv w)
    (hs : w.step a = some w') (hd : w'.drop = .notStarted) :
    w.drop = .notStarted
      ∧ takes w' a ++ w'.shared.injector = w.shared.injector ++ pushes w a := by
  cases a with
  | worker i c =>
      obtain ⟨⟨sh', th'⟩, hr, rfl⟩ := Option.map_eq_some_iff.mp hs
      refine ⟨hd, ?_⟩
      obtain ⟨_, _, hcase⟩ := (workerNext_step hr).locals h.empty (h.noExtend i)
      simp only [takes, pushes, update_self, List.append_nil]
      rcases hcase with ⟨t, hpc, _, hinj⟩ | ⟨hpc, hinj⟩
      · rw [hpc, hinj]
        rfl
      · rw [hinj]
        split
        · rename_i t ht
          exact absurd ht (hpc t)
        · rfl
  | call c =>
      obtain ⟨⟨sh', call'⟩, hr, rfl⟩ := Option.map_eq_some_iff.mp hs
      refine ⟨hd, ?_⟩
      obtain ⟨_, hcase⟩ := (callNext_step hr).locals h.empty
      simp only [takes, pushes, List.nil_append]
      rcases hcase with ⟨t, hcall, hinj⟩ | ⟨hcall, hinj⟩
      · rw [hcall, hinj]
      · rw [hinj]
        split
        · rename_i t ht
          exact absurd ht (hcall t)
        · rw [List.append_nil]
  | drop =>
      obtain ⟨⟨sh', d'⟩, hr, rfl⟩ := Option.map_eq_some_iff.mp hs
      exact absurd hd ((dropNext_step hr).locals h.empty).2
  | schedule c t | spawn c t | register c t =>
      obtain ⟨_, rfl⟩ := enter_some hs
      exact ⟨hd, by simp [takes, pushes]⟩

/-- The same for a run. -/
theorem LocalInv.history {w w' : World n τ} {as : List (Label n τ)} (h : LocalInv w)
    (hr : (executor n τ).run w as = some w') (hd : w'.drop = .notStarted) :
    w.drop = .notStarted
      ∧ taken w as ++ w'.shared.injector = w.shared.injector ++ pushed w as := by
  induction as generalizing w with
  | nil =>
      obtain rfl := Option.some.inj hr
      exact ⟨hd, by simp [taken, pushed]⟩
  | cons a as ih =>
      rw [System.run] at hr
      obtain ⟨m, hm, hr⟩ := Option.bind_eq_some_iff.mp hr
      have hm : w.step a = some m := hm
      obtain ⟨hdm, hrest⟩ := ih (localInv_step h (step_worldStep hm)) hr
      obtain ⟨hdw, hstep⟩ := h.queue hm hdm
      refine ⟨hdw, ?_⟩
      rw [taken, pushed, hm]
      simp only [Option.elim_some]
      rw [List.append_assoc, hrest, ← List.append_assoc, hstep, List.append_assoc]

/--
**Dispatch is first in, first out, and the local queues are never used.**

After any run of any number of workers: every local queue is empty, no turn of the
loop of `steal` finds a task, and before the shutdown the tasks that the workers have
taken for polling, followed by what is in the injector, are the tasks pushed, in order.
-/
theorem dispatch_fifo {w : World n τ} (as : List (Label n τ))
    (h : (executor n τ).run (World.new n τ) as = some w) :
    (∀ i, (w.shared.workers i).localQueue = [])
    ∧ (∀ i start k, stealStep w.shared i (w.threads i) start k
        = (w.shared, (w.threads i).goto (if k < n then .steal start (k + 1) else .idleShutdown)))
    ∧ (w.drop = .notStarted →
        taken (World.new n τ) as ++ w.shared.injector = pushed (World.new n τ) as) := by
  have hinv := localInv_reachable (System.Reachable.run (.init rfl) h)
  exact ⟨hinv.empty, hinv.steal, fun hd => (localInv_init.history h hd).2⟩

/-- Two tasks are spawned and scheduled; one worker takes the first, another the second. -/
def twoTasks : List (Label 2 Nat) :=
  List.flatten [goes 0 2, goes 1 2, [.spawn 0 7, .schedule 1 8], List.replicate 4 (.call 0),
    List.replicate 5 (.call 1), goes 1 1, [.spawn 2 9, .call 2], goes 0 1]

theorem dispatch_fifo_twoTasks :
    ∃ w, (executor 2 Nat).run (World.new 2 Nat) twoTasks = some w
      ∧ [7, 8] ++ w.shared.injector = [7, 8, 9] := by
  obtain ⟨w, hw⟩ := Option.isSome_iff_exists.mp
    (show ((executor 2 Nat).run (World.new 2 Nat) twoTasks).isSome = true by decide +kernel)
  have hd : w.drop = .notStarted := by
    have hz : ((executor 2 Nat).run (World.new 2 Nat) twoTasks).map (·.drop) = some .notStarted := by
      decide +kernel
    rw [hw] at hz
    exact Option.some.inj hz
  have hfifo := (dispatch_fifo twoTasks hw).2.2 hd
  have htaken : taken (World.new 2 Nat) twoTasks = [7, 8] := by decide +kernel
  have hpushed : pushed (World.new 2 Nat) twoTasks = [7, 8, 9] := by decide +kernel
  rw [htaken, hpushed] at hfifo
  exact ⟨w, hw, hfifo⟩

end Nanorun.Executor
