import Nanorun.Executor.Steps

/-!
# Nothing is queued on a dead runtime, unless it is pushed late

`Multi::drop` joins the workers, clears the injector, then every local queue and
the timer driver. From the joins on no worker moves any more, so the local queues
stay as they are left, and what is pushed onto the injector stays there.

`Spawner::schedule` looks at `shutdown` once, before its push; `Spawner::spawn`
never does. A push after the injector has been cleared is therefore possible in
both, and it is the only thing that can leave a task in the queues: a run has a
task queued after the drop exactly if one of its pushes came late.
-/

namespace Nanorun.Executor

open Function

variable {n : Nat} {τ : Type}

/-- Worker `i` has been joined. -/
def DropPc.joined (d : DropPc) (i : Nat) : Prop :=
  match d with
  | .join k => i < k
  | .clearInjector | .clearLocal _ | .clearDriver | .returned => True
  | _ => False

/-- The injector has been cleared. -/
def DropPc.cleared : DropPc → Prop
  | .clearLocal _ | .clearDriver | .returned => True
  | _ => False

/-- The local queue of worker `i` has been cleared. -/
def DropPc.clearedLocal (d : DropPc) (i : Nat) : Prop :=
  match d with
  | .clearLocal k => i < k
  | .clearDriver | .returned => True
  | _ => False

theorem DropPc.joined_of_cleared {d : DropPc} (h : d.cleared) (i : Nat) : d.joined i := by
  cases d <;> first | exact trivial | exact False.elim h

theorem DropPc.joined_of_clearedLocal {d : DropPc} {i j : Nat} (h : d.clearedLocal i) :
    d.joined j := by
  cases d <;> first | exact trivial | exact False.elim h

/-- `push_global` comes before `Multi::drop` has cleared the injector. -/
def InTime (w : World n τ) : Label n τ → Prop
  | .call c => (∃ t, w.calls c = .push t) → ¬ w.drop.cleared
  | _ => True

/-- A worker that has returned does not move. -/
theorem WorkerStep.ne_exited {sh sh' : Shared n τ} {i : Fin n} {pc pc' : WorkerPc τ}
    (h : WorkerStep sh i pc sh' pc') : pc ≠ .exited := by
  intro heq
  cases h with
  | takeGlobal hpc _ => rcases hpc with rfl | rfl <;> exact absurd heq (by simp)
  | takeLocal hpc _ => rcases hpc with rfl | rfl <;> exact absurd heq (by simp)
  | _ => exact absurd heq (by simp)

/-- A joined worker has returned. -/
def JoinedInv (w : World n τ) : Prop := ∀ i : Fin n, w.drop.joined i → (w.threads i).pc = .exited

theorem joinedInv_step {w w' : World n τ} {l : Label n τ} (h : JoinedInv w)
    (hs : WorldStep w l w') : JoinedInv w' := by
  intro j hj
  cases hs with
  | @worker i _ sh' th' hw =>
      have hold := h j hj
      -- the worker that moves is not one that has returned
      by_cases heq : j = i
      · subst heq
        exact absurd hold hw.ne_exited
      · show (update w.threads i th' j).pc = .exited
        rw [update_of_ne heq]
        exact hold
  | enter _ _ => exact h j hj
  | call _ => exact h j hj
  | drop hd =>
      have hnow := h j
      dsimp only at hj ⊢
      generalize w.drop = d at hd hnow
      cases hd with
      -- `join` blocks until this worker has returned; the earlier ones were joined before
      | join hk hex =>
          have hj' : j.val < _ + 1 := hj
          rcases Nat.lt_succ_iff_lt_or_eq.mp hj' with hlt | heq
          · exact hnow hlt
          · have : j = ⟨_, hk⟩ := Fin.ext heq
            rw [this]
            exact hex
      | joined hk => exact hnow (Nat.lt_of_lt_of_le j.isLt hk)
      -- the joins start with nobody joined
      | unparked hk => exact absurd hj (Nat.not_lt_zero _)
      | store => exact False.elim hj
      | wake => exact False.elim hj
      | unpark hk => exact False.elim hj
      | clearInjector => exact hnow trivial
      | clearLocal hk => exact hnow trivial
      | clearedLocals hk => exact hnow trivial
      | clearDriver => exact hnow trivial

theorem joinedInv_reachable {w : World n τ} (h : (executor n τ).Reachable w) : JoinedInv w :=
  executor_invariant (fun _ hi => False.elim hi) (fun hi hs => joinedInv_step hi hs) h

/-- Once every worker has been joined, no worker moves. -/
theorem JoinedInv.no_worker {w : World n τ} (h : JoinedInv w) {i : Fin n} {sh' : Shared n τ}
    {pc' : WorkerPc τ} (hj : w.drop.joined i) : ¬ WorkerStep w.shared i (w.threads i).pc sh' pc' := by
  intro hw
  exact hw.ne_exited (h i hj)

/-! ## What the drop has cleared stays clear -/

/-- What `Multi::drop` has behind it. -/
structure DeadInv (w : World n τ) : Prop where
  joined : JoinedInv w
  /-- The injector has been cleared, and nobody pushes any more. -/
  injector : w.drop.cleared → w.shared.injector = []
  /-- The same for each local queue. -/
  locals : ∀ i : Fin n, w.drop.clearedLocal i → (w.shared.workers i).localQueue = []

theorem deadInv_init : DeadInv (World.new n τ) :=
  ⟨fun _ hj => False.elim hj, fun hc => False.elim hc, fun _ hc => False.elim hc⟩

/-- A call leaves the local queues alone, and the injector too unless it pushes. -/
theorem CallStep.queues {sh sh' : Shared n τ} {call call' : Call n τ}
    (h : CallStep sh call sh' call') :
    (∀ i, (sh'.workers i).localQueue = (sh.workers i).localQueue)
    ∧ (sh'.injector = sh.injector ∨ ∃ t, call = .push t ∧ sh'.injector = sh.injector ++ [t]) := by
  cases h with
  | @push t => exact ⟨fun _ => rfl, .inr ⟨t, rfl, rfl⟩⟩
  | @unpark i =>
      refine ⟨?_, .inl rfl⟩
      intro j
      by_cases hj : j = i
      · subst hj; simp [Shared.unpark, Shared.setSlot]
      · simp [Shared.unpark, Shared.setSlot, hj]
  | _ => exact ⟨fun _ => rfl, .inl rfl⟩

theorem deadInv_drop {w : World n τ} {sh' : Shared n τ} {d' : DropPc} (h : DeadInv w)
    (hd : DropStep w.shared w.threads w.drop sh' d') (hj : JoinedInv { w with shared := sh', drop := d' }) :
    DeadInv { w with shared := sh', drop := d' } := by
  have hinj := h.injector
  have hloc := h.locals
  refine ⟨hj, ?_, ?_⟩
  · intro hc
    dsimp only at hc ⊢
    generalize w.drop = d at hd hinj
    cases hd with
    | clearInjector => rfl
    | clearLocal hk => exact hinj trivial
    | clearedLocals hk => exact hinj trivial
    | clearDriver => exact hinj trivial
    | _ => exact False.elim hc
  · intro i hc
    have hi := hloc i
    dsimp only at hc ⊢
    generalize w.drop = d at hd hi
    cases hd with
    | clearInjector => exact absurd hc (Nat.not_lt_zero _)
    | @clearLocal k hk =>
        have hc' : i.val < k + 1 := hc
        rcases Nat.lt_succ_iff_lt_or_eq.mp hc' with hlt | heq
        · have hne : i ≠ ⟨k, hk⟩ := fun he => Nat.ne_of_lt hlt (congrArg Fin.val he)
          simp only [Shared.setLocal, Shared.setSlot, update_of_ne hne]
          exact hi hlt
        · have he : i = ⟨k, hk⟩ := Fin.ext heq
          subst he
          simp only [Shared.setLocal, Shared.setSlot, update_self]
    | clearedLocals hk => exact hi (Nat.lt_of_lt_of_le i.isLt hk)
    | clearDriver => exact hi trivial
    | _ => exact False.elim hc

theorem deadInv_step {w w' : World n τ} {l : Label n τ} (h : DeadInv w) (hok : InTime w l)
    (hs : WorldStep w l w') : DeadInv w' := by
  have hj := joinedInv_step h.joined hs
  cases hs with
  | worker hw =>
      refine ⟨hj, ?_, ?_⟩
      · intro hc
        exact absurd hw (h.joined.no_worker (DropPc.joined_of_cleared hc _))
      · intro i hc
        exact absurd hw (h.joined.no_worker (DropPc.joined_of_clearedLocal hc))
  | enter _ _ => exact ⟨hj, h.injector, h.locals⟩
  | call hcall =>
      obtain ⟨hloc, hinj⟩ := hcall.queues
      refine ⟨hj, ?_, ?_⟩
      · intro hc
        rcases hinj with hsame | ⟨t, hpush, _⟩
        · exact hsame.trans (h.injector hc)
        -- the only step that could fill it again, and it came in time
        · exact absurd hc (hok ⟨t, hpush⟩)
      · intro i hc
        exact (hloc i).trans (h.locals i hc)
  | drop hd => exact deadInv_drop h hd hj

theorem deadInv_reachable {w : World n τ} (h : (executor n τ).ReachableVia InTime w) : DeadInv w :=
  executor_via deadInv_init (fun hi hok hs => deadInv_step hi hok hs) h

/-! ## What is pushed late stays queued -/

/-- The workers are gone, the injector has been cleared, and something is in it. -/
structure Stuck (w : World n τ) : Prop where
  joined : JoinedInv w
  cleared : w.drop.cleared
  queued : w.shared.injector ≠ []

theorem stuck_step {w w' : World n τ} {l : Label n τ} (h : Stuck w) (hs : WorldStep w l w') :
    Stuck w' := by
  have hj := joinedInv_step h.joined hs
  cases hs with
  | worker hw => exact absurd hw (h.joined.no_worker (DropPc.joined_of_cleared h.cleared _))
  | enter _ _ => exact ⟨hj, h.cleared, h.queued⟩
  | call hcall =>
      refine ⟨hj, h.cleared, ?_⟩
      rcases hcall.queues.2 with hsame | ⟨t, _, hpush⟩
      · show _ ≠ []; rw [hsame]; exact h.queued
      · show _ ≠ []; rw [hpush]; simp
  | drop hd =>
      have hc := h.cleared
      have hq := h.queued
      generalize hdrop : w.drop = d at hd hc
      cases hd with
      | clearLocal hk => exact ⟨hj, trivial, hq⟩
      | clearedLocals hk => exact ⟨hj, trivial, hq⟩
      | clearDriver => exact ⟨hj, trivial, hq⟩
      | _ => exact False.elim hc

theorem Stuck.run {w w' : World n τ} {ls : List (Label n τ)} (h : Stuck w)
    (hr : (executor n τ).run w ls = some w') : Stuck w' := by
  induction ls generalizing w with
  | nil =>
      obtain rfl := Option.some.inj hr
      exact h
  | cons l ls ih =>
      obtain ⟨m, hm, hr⟩ := Option.bind_eq_some_iff.mp hr
      exact ih (stuck_step h (step_worldStep hm)) hr

/--
**Nothing is queued on a dead runtime, unless it is pushed late.**

In every run whose pushes all come before `Multi::drop` clears the injector, the
injector and every local queue are empty once the drop has returned. A push that
comes later, by `schedule` or by `spawn`, stays in the injector in every state that
follows.
-/
theorem dead_runtime_empty :
    (∀ w : World n τ, (executor n τ).ReachableVia InTime w → w.drop = .returned →
      w.shared.injector = [] ∧ ∀ i, (w.shared.workers i).localQueue = [])
    ∧ ∀ (w w' : World n τ) (c : Nat) (t : τ), (executor n τ).Reachable w → w.drop.cleared →
        w.calls c = .push t → (executor n τ).step w (.call c) = some w' →
        ∀ ls w'', (executor n τ).run w' ls = some w'' → w''.shared.injector ≠ [] := by
  refine ⟨?_, ?_⟩
  · intro w h hret
    have hinv := deadInv_reachable h
    refine ⟨hinv.injector ?_, fun i => hinv.locals i ?_⟩
    · rw [hret]; exact trivial
    · rw [hret]; exact trivial
  · intro w w' c t h hc hpush hstep ls w'' hrun
    have hworld : w.step (.call c) = some w' := hstep
    have hjoined := joinedInv_step (joinedInv_reachable h) (step_worldStep hworld)
    -- the push does not look at `shutdown` any more
    have hw' : w' = { w with shared := pushGlobal w.shared t, calls := update w.calls c .loadParked } := by
      have hstep' : (callNext w.shared (w.calls c)).map (fun r =>
        { w with shared := r.1, calls := update w.calls c r.2 }) = some w' := hstep
      rw [hpush] at hstep'
      exact (Option.some.inj hstep').symm
    have hstuck : Stuck w' := by
      refine ⟨hjoined, ?_, ?_⟩
      · rw [hw']; exact hc
      · rw [hw']; simp [pushGlobal]
    exact (hstuck.run hrun).queued

/-- One worker starts and sees the shutdown, and the drop runs to its end. -/
def quietDrop : List (Label 1 Unit) :=
  [.worker 0 .go, .drop, .drop, .drop, .drop, .worker 0 .go, .drop, .drop, .drop, .drop, .drop, .drop]

instance decidableInTime (w : World 1 Unit) : ∀ l : Label 1 Unit, Decidable (InTime w l)
  | .call c =>
      match h : w.calls c, hd : w.drop with
      | .push t, .clearLocal _ => .isFalse (fun hf => hf ⟨t, h⟩ (by rw [hd]; trivial))
      | .push t, .clearDriver => .isFalse (fun hf => hf ⟨t, h⟩ (by rw [hd]; trivial))
      | .push t, .returned => .isFalse (fun hf => hf ⟨t, h⟩ (by rw [hd]; trivial))
      | _, .notStarted | _, .wake | _, .unpark _ | _, .join _ | _, .clearInjector =>
          .isTrue (fun _ hc => by rw [hd] at hc; exact hc)
      | .idle, _ | .scheduleCheck _, _ | .loadParked, _ | .wakeReactor, _ | .fetchAdd, _
      | .unpark _, _ | .register _, _ | .registerWake, _ =>
          .isTrue (by rintro ⟨t, ht⟩; rw [h] at ht; exact absurd ht (by simp))
  | .worker _ _ | .schedule _ _ | .spawn _ _ | .register _ _ | .drop => .isTrue trivial

/-- The same after a `spawn` whose task no worker takes. -/
def spawnedDrop : List (Label 1 Unit) := [.spawn 0 (), .call 0] ++ quietDrop

theorem dead_runtime_empty_spawnedDrop :
    ((executor 1 Unit).exec (World.new 1 Unit) [.spawn 0 (), .call 0]).shared.injector = [()]
    ∧ ((executor 1 Unit).exec (World.new 1 Unit) spawnedDrop).shared.injector = [] :=
  ⟨by decide +kernel,
    (dead_runtime_empty.1 _ (Transition.System.ReachableVia.exec (.init rfl) (by decide +kernel))
      (by decide +kernel)).1⟩

/-- A `spawn` through a cloned `Handle` after the drop. -/
theorem spawn_on_dead_runtime : ∃ w : World 1 Unit, (executor 1 Unit).Reachable w
    ∧ w.drop = .returned ∧ w.shared.injector ≠ [] := by
  refine ⟨(executor 1 Unit).exec (World.new 1 Unit) (quietDrop ++ [.spawn 0 (), .call 0]),
    Transition.System.Reachable.exec (.init rfl), ?_, ?_⟩
  · decide +kernel
  · decide +kernel

end Nanorun.Executor
