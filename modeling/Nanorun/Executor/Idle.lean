import Mathlib.Data.Finset.Card
import Nanorun.Executor.Handover

/-!
# No idle worker beside a waiting task

`unpark_one` does not look for a sleeping worker: it unparks the one whose turn it is.
The turn may come to a worker that polls a task, and then the push has woken nobody.

A worker is *idle* from its look at the injector that found it empty until it gets an
unpark token or wins the driver token, and *searching* when it is neither idle nor in
`task.poll()`: it will come past the injector before it sleeps. The driver inside
`Reactor::poll` searches in this sense, because the handshake of `WakeInv` gets it out
for every later push.

`Covered` is a balance: next to an idle worker, every task in the injector has a worker
that searches, or a call that has pushed and not yet unparked. A push brings its own
call, a worker that takes a task pays with itself, a worker becomes idle on an empty
injector only. The one step that can break the balance is an unpark spent on a worker
that is not idle.
-/

namespace Nanorun.Executor

open Function Transition

variable {n : Nat} {τ : Type}

/-- The worker has found the injector empty and goes on to `thread::park`. -/
def WorkerPc.looked : WorkerPc τ → Bool
  | .hasWork false (.peer _) | .casDriver | .park => true
  | _ => false

/-- On its way to sleep or asleep in `thread::park`, and no token will bring it back. -/
def Idle (w : World n τ) (i : Fin n) : Prop :=
  (w.threads i).pc.looked = true ∧ (w.shared.workers i).thread ≠ some true

/-- Will look at the injector before it sleeps. -/
def Searching (w : World n τ) (i : Fin n) : Prop :=
  ¬ Idle w i ∧ (w.threads i).pc.away = false

instance decidableIdle (w : World n τ) (i : Fin n) : Decidable (Idle w i) :=
  inferInstanceAs (Decidable (_ ∧ _))

instance decidableSearching (w : World n τ) (i : Fin n) : Decidable (Searching w i) :=
  inferInstanceAs (Decidable (_ ∧ _))

/-- The workers that search. -/
def searchers (w : World n τ) : Finset (Fin n) := Finset.univ.filter fun i => Searching w i

/--
An unpark goes to an idle worker, unless there is none, or the searching workers and the
other calls between push and unpark are enough for the injector.
-/
def Aimed (w : World n τ) : Label n τ → Prop
  | .call c => ∀ i, w.calls c = .unpark i → Idle w i ∨ (∀ j, ¬ Idle w j)
      ∨ ∃ s : Finset Nat, (∀ d ∈ s, d ≠ c ∧ (w.calls d).pastPush = true)
          ∧ w.shared.injector.length ≤ (searchers w).card + s.card
  | _ => True

/-- Next to an idle worker, every waiting task has a searching worker or a call on the way. -/
def Covered (w : World n τ) : Prop :=
  (∃ i, Idle w i) → ∃ s : Finset Nat, (∀ d ∈ s, (w.calls d).pastPush = true)
    ∧ w.shared.injector.length ≤ (searchers w).card + s.card

theorem WorkerPc.away_of_looked {pc : WorkerPc τ} (h : pc.looked = true) : pc.away = false := by
  unfold WorkerPc.looked at h
  split at h <;> first | rfl | exact absurd h (by simp)

theorem mem_searchers {w : World n τ} {i : Fin n} : i ∈ searchers w ↔ Searching w i := by
  simp [searchers]

/-! ## A worker moves -/

/-- A worker becomes idle only when it finds the injector empty. -/
theorem WorkerStep.looks {sh sh' : Shared n τ} {i : Fin n} {pc pc' : WorkerPc τ}
    (h : WorkerStep sh i pc sh' pc') (hl : pc'.looked = true) :
    sh' = sh ∧ (pc.looked = true ∨ sh.injector = []) := by
  cases h with
  | @lookOn recheck p p' hw =>
      refine ⟨rfl, ?_⟩
      cases recheck with
      | true => exact absurd hl (by simp [WorkerPc.looked])
      | false =>
          cases p with
          | own =>
              rw [hasWork] at hw
              split at hw
              · cases hw
                exact absurd hl (by simp [WorkerPc.looked])
              · exact absurd hw (by simp)
          | injector =>
              rw [hasWork] at hw
              split at hw
              · rename_i hq
                exact .inr (List.isEmpty_iff.mp hq)
              · exact absurd hw (by simp)
          | peer k => exact .inl rfl
  | @lookNo recheck p hw =>
      refine ⟨rfl, ?_⟩
      cases recheck with
      | true => exact absurd hl (by simp [WorkerPc.looked])
      | false =>
          cases p with
          | own => rw [hasWork] at hw; split at hw <;> exact absurd hw (by simp)
          | injector => rw [hasWork] at hw; split at hw <;> exact absurd hw (by simp)
          | peer k => exact .inl rfl
  | casLost _ => exact ⟨rfl, .inl rfl⟩
  | @lookYes recheck _ _ => cases recheck <;> exact absurd hl (by simp [WorkerPc.looked])
  | missSecond _ hpc =>
      rcases hpc with hpc | ⟨_, hpc⟩ <;> subst hpc <;> exact absurd hl (by simp [WorkerPc.looked])
  | stealOne _ _ => split at hl <;> exact absurd hl (by simp [WorkerPc.looked])
  | _ => exact absurd hl (by simp [WorkerPc.looked])

section WorkerMoves

variable {w : World n τ} {i j : Fin n} {sh' : Shared n τ} {th' : Worker τ}

theorem idle_other (hs : WorkerStep w.shared i (w.threads i).pc sh' th'.pc) (hj : j ≠ i) :
    Idle { w with shared := sh', threads := update w.threads i th' } j ↔ Idle w j := by
  simp only [Idle, update_of_ne hj, hs.handles.2 j hj]

theorem searching_other (hs : WorkerStep w.shared i (w.threads i).pc sh' th'.pc) (hj : j ≠ i) :
    Searching { w with shared := sh', threads := update w.threads i th' } j ↔ Searching w j := by
  rw [Searching, Searching, idle_other hs hj]
  simp only [update_of_ne hj]

/-- The worker pays for the task it takes with itself. -/
theorem covered_takes (h : Covered w)
    (hs : WorkerStep w.shared i (w.threads i).pc sh' th'.pc) {t : τ} (ht : th'.pc = .poll t)
    (hq : w.shared.injector = t :: sh'.injector) :
    Covered { w with shared := sh', threads := update w.threads i th' } := by
  intro hidle
  obtain ⟨j, hj⟩ := hidle
  have hji : j ≠ i := by
    intro he
    subst he
    have hl := hj.1
    simp only [update_self, ht] at hl
    exact absurd hl (by simp [WorkerPc.looked])
  obtain ⟨s, hpast, hle⟩ := h ⟨j, (idle_other hs hji).mp hj⟩
  refine ⟨s, hpast, ?_⟩
  have hsub : searchers w ⊆ insert i (searchers { w with
      shared := sh', threads := update w.threads i th' }) := by
    intro k hk
    by_cases hki : k = i
    · rw [hki]
      exact Finset.mem_insert_self i _
    · refine Finset.mem_insert_of_mem (mem_searchers.mpr ?_)
      exact (searching_other hs hki).mpr (mem_searchers.mp hk)
  have hcard := (Finset.card_le_card hsub).trans (Finset.card_insert_le i _)
  rw [hq, List.length_cons] at hle
  show sh'.injector.length ≤ _
  omega

/-- A worker that takes no task keeps searching, or finds the injector empty. -/
theorem covered_moves (h : Covered w) (hsd : w.shared.shutdown = false)
    (hs : WorkerStep w.shared i (w.threads i).pc sh' th'.pc) (hno : ∀ t, th'.pc ≠ .poll t)
    (hq : sh'.injector = w.shared.injector) :
    Covered { w with shared := sh', threads := update w.threads i th' } := by
  intro hidle
  have haway : th'.pc.away = false := by
    rcases hs.lands hsd with ⟨t, ht⟩ | hpark | ⟨_, haway⟩
    · exact absurd ht (hno t)
    · rw [hpark]
      rfl
    · exact haway
  by_cases hfresh : Idle { w with shared := sh', threads := update w.threads i th' } i
      ∧ ¬ Idle w i
  · -- it has just become idle, so nothing waits
    obtain ⟨⟨hl, hthread⟩, hnot⟩ := hfresh
    simp only [update_self] at hl
    obtain ⟨hsame, hlooked | hempty⟩ := hs.looks hl
    · subst hsame
      exact absurd ⟨hlooked, hthread⟩ hnot
    · refine ⟨∅, by simp, ?_⟩
      show sh'.injector.length ≤ _
      rw [hq, hempty]
      exact Nat.zero_le _
  · have hback : ∀ j, Idle { w with shared := sh', threads := update w.threads i th' } j →
        Idle w j := by
      intro j hj
      by_cases hji : j = i
      · rw [hji] at hj ⊢
        by_contra hni
        exact hfresh ⟨hj, hni⟩
      · exact (idle_other hs hji).mp hj
    obtain ⟨j, hj⟩ := hidle
    obtain ⟨s, hpast, hle⟩ := h ⟨j, hback j hj⟩
    refine ⟨s, hpast, ?_⟩
    have hsub : searchers w ⊆ searchers { w with
        shared := sh', threads := update w.threads i th' } := by
      intro k hk
      have hk := mem_searchers.mp hk
      refine mem_searchers.mpr ⟨fun hidle => hk.1 (hback k hidle), ?_⟩
      by_cases hki : k = i
      · rw [hki]
        simp only [update_self]
        exact haway
      · simp only [update_of_ne hki]
        exact hk.2
    have hcard := Finset.card_le_card hsub
    show sh'.injector.length ≤ _
    rw [hq]
    omega

end WorkerMoves

/-! ## A call moves -/

section CallMoves

variable {w : World n τ} {c : Nat} {sh' : Shared n τ} {call' : Call n τ}

/-- A step that writes no token moves no worker. -/
theorem searchers_call (hw : sh'.workers = w.shared.workers) (c : Nat) (call' : Call n τ) :
    (∀ j, Idle { w with shared := sh', calls := update w.calls c call' } j ↔ Idle w j)
    ∧ searchers { w with shared := sh', calls := update w.calls c call' } = searchers w := by
  have hidle : ∀ j, Idle { w with shared := sh', calls := update w.calls c call' } j
      ↔ Idle w j := by
    intro j
    simp only [Idle, hw]
  refine ⟨hidle, ?_⟩
  ext j
  rw [mem_searchers, mem_searchers, Searching, Searching, hidle j]

/-- The task that is pushed brings its call. -/
theorem covered_push (h : Covered w) {t : τ} (hc : w.calls c = .push t) :
    Covered { w with shared := pushGlobal w.shared t, calls := update w.calls c .loadParked } := by
  intro hidle
  have hworkers : (pushGlobal w.shared t).workers = w.shared.workers := rfl
  obtain ⟨hiff, hsame⟩ := searchers_call hworkers c .loadParked
  obtain ⟨j, hj⟩ := hidle
  obtain ⟨s, hpast, hle⟩ := h ⟨j, (hiff j).mp hj⟩
  have hcs : c ∉ s := by
    intro hmem
    have hp := hpast c hmem
    rw [hc] at hp
    exact absurd hp (by simp [Call.pastPush])
  refine ⟨insert c s, ?_, ?_⟩
  · intro d hd
    by_cases hdc : d = c
    · subst hdc
      simp only [update_self]
      rfl
    · simp only [update_of_ne hdc]
      exact hpast d (Finset.mem_of_mem_insert_of_ne hd hdc)
  · rw [hsame, Finset.card_insert_of_notMem hcs]
    simp only [pushGlobal, List.length_append, List.length_singleton]
    omega

/-- A call that goes on towards its unpark stays counted. -/
theorem covered_goes (h : Covered w) (hw : sh'.workers = w.shared.workers)
    (hq : sh'.injector = w.shared.injector)
    (hp : (w.calls c).pastPush = true → call'.pastPush = true) :
    Covered { w with shared := sh', calls := update w.calls c call' } := by
  intro hidle
  obtain ⟨hiff, hsame⟩ := searchers_call hw c call'
  obtain ⟨j, hj⟩ := hidle
  obtain ⟨s, hpast, hle⟩ := h ⟨j, (hiff j).mp hj⟩
  refine ⟨s, ?_, ?_⟩
  · intro d hd
    by_cases hdc : d = c
    · subst hdc
      simp only [update_self]
      exact hp (hpast d hd)
    · simp only [update_of_ne hdc]
      exact hpast d hd
  · rw [hsame]
    show sh'.injector.length ≤ _
    rw [hq]
    exact hle

/-- An unpark adds searching workers and makes none idle. -/
theorem searchers_unpark (w : World n τ) (c : Nat) (call' : Call n τ) (i : Fin n) :
    (∀ j, Idle { w with shared := w.shared.unpark i, calls := update w.calls c call' } j →
      Idle w j)
    ∧ searchers w ⊆ searchers { w with
        shared := w.shared.unpark i, calls := update w.calls c call' } := by
  have hidle : ∀ j, Idle { w with shared := w.shared.unpark i, calls := update w.calls c call' } j →
      Idle w j := by
    intro j hj
    exact ⟨hj.1, fun hthread => hj.2 ((unpark_thread w.shared i j).1 hthread)⟩
  refine ⟨hidle, ?_⟩
  intro j hj
  have hj := mem_searchers.mp hj
  exact mem_searchers.mpr ⟨fun hi => hj.1 (hidle j hi), hj.2⟩

/-- The unpark of an idle worker pays for the call that made it. -/
theorem covered_unparkIdle (hsd : ShutdownInv w) (h : Covered w) {i : Fin n} (hi : Idle w i) :
    Covered { w with shared := w.shared.unpark i, calls := update w.calls c .idle } := by
  intro _
  obtain ⟨s, hpast, hle⟩ := h ⟨i, hi⟩
  refine ⟨s.erase c, ?_, ?_⟩
  · intro d hd
    obtain ⟨hdc, hmem⟩ := Finset.mem_erase.mp hd
    simp only [update_of_ne hdc]
    exact hpast d hmem
  · have hstart : (w.threads i).pc ≠ .start := by
      intro hpc
      have hl := hi.1
      rw [hpc] at hl
      exact absurd hl (by simp [WorkerPc.looked])
    have htoken : ((w.shared.unpark i).workers i).thread = some true := by
      cases hthread : (w.shared.workers i).thread with
      | none => exact absurd hthread (hsd.published i hstart)
      | some b => simp [Shared.unpark, Shared.setSlot, hthread]
    have hnew : i ∈ searchers { w with
        shared := w.shared.unpark i, calls := update w.calls c .idle } :=
      mem_searchers.mpr ⟨fun hidle => hidle.2 htoken, WorkerPc.away_of_looked hi.1⟩
    have hold : i ∉ searchers w := fun hmem => (mem_searchers.mp hmem).1 hi
    have hcard := Finset.card_le_card (Finset.insert_subset hnew (searchers_unpark w c .idle i).2)
    rw [Finset.card_insert_of_notMem hold] at hcard
    have herase := Finset.pred_card_le_card_erase (s := s) (a := c)
    show w.shared.injector.length ≤ _
    omega

/-- An unpark of any other worker leaves the balance to the rest. -/
theorem covered_unparkOther {i : Fin n} (hrest : (∀ j, ¬ Idle w j)
      ∨ ∃ s : Finset Nat, (∀ d ∈ s, d ≠ c ∧ (w.calls d).pastPush = true)
          ∧ w.shared.injector.length ≤ (searchers w).card + s.card) :
    Covered { w with shared := w.shared.unpark i, calls := update w.calls c .idle } := by
  intro hidle
  obtain ⟨j, hj⟩ := hidle
  rcases hrest with hnone | ⟨s, hpast, hle⟩
  · exact absurd ((searchers_unpark w c .idle i).1 j hj) (hnone j)
  · refine ⟨s, ?_, ?_⟩
    · intro d hd
      obtain ⟨hdc, hp⟩ := hpast d hd
      simp only [update_of_ne hdc]
      exact hp
    · have hcard := Finset.card_le_card (searchers_unpark w c .idle i).2
      show w.shared.injector.length ≤ _
      omega

end CallMoves

/-! ## Runs -/

/-- **One step** of a run that spends no unpark on a worker that is not idle. -/
theorem covered_step {w w' : World n τ} {a : Label n τ} (hr : (executor n τ).Reachable w)
    (h : Covered w) (hok : Aimed w a) (hs : w.step a = some w') (hd : w'.drop = .notStarted) :
    Covered w' := by
  have hloc := localInv_reachable hr
  cases a with
  | worker i c =>
      obtain ⟨⟨sh', th'⟩, hnext, rfl⟩ := Option.map_eq_some_iff.mp hs
      have hstep := workerNext_step hnext
      obtain ⟨_, _, hcase⟩ := hstep.locals hloc.empty (hloc.noExtend i)
      rcases hcase with ⟨t, hpoll, _, hinj⟩ | ⟨hno, hinj⟩
      · exact covered_takes h hstep hpoll hinj
      · exact covered_moves h (notYet_reachable hr hd) hstep hno hinj
  | call c =>
      obtain ⟨⟨sh', call'⟩, hnext, rfl⟩ := Option.map_eq_some_iff.mp hs
      have hstep := callNext_step hnext
      dsimp only at hstep ⊢
      generalize hcall : w.calls c = call at hstep
      cases hstep with
      | push => exact covered_push h hcall
      | @unpark i =>
          rcases hok i hcall with hidle | hrest
          · exact covered_unparkIdle (shutdownInv_reachable hr) h hidle
          · exact covered_unparkOther hrest
      | noWorker hn =>
          intro hidle
          obtain ⟨i, _⟩ := hidle
          exact absurd i.pos (by omega)
      | refused _ | accepted _ | sawParked _ | sawAwake _ | wake | fetchAdd _ | register
      | registerWake =>
          refine covered_goes h rfl rfl ?_
          rw [hcall]
          simp [Call.pastPush]
  | drop =>
      obtain ⟨⟨sh', d'⟩, hnext, rfl⟩ := Option.map_eq_some_iff.mp hs
      exact absurd hd ((dropNext_step hnext).locals hloc.empty).2
  | schedule c t | spawn c t | register c t =>
      obtain ⟨hidle, rfl⟩ := enter_some hs
      refine covered_goes h rfl rfl ?_
      rw [hidle]
      simp [Call.pastPush]

theorem covered_reachable {w : World n τ} (h : (executor n τ).ReachableVia Aimed w)
    (hd : w.drop = .notStarted) : Covered w := by
  have hinit : Covered (World.new n τ) := by
    intro hidle
    obtain ⟨i, hi⟩ := hidle
    exact absurd hi.1 (by simp [World.new, WorkerPc.looked])
  exact executor_beforeDrop hinit
    (fun hr hi hok hstep hd' => covered_step hr hi hok hstep hd') h hd

/--
**No worker sleeps beside a waiting task, as long as the unparks go to idle workers.**

In every run before the shutdown in which an unpark misses the idle workers only when
enough others are searching or still to be unparked: once no `schedule` or `spawn` call is
past its push, a worker asleep next to a non-empty injector has a peer that is awake and
outside `task.poll()`.
-/
theorem no_idle_beside_task {w : World n τ} (h : (executor n τ).ReachableVia Aimed w)
    (hd : w.drop = .notStarted) (hcalls : ∀ c, (w.calls c).pastPush = false)
    (hq : w.shared.injector ≠ []) {i : Fin n} (hi : Asleep w i) :
    ∃ j, j ≠ i ∧ OnItsWay w j := by
  have hwake := wakeInv_reachable h.reachable
  have hidle : Idle w i := by
    rcases hi with ⟨hpc, hthread⟩ | ⟨⟨timeout, hpc⟩, hno⟩
    · exact ⟨by rw [hpc]; rfl, hthread⟩
    · rw [hwake.woken hcalls hq hpc] at hno
      exact absurd hno (by simp)
  obtain ⟨s, hpast, hle⟩ := covered_reachable h hd ⟨i, hidle⟩
  -- no call is left to count on
  have hs : s = ∅ := by
    refine Finset.eq_empty_of_forall_notMem fun c hc => ?_
    have hp := hpast c hc
    rw [hcalls c] at hp
    exact absurd hp (by simp)
  have hpos := List.length_pos_iff.mpr hq
  have hcard : 0 < (searchers w).card := by
    rw [hs, Finset.card_empty] at hle
    omega
  obtain ⟨j, hj⟩ := Finset.card_pos.mp hcard
  obtain ⟨hnot, haway⟩ := mem_searchers.mp hj
  refine ⟨j, ?_, ?_, haway⟩
  · intro he
    subst he
    exact hnot hidle
  · intro ha
    rcases ha with ⟨hpc, hthread⟩ | ⟨⟨timeout, hpc⟩, hno⟩
    · exact hnot ⟨by rw [hpc]; rfl, hthread⟩
    · rw [hwake.woken hcalls hq hpc] at hno
      exact absurd hno (by simp)

/-- Every unpark goes to an idle worker. -/
def AtIdle (w : World n τ) : Label n τ → Prop
  | .call c =>
      match w.calls c with
      | .unpark i => Idle w i
      | _ => True
  | _ => True

instance decidableAtIdle (w : World n τ) : ∀ a, Decidable (AtIdle w a)
  | .call c =>
      match h : w.calls c with
      | .unpark i => decidable_of_iff (Idle w i) (by simp [AtIdle, h])
      | .idle | .scheduleCheck _ | .push _ | .loadParked | .wakeReactor | .fetchAdd
      | .register _ | .registerWake => .isTrue (by simp [AtIdle, h])
  | .worker _ _ | .schedule _ _ | .spawn _ _ | .register _ _ | .drop => .isTrue trivial

theorem aimed_of_atIdle (w : World n τ) (a : Label n τ) (h : AtIdle w a) : Aimed w a := by
  cases a with
  | call c =>
      intro i hc
      rw [AtIdle, hc] at h
      exact .inl h
  | _ => exact trivial

/-- Worker 1 drives, workers 0 and 2 are parked, and the turn for the unpark is worker 0's. -/
def unparkIdle : List (Label 3 Nat) :=
  List.flatten [goes 1 24, goes 0 16, goes 2 16, [.spawn 0 7], List.replicate 5 (.call 0)]

theorem no_idle_beside_task_unparkIdle :
    ∃ w : World 3 Nat, (executor 3 Nat).ReachableVia Aimed w ∧ w.shared.injector = [7]
      ∧ Asleep w 2 ∧ ∃ j, j ≠ 2 ∧ OnItsWay w j := by
  have hm : (executor 3 Nat).Meets AtIdle (World.new 3 Nat) unparkIdle := by decide +kernel
  obtain ⟨w, hrun, hvia⟩ := hm.run (.init rfl)
  have hend : ∀ w ∈ (executor 3 Nat).run (World.new 3 Nat) unparkIdle,
      w.drop = .notStarted ∧ w.calls 0 = .idle ∧ w.shared.injector = [7] ∧ Parked w 2 := by
    decide +kernel
  obtain ⟨hdrop, hcall, hinj, hp⟩ := hend w hrun
  have hcalls : ∀ c, (w.calls c).pastPush = false := by
    intro c
    rw [calls_idle hrun (by decide) hcall c]
    rfl
  have hr := hvia.mono aimed_of_atIdle
  exact ⟨w, hr, hinj, .inl hp,
    no_idle_beside_task hr hdrop hcalls (by rw [hinj]; simp) (.inl hp)⟩

/--
Three workers. Worker 0 drives; worker 2 starts late and polls task 7; worker 1 polls task
8 and parks again. Task 9 gets the driver out of the reactor to poll it, and the unpark for
task 10 is worker 0's turn.
-/
def unparkBusy : List (Label 3 Nat) :=
  List.flatten [goes 0 24, goes 1 16, [.spawn 0 7], List.replicate 5 (.call 0),
    [.spawn 0 8], List.replicate 5 (.call 0), goes 2 3, goes 1 19,
    [.spawn 0 9], List.replicate 5 (.call 0),
    [.worker 0 .wake], goes 0 2, [.worker 0 (.deadline none)], goes 0 2,
    [.spawn 0 10], List.replicate 4 (.call 0)]

theorem idle_beside_task :
    ∃ w : World 3 Nat, (executor 3 Nat).Reachable w ∧ w.drop = .notStarted
      ∧ (∀ c, w.calls c = .idle) ∧ w.shared.injector = [10] ∧ Asleep w 1
      ∧ ¬ ∃ j, j ≠ 1 ∧ OnItsWay w j := by
  obtain ⟨w, hrun⟩ := Option.isSome_iff_exists.mp
    (show ((executor 3 Nat).run (World.new 3 Nat) unparkBusy).isSome = true by decide +kernel)
  have hend : ∀ w ∈ (executor 3 Nat).run (World.new 3 Nat) unparkBusy,
      w.drop = .notStarted ∧ w.calls 0 = .idle ∧ w.shared.injector = [10] ∧ Parked w 1
        ∧ (w.threads 0).pc.away = true ∧ (w.threads 2).pc.away = true := by
    decide +kernel
  obtain ⟨hdrop, hcall, hinj, hp, h0, h2⟩ := hend w hrun
  refine ⟨w, System.Reachable.run (.init rfl) hrun, hdrop, calls_idle hrun (by decide) hcall, hinj,
    .inl hp, ?_⟩
  intro hj
  obtain ⟨j, hne, hway⟩ := hj
  have hcases : j = 0 ∨ j = 1 ∨ j = 2 := by omega
  rcases hcases with hj | hj | hj
  · rw [hj] at hway
    exact absurd (hway.2.symm.trans h0) (by simp)
  · exact hne hj
  · rw [hj] at hway
    exact absurd (hway.2.symm.trans h2) (by simp)

end Nanorun.Executor
