import Mathlib.Data.Fintype.Basic
import Nanorun.Executor.Fifo
import Nanorun.Executor.Shutdown

/-!
# Who drives while somebody is parked

A worker parks because it lost the race for the driver token, so at that moment
somebody else looks after the reactor and the timers. Nothing hands that duty on. The
driver gives the token back when `Reactor::poll` returns and may find a task in the
injector before it comes to `idle` again; for as long as it polls that task nobody
drives, and the parked workers sleep on.

`served_step` says which step loses the driver: a worker takes a task from the injector,
next to a parked one, while every other worker is parked too or polls a task. Every
other step keeps a worker that holds the token or is on its way to it.
-/

namespace Nanorun.Executor

open Function Transition

variable {n : Nat} {τ : Type}

/-- In `thread::park` without an unpark token. -/
def Parked (w : World n τ) (i : Fin n) : Prop :=
  (w.threads i).pc = .park ∧ (w.shared.workers i).thread ≠ some true

/-- Inside `task.poll()`, or returned from `run_worker`. -/
def WorkerPc.away : WorkerPc τ → Bool
  | .poll _ | .exited => true
  | _ => false

/-- Awake and outside `task.poll()`. -/
def OnItsWay (w : World n τ) (i : Fin n) : Prop :=
  ¬ Asleep w i ∧ (w.threads i).pc.away = false

/-- The worker holds the driver token, or will compete for it. -/
def Serves (w : World n τ) (i : Fin n) : Prop :=
  (w.threads i).pc.holds = true ∨ OnItsWay w i

/-- No worker is parked while nobody serves the reactor and the timers. -/
def Served (w : World n τ) : Prop := (∃ i, Parked w i) → ∃ j, Serves w j

/-- The next step of worker `i` takes a task from the injector. -/
def TakesGlobal (w : World n τ) (i : Fin n) : Prop :=
  w.shared.injector ≠ []
    ∧ ((w.threads i).pc = .popFirst ∧ (w.threads i).tick % pollBudget = 0
      ∨ (w.threads i).pc = .popSecond ∧ (w.threads i).tick % pollBudget ≠ 0)

/-- Next to a parked worker, a task is taken only while another worker serves. -/
def HandsOver (w : World n τ) : Label n τ → Prop
  | .worker i _ => TakesGlobal w i → (∃ j, Parked w j) → ∃ j, j ≠ i ∧ Serves w j
  | _ => True

theorem WorkerPc.away_of_holds {pc : WorkerPc τ} (h : pc.holds = true) : pc.away = false := by
  unfold WorkerPc.holds at h
  split at h <;> first | rfl | exact absurd h (by simp)

/-- To serve is to be neither parked nor away: `Reactor::poll` is entered with the token. -/
theorem serves_iff {w : World n τ} {i : Fin n} :
    Serves w i ↔ ¬ Parked w i ∧ (w.threads i).pc.away = false := by
  constructor
  · intro h
    rcases h with hh | ⟨ha, haway⟩
    · constructor
      · intro hp
        rw [hp.1] at hh
        exact absurd hh (by simp [WorkerPc.holds])
      · exact WorkerPc.away_of_holds hh
    · exact ⟨fun hp => ha (.inl hp), haway⟩
  · intro h
    obtain ⟨hp, haway⟩ := h
    by_cases ha : Asleep w i
    · rcases ha with hpark | ⟨⟨timeout, hpc⟩, _⟩
      · exact absurd hpark hp
      · exact .inl (by rw [hpc]; rfl)
    · exact .inr ⟨ha, haway⟩

instance decidableParked [DecidableEq τ] (w : World n τ) (i : Fin n) : Decidable (Parked w i) :=
  inferInstanceAs (Decidable (_ ∧ _))

instance decidableServes [DecidableEq τ] (w : World n τ) (i : Fin n) : Decidable (Serves w i) :=
  decidable_of_iff (¬ Parked w i ∧ (w.threads i).pc.away = false) serves_iff.symm

instance decidableHandsOver [DecidableEq τ] (w : World n τ) : ∀ a, Decidable (HandsOver w a)
  | .worker i _ =>
      inferInstanceAs (Decidable ((w.shared.injector ≠ [] ∧ (_ ∧ _ ∨ _ ∧ _)) →
        (∃ j, Parked w j) → ∃ j, j ≠ i ∧ Serves w j))
  | .schedule _ _ | .spawn _ _ | .register _ _ | .call _ | .drop => .isTrue trivial

/-! ## Before the shutdown -/

/-- `shutdown` is stored by `Multi::drop` only. -/
def NotYet (w : World n τ) : Prop := w.drop = .notStarted → w.shared.shutdown = false

theorem notYet_step {w w' : World n τ} {l : Label n τ} (h : NotYet w) (hs : WorldStep w l w') :
    NotYet w' := by
  cases hs with
  | worker hw => exact fun hd => hw.handles.1.trans (h hd)
  | enter => exact h
  | call hc => exact fun hd => hc.tokens.1.trans (h hd)
  | drop hd =>
      intro hd'
      generalize w.drop = d at hd
      cases hd <;> exact absurd hd' (by simp)

theorem notYet_reachable {w : World n τ} (h : (executor n τ).Reachable w) : NotYet w :=
  executor_invariant (fun _ => rfl) notYet_step h

/-- The invariant rule up to the shutdown. -/
theorem executor_beforeDrop {I : World n τ → Prop} {ok : World n τ → Label n τ → Prop}
    (h0 : I (World.new n τ))
    (hs : ∀ {w a w'}, (executor n τ).Reachable w → I w → ok w a → w.step a = some w' →
      w'.drop = .notStarted → I w')
    {w : World n τ} (h : (executor n τ).ReachableVia ok w) (hd : w.drop = .notStarted) : I w := by
  have hinv : (executor n τ).Reachable w ∧ (w.drop = .notStarted → I w) := by
    refine h.invariant (I := fun w => (executor n τ).Reachable w ∧ (w.drop = .notStarted → I w)) ?_ ?_
    · intro s hi
      refine ⟨.init hi, fun _ => ?_⟩
      cases hi
      exact h0
    · intro s a s' hi hok hstep
      have hstep : s.step a = some s' := hstep
      refine ⟨.tail hi.1 trivial hstep, fun hd' => ?_⟩
      -- it had not started before the step either
      have hbefore := ((localInv_reachable hi.1).queue hstep hd').1
      exact hs hi.1 (hi.2 hbefore) hok hstep hd'
  exact hinv.2 hd

/-! ## Taking a task -/

theorem popLocal_of_empty {sh : Shared n τ} {i : Fin n} (h : (sh.workers i).localQueue = []) :
    popLocal sh i = none := by
  rw [popLocal, h]
  rfl

theorem workerNext_popFirst {sh : Shared n τ} {i : Fin n} {th : Worker τ} {c : Choice}
    {r : Shared n τ × Worker τ} (hpc : th.pc = .popFirst) (h : workerNext sh i th c = some r) :
    took sh th (if th.tick % pollBudget = 0 then popGlobal sh else popLocal sh i)
      (th.goto .popSecond) = r := by
  unfold workerNext at h
  rw [hpc] at h
  cases c with
  | go => exact Option.some.inj h
  | _ => exact absurd h (by simp)

theorem workerNext_popSecond {sh : Shared n τ} {i : Fin n} {th : Worker τ} {c : Choice}
    {r : Shared n τ × Worker τ} (hpc : th.pc = .popSecond) (h : workerNext sh i th c = some r) :
    took sh th (if th.tick % pollBudget = 0 then popLocal sh i else popGlobal sh)
      (th.beginSteal n) = r := by
  unfold workerNext at h
  rw [hpc] at h
  cases c with
  | go => exact Option.some.inj h
  | _ => exact absurd h (by simp)

theorem beginSteal_ne_poll (th : Worker τ) (t : τ) : (th.beginSteal n).pc ≠ .poll t := by
  unfold Worker.beginSteal
  split <;> simp [Worker.goto]

/-- A worker comes into `task.poll()` exactly by taking a task from the injector. -/
theorem LocalInv.takes_iff {w : World n τ} (h : LocalInv w) {i : Fin n} {c : Choice}
    {sh' : Shared n τ} {th' : Worker τ}
    (hr : workerNext w.shared i (w.threads i) c = some (sh', th')) :
    TakesGlobal w i ↔ ∃ t, th'.pc = .poll t := by
  have hloc := popLocal_of_empty (h.empty i)
  constructor
  · intro ht
    obtain ⟨hq, hpc⟩ := ht
    obtain ⟨t, rest, hinj⟩ := List.exists_cons_of_ne_nil hq
    have hpop : popGlobal w.shared = some (t, { w.shared with injector := rest }) := by
      rw [popGlobal, hinj]
    refine ⟨t, ?_⟩
    rcases hpc with ⟨hpc, htick⟩ | ⟨hpc, htick⟩
    · have hs := workerNext_popFirst hpc hr
      rw [if_pos htick, hpop] at hs
      exact congrArg (fun r => r.2.pc) hs.symm
    · have hs := workerNext_popSecond hpc hr
      rw [if_neg htick, hpop] at hs
      exact congrArg (fun r => r.2.pc) hs.symm
  · intro ht
    obtain ⟨t, ht⟩ := ht
    obtain ⟨_, _, hcase⟩ := (workerNext_step hr).locals h.empty (h.noExtend i)
    rcases hcase with ⟨t', _, hpc, hinj⟩ | ⟨hno, _⟩
    · refine ⟨by rw [hinj]; simp, ?_⟩
      -- where the tick sends it to its own queue first, it comes away with nothing
      by_cases htick : (w.threads i).tick % pollBudget = 0
      · refine .inl ⟨hpc.resolve_right ?_, htick⟩
        intro hpc
        have hs := workerNext_popSecond hpc hr
        rw [if_pos htick, hloc] at hs
        have hth : (w.threads i).beginSteal n = th' := congrArg Prod.snd hs
        rw [← hth] at ht
        exact beginSteal_ne_poll _ t ht
      · refine .inr ⟨hpc.resolve_left ?_, htick⟩
        intro hpc
        have hs := workerNext_popFirst hpc hr
        rw [if_neg htick, hloc] at hs
        have hth : (w.threads i).goto .popSecond = th' := congrArg Prod.snd hs
        rw [← hth] at ht
        exact absurd ht (by simp [Worker.goto])
    · exact absurd ht (hno t)

/-! ## The step that loses the driver -/

/-- Where a worker step ends, before the shutdown. -/
theorem WorkerStep.lands {sh sh' : Shared n τ} {i : Fin n} {pc pc' : WorkerPc τ}
    (h : WorkerStep sh i pc sh' pc') (hsd : sh.shutdown = false) :
    (∃ t, pc' = .poll t) ∨ pc' = .park ∨ pc' ≠ .park ∧ pc'.away = false := by
  cases h with
  | exit hf => rw [hsd] at hf; exact absurd hf (by simp)
  | takeGlobal _ _ => exact .inl ⟨_, rfl⟩
  | takeLocal _ _ => exact .inl ⟨_, rfl⟩
  | stealPut => exact .inl ⟨_, rfl⟩
  | stealOne _ _ =>
      split
      · exact .inl ⟨_, rfl⟩
      · exact .inr (.inr ⟨by simp, rfl⟩)
  | casLost _ => exact .inr (.inl rfl)
  | missSecond _ hpc =>
      rcases hpc with hpc | ⟨_, hpc⟩ <;> subst hpc <;> exact .inr (.inr ⟨by simp, rfl⟩)
  | @lookYes recheck _ _ => cases recheck <;> exact .inr (.inr ⟨by simp, rfl⟩)
  | @lookNo recheck _ _ => cases recheck <;> exact .inr (.inr ⟨by simp, rfl⟩)
  | _ => exact .inr (.inr ⟨by simp, rfl⟩)

section WorkerMoves

variable {w : World n τ} {i j : Fin n} {sh' : Shared n τ} {th' : Worker τ}

/-- A worker's step moves no other worker. -/
theorem parked_other (hs : WorkerStep w.shared i (w.threads i).pc sh' th'.pc) (hj : j ≠ i) :
    Parked { w with shared := sh', threads := update w.threads i th' } j ↔ Parked w j := by
  simp only [Parked, update_of_ne hj, hs.handles.2 j hj]

theorem serves_other (hs : WorkerStep w.shared i (w.threads i).pc sh' th'.pc) (hj : j ≠ i) :
    Serves { w with shared := sh', threads := update w.threads i th' } j ↔ Serves w j := by
  rw [serves_iff, serves_iff, parked_other hs hj]
  simp only [update_of_ne hj]

/-- Somebody who holds the token serves. -/
theorem TokenInv.serves (h : TokenInv w) (hh : w.shared.driverHeld = true) :
    ∃ j, (w.threads j).pc.holds = true := by
  obtain ⟨o, ho, hown⟩ := h.owner
  cases o with
  | none => rw [hh] at ho; exact absurd ho (by simp)
  | some j => exact ⟨j, (hown j).mpr rfl⟩

/-- A worker that takes a task leaves the duty to the others. -/
theorem served_takes (hs : WorkerStep w.shared i (w.threads i).pc sh' th'.pc)
    (hpop : (w.threads i).pc ≠ .park) {t : τ} (ht : th'.pc = .poll t) :
    Served { w with shared := sh', threads := update w.threads i th' }
      ↔ ((∃ j, Parked w j) → ∃ j, j ≠ i ∧ Serves w j) := by
  have hparked : (∃ j, Parked { w with shared := sh', threads := update w.threads i th' } j)
      ↔ ∃ j, Parked w j := by
    constructor
    · intro hex
      obtain ⟨j, hj⟩ := hex
      have hji : j ≠ i := by
        intro he
        subst he
        have hpark := hj.1
        simp only [update_self, ht] at hpark
        exact absurd hpark (by simp)
      exact ⟨j, (parked_other hs hji).mp hj⟩
    · intro hex
      obtain ⟨j, hj⟩ := hex
      have hji : j ≠ i := by
        intro he
        subst he
        exact hpop hj.1
      exact ⟨j, (parked_other hs hji).mpr hj⟩
  have hserves : (∃ j, Serves { w with shared := sh', threads := update w.threads i th' } j)
      ↔ ∃ j, j ≠ i ∧ Serves w j := by
    constructor
    · intro hex
      obtain ⟨j, hj⟩ := hex
      have hji : j ≠ i := by
        intro he
        subst he
        have haway := (serves_iff.mp hj).2
        simp only [update_self, ht] at haway
        exact absurd haway (by simp [WorkerPc.away])
      exact ⟨j, hji, (serves_other hs hji).mp hj⟩
    · intro hex
      obtain ⟨j, hji, hj⟩ := hex
      exact ⟨j, (serves_other hs hji).mpr hj⟩
  unfold Served
  rw [hparked, hserves]

/-- A worker that takes no task serves itself, or has just lost the token to one who does. -/
theorem served_moves (ht : TokenInv w) (hsd : w.shared.shutdown = false)
    (hs : WorkerStep w.shared i (w.threads i).pc sh' th'.pc) (hno : ∀ t, th'.pc ≠ .poll t) :
    Served { w with shared := sh', threads := update w.threads i th' } := by
  intro _
  rcases hs.lands hsd with ⟨t, hpoll⟩ | hpark | ⟨hpark, haway⟩
  · exact absurd hpoll (hno t)
  · obtain ⟨hheld, hnot⟩ := hs.park_held hpark
    obtain ⟨j, hj⟩ := ht.serves hheld
    have hji : j ≠ i := by
      intro he
      subst he
      rw [hnot] at hj
      exact absurd hj (by simp)
    exact ⟨j, (serves_other hs hji).mpr (.inl hj)⟩
  · refine ⟨i, serves_iff.mpr ⟨?_, ?_⟩⟩
    · intro hp
      have hpc := hp.1
      simp only [update_self] at hpc
      exact hpark hpc
    · simp only [update_self]
      exact haway

end WorkerMoves

/-- A call unparks workers and parks none. -/
theorem served_call {w : World n τ} (h : Served w) {c : Nat} {sh' : Shared n τ}
    {call' : Call n τ} (hs : CallStep w.shared (w.calls c) sh' call') :
    Served { w with shared := sh', calls := update w.calls c call' } := by
  have hparked : ∀ i, Parked { w with shared := sh', calls := update w.calls c call' } i →
      Parked w i := by
    intro i hi
    exact ⟨hi.1, fun hthread => hi.2 ((hs.tokens.2.2 i).1 hthread)⟩
  intro hex
  obtain ⟨i, hi⟩ := hex
  obtain ⟨j, hj⟩ := h ⟨i, hparked i hi⟩
  obtain ⟨hnp, haway⟩ := serves_iff.mp hj
  exact ⟨j, serves_iff.mpr ⟨fun hp => hnp (hparked j hp), haway⟩⟩

/-- **One step.** Before the shutdown, the driver is lost by exactly one kind of step. -/
theorem served_step {w w' : World n τ} {a : Label n τ} (hr : (executor n τ).Reachable w)
    (h : Served w) (hs : w.step a = some w') (hd : w'.drop = .notStarted) :
    Served w' ↔ HandsOver w a := by
  have hloc := localInv_reachable hr
  cases a with
  | worker i c =>
      obtain ⟨⟨sh', th'⟩, hnext, rfl⟩ := Option.map_eq_some_iff.mp hs
      have hstep := workerNext_step hnext
      have htakes := hloc.takes_iff hnext
      by_cases hpoll : ∃ t, th'.pc = .poll t
      · have htake := htakes.mpr hpoll
        obtain ⟨t, hpoll⟩ := hpoll
        have hpop : (w.threads i).pc ≠ .park := by
          intro hp
          rcases htake.2 with ⟨hpc, _⟩ | ⟨hpc, _⟩ <;> rw [hp] at hpc <;> exact absurd hpc (by simp)
        rw [served_takes hstep hpop hpoll]
        exact ⟨fun hk _ => hk, fun hk => hk htake⟩
      · have hserved := served_moves (tokenInv_reachable hr) (notYet_reachable hr hd) hstep
          (fun t ht => hpoll ⟨t, ht⟩)
        exact ⟨fun _ ht => absurd (htakes.mp ht) hpoll, fun _ => hserved⟩
  | call c =>
      obtain ⟨⟨sh', call'⟩, hnext, rfl⟩ := Option.map_eq_some_iff.mp hs
      exact ⟨fun _ => trivial, fun _ => served_call h (callNext_step hnext)⟩
  | drop =>
      obtain ⟨⟨sh', d'⟩, hnext, rfl⟩ := Option.map_eq_some_iff.mp hs
      exact absurd hd ((dropNext_step hnext).locals hloc.empty).2
  | schedule c t | spawn c t | register c t =>
      obtain ⟨_, rfl⟩ := enter_some hs
      exact ⟨fun _ => trivial, fun _ => h⟩

/--
**Next to a parked worker the runtime keeps a driver exactly as long as it is handed over.**

In every run before the shutdown in which no worker takes a task from the injector while
a worker is parked and no other one serves: whenever a worker is in `thread::park`
without a token, some worker holds `driver_held` or is awake outside `task.poll()`. The
next step keeps it so if and only if it is of that kind too.
-/
theorem driver_handed_over {w : World n τ} (h : (executor n τ).ReachableVia HandsOver w)
    (hd : w.drop = .notStarted) :
    ((∃ i, Parked w i) → ∃ j, (w.threads j).pc.holds = true ∨ OnItsWay w j)
    ∧ ∀ a w', w.step a = some w' → w'.drop = .notStarted → (Served w' ↔ HandsOver w a) := by
  have hinit : Served (World.new n τ) := by
    intro hp
    obtain ⟨i, hi⟩ := hp
    exact absurd hi.1 (by simp [World.new])
  have hserved : Served w := executor_beforeDrop hinit
    (fun hr hi hok hstep hd' => (served_step hr hi hstep hd').mpr hok) h hd
  exact ⟨hserved, fun a w' hstep hd' => served_step h.reachable hserved hstep hd'⟩

/-- Worker 0 drives, worker 1 is parked, and worker 2 starts late and takes a task. -/
def lateStarter : List (Label 3 Nat) :=
  List.flatten [goes 0 24, goes 1 16, [.spawn 0 7], List.replicate 5 (.call 0), goes 2 3]

theorem driver_handed_over_lateStarter :
    ∃ w : World 3 Nat, (executor 3 Nat).ReachableVia HandsOver w ∧ Parked w 1
      ∧ (w.threads 2).pc = .poll 7 ∧ ∃ j, (w.threads j).pc.holds = true ∨ OnItsWay w j := by
  have hm : (executor 3 Nat).Meets HandsOver (World.new 3 Nat) lateStarter := by decide +kernel
  obtain ⟨w, hrun, hr⟩ := hm.run (.init rfl)
  have hend : ∀ w ∈ (executor 3 Nat).run (World.new 3 Nat) lateStarter,
      w.drop = .notStarted ∧ Parked w 1 ∧ (w.threads 2).pc = .poll 7 := by
    decide +kernel
  obtain ⟨hdrop, hp, hpoll⟩ := hend w hrun
  exact ⟨w, hr, hp, hpoll, (driver_handed_over hr hdrop).1 ⟨1, hp⟩⟩

/-- The driver is woken for a task, gives the token back and polls; its peer stays parked. -/
def driverLeaves : List (Label 2 Nat) :=
  List.flatten [goes 0 21, goes 1 14, [.spawn 0 7], List.replicate 5 (.call 0),
    [.worker 0 .wake], goes 0 2, [.worker 0 (.deadline none)], goes 0 2]

theorem driver_not_handed_over :
    ∃ w : World 2 Nat, (executor 2 Nat).Reachable w ∧ w.drop = .notStarted ∧ Parked w 1
      ∧ ¬ ∃ j, (w.threads j).pc.holds = true ∨ OnItsWay w j := by
  obtain ⟨w, hrun⟩ := Option.isSome_iff_exists.mp
    (show ((executor 2 Nat).run (World.new 2 Nat) driverLeaves).isSome = true by decide +kernel)
  have hend : ∀ w ∈ (executor 2 Nat).run (World.new 2 Nat) driverLeaves,
      w.drop = .notStarted ∧ Parked w 1 ∧ ¬ ∃ j, Serves w j := by
    decide +kernel
  obtain ⟨hdrop, hp, hno⟩ := hend w hrun
  exact ⟨w, System.Reachable.run (.init rfl) hrun, hdrop, hp, hno⟩

end Nanorun.Executor
