import Nanorun.Executor.DriverToken

/-!
# No global lost wakeup

The Dekker-style handshake of `idle` and `Spawner::schedule`. The scheduler
pushes and then loads `driver_parked`; the driver stores `driver_parked` and then
looks at the queues again. Whoever comes second sees the other:

* if the driver's second look at the injector finds it empty, everything in the
  injector later was pushed while `driver_parked` reads `true`, so its push is
  followed by a reactor wake, which only this driver can consume, by waking up.

`WakeInv` says this in one sentence: once a worker has passed its second look at
the injector, a non-empty injector comes with a pending wake or with a call that
is still about to issue one.
-/

namespace Nanorun.Executor

open Function

variable {n : Nat} {τ : Type}

/-- Asleep: in `thread::park` without a token, or in `Reactor::poll` without a pending wake. -/
def Asleep (w : World n τ) (i : Fin n) : Prop :=
  ((w.threads i).pc = .park ∧ (w.shared.workers i).thread ≠ some true)
  ∨ ((∃ timeout, (w.threads i).pc = .reactorPoll timeout) ∧ w.shared.reactorWake = false)

/-- Between its `push_global` and its last step. -/
def Call.pastPush : Call n τ → Bool
  | .loadParked | .wakeReactor | .fetchAdd | .unpark _ => true
  | _ => false

/-- The driver has found the injector empty after raising `driver_parked`. -/
def WorkerPc.committed : WorkerPc τ → Bool
  | .hasWork true (.peer _) | .nextDeadline | .reactorPoll _ => true
  | _ => false

theorem WorkerPc.flagged_of_committed {pc : WorkerPc τ} (h : pc.committed = true) :
    pc.flagged = true := by
  unfold WorkerPc.committed at h
  split at h <;> first | rfl | exact absurd h (by simp)

/-- A reactor wake is pending, or a call is about to issue one. -/
def Announced (w : World n τ) : Prop :=
  w.shared.reactorWake = true ∨ ∃ c, w.calls c = .loadParked ∨ w.calls c = .wakeReactor

/-- A committed driver and a non-empty injector never meet without a wake on its way. -/
def WakeInv (w : World n τ) : Prop :=
  ∀ i, (w.threads i).pc.committed = true → w.shared.injector ≠ [] → Announced w

/-- A worker commits only on an empty injector. -/
theorem WorkerStep.commit {sh sh' : Shared n τ} {i : Fin n} {pc pc' : WorkerPc τ}
    (h : WorkerStep sh i pc sh' pc') (hc : pc'.committed = true) :
    sh'.reactorWake = sh.reactorWake
      ∧ ((pc.committed = true ∧ sh'.injector = sh.injector) ∨ sh'.injector = []) := by
  cases h with
  | @lookOn recheck p p' hw =>
      refine ⟨rfl, ?_⟩
      cases p with
      | own =>
          rw [hasWork] at hw
          split at hw
          · cases hw; cases recheck <;> exact absurd hc (by simp [WorkerPc.committed])
          · exact absurd hw (by simp)
      | injector =>
          rw [hasWork] at hw
          split at hw
          · rename_i hq; exact Or.inr (List.isEmpty_iff.mp hq)
          · exact absurd hw (by simp)
      | peer k =>
          cases recheck with
          | false => exact absurd hc (by simp [WorkerPc.committed])
          | true => exact Or.inl ⟨rfl, rfl⟩
  | @lookNo recheck p hw =>
      refine ⟨rfl, ?_⟩
      cases p with
      | own => rw [hasWork] at hw; split at hw <;> exact absurd hw (by simp)
      | injector => rw [hasWork] at hw; split at hw <;> exact absurd hw (by simp)
      | peer k =>
          cases recheck with
          | false => exact absurd hc (by simp [WorkerPc.committed])
          | true => exact Or.inl ⟨rfl, rfl⟩
  | nextDeadline => exact ⟨rfl, Or.inl ⟨rfl, rfl⟩⟩
  | @lookYes recheck p hw => cases recheck <;> exact absurd hc (by simp [WorkerPc.committed])
  | missSecond _ hpc =>
      rcases hpc with rfl | ⟨_, rfl⟩ <;> exact absurd hc (by simp [WorkerPc.committed])
  | stealOne _ _ => split at hc <;> exact absurd hc (by simp [WorkerPc.committed])
  | _ => exact absurd hc (by simp [WorkerPc.committed])

/-- Worker steps only shrink the injector, and only the token holder consumes a wake. -/
theorem WorkerStep.frame {sh sh' : Shared n τ} {i : Fin n} {pc pc' : WorkerPc τ}
    (h : WorkerStep sh i pc sh' pc') :
    (sh'.injector ≠ [] → sh.injector ≠ [])
      ∧ (pc.holds = true ∨ sh'.reactorWake = sh.reactorWake) := by
  cases h with
  | takeGlobal _ hq => exact ⟨fun _ => by rw [hq]; simp, Or.inr rfl⟩
  | pollWoken _ => exact ⟨id, Or.inl rfl⟩
  | _ => exact ⟨id, Or.inr rfl⟩

theorem wakeInv_init : WakeInv (World.new n τ) := by
  intro i h; exact absurd h (by simp [World.new, WorkerPc.committed])

theorem wakeInv_worker {w : World n τ} {i : Fin n} {sh' : Shared n τ} {th' : Worker τ}
    (ht : TokenInv w) (h : WakeInv w) (hs : WorkerStep w.shared i (w.threads i).pc sh' th'.pc) :
    WakeInv { w with shared := sh', threads := update w.threads i th' } := by
  intro j hj hq
  by_cases hji : j = i
  · subst hji
    dsimp only at hj
    rw [update_self] at hj
    obtain ⟨hwake, ⟨hold, hinj⟩ | hempty⟩ := hs.commit hj
    · rcases h j hold (by rw [← hinj]; exact hq) with hp | hc
      · exact Or.inl (hwake.trans hp)
      · exact Or.inr hc
    · exact absurd hempty hq
  · dsimp only at hj
    rw [update_of_ne hji] at hj
    obtain ⟨hshrink, hwake⟩ := hs.frame
    rcases hwake with hhold | hsame
    · -- two workers cannot both be past the token
      have hjh := WorkerPc.holds_of_flagged (WorkerPc.flagged_of_committed hj)
      exact absurd (ht.holder_unique hjh hhold) hji
    · rcases h j hj (hshrink hq) with hp | hc
      · exact Or.inl (hsame.trans hp)
      · exact Or.inr hc

/-- A call that was not announcing anything leaves the other announcements in place. -/
theorem Announced.of_quiet {w : World n τ} {c : Nat} {sh' : Shared n τ} {call' : Call n τ}
    (h : Announced w) (hw : sh'.reactorWake = w.shared.reactorWake)
    (h1 : w.calls c ≠ .loadParked) (h2 : w.calls c ≠ .wakeReactor) :
    Announced { w with shared := sh', calls := update w.calls c call' } := by
  rcases h with hp | ⟨c', hc'⟩
  · exact Or.inl (hw.trans hp)
  · refine Or.inr ⟨c', ?_⟩
    have hne : c' ≠ c := by
      intro he; subst he
      rcases hc' with hl | hl
      · exact h1 hl
      · exact h2 hl
    dsimp only
    rw [update_of_ne hne]
    exact hc'

theorem wakeInv_call {w : World n τ} {c : Nat} {sh' : Shared n τ} {call' : Call n τ}
    (ht : TokenInv w) (h : WakeInv w) (hs : CallStep w.shared (w.calls c) sh' call') :
    WakeInv { w with shared := sh', calls := update w.calls c call' } := by
  intro i hi hq
  have hold : w.shared.injector ≠ [] → Announced w := h i hi
  have hparked := ht.flag i (WorkerPc.flagged_of_committed hi)
  generalize hc : w.calls c = call at hs
  cases hs with
  -- the push is not announced yet, but its own load of the flag is
  | push => exact Or.inr ⟨c, Or.inl (by dsimp only; rw [update_self])⟩
  | sawParked _ => exact Or.inr ⟨c, Or.inr (by dsimp only; rw [update_self])⟩
  -- a committed worker has raised the flag, so the call cannot have read it down
  | sawAwake hfalse => rw [hparked] at hfalse; exact absurd hfalse (by simp)
  | wake => exact Or.inl rfl
  | registerWake => exact Or.inl rfl
  | _ => exact (hold hq).of_quiet rfl (by rw [hc]; simp) (by rw [hc]; simp)

theorem wakeInv_drop {w : World n τ} {sh' : Shared n τ} {d' : DropPc}
    (h : WakeInv w) (hs : DropStep w.shared w.threads w.drop sh' d') :
    WakeInv { w with shared := sh', drop := d' } := by
  intro i hi hq
  generalize w.drop = d at hs
  cases hs with
  | wake => exact Or.inl rfl
  | clearInjector => exact absurd rfl hq
  | _ => exact h i hi hq

/-- **The handshake is preserved by every step.** -/
theorem wakeInv_step {w w' : World n τ} {l : Label n τ} (ht : TokenInv w) (h : WakeInv w)
    (hs : WorldStep w l w') : WakeInv w' := by
  cases hs with
  | worker hw => exact wakeInv_worker ht h hw
  | enter hidle _ =>
      intro i hi hq
      exact (h i hi hq).of_quiet rfl (by rw [hidle]; simp) (by rw [hidle]; simp)
  | call hc => exact wakeInv_call ht h hc
  | drop hd => exact wakeInv_drop h hd

theorem wakeInv_reachable {w : World n τ} (h : (executor n τ).Reachable w) : WakeInv w :=
  (executor_invariant (I := fun w => TokenInv w ∧ WakeInv w) ⟨tokenInv_init, wakeInv_init⟩
    (fun hi hs => ⟨tokenInv_step hi.1 hs, wakeInv_step hi.1 hi.2 hs⟩) h).2

/-- With no call on the way, a driver next to a waiting task has its wake. -/
theorem WakeInv.woken {w : World n τ} (h : WakeInv w)
    (hcalls : ∀ c, (w.calls c).pastPush = false) (hq : w.shared.injector ≠ []) {i : Fin n}
    {timeout : Option Nat} (hpc : (w.threads i).pc = .reactorPoll timeout) :
    w.shared.reactorWake = true := by
  rcases h i (by rw [hpc]; rfl) hq with hwake | ⟨c, hc⟩
  · exact hwake
  · have hpast := hcalls c
    rcases hc with hc | hc <;> rw [hc] at hpast <;> exact absurd hpast (by simp [Call.pastPush])

/-- If every worker sleeps, one of them sleeps in `Reactor::poll`. -/
theorem poller_of_all_asleep {w : World n τ} (hn : 0 < n) (ht : TokenInv w)
    (h : ∀ i, Asleep w i) :
    ∃ i timeout, (w.threads i).pc = .reactorPoll timeout ∧ w.shared.reactorWake = false := by
  obtain ⟨i, hi⟩ := ht.someUp hn
  rcases h i with ⟨hp, _⟩ | ⟨⟨timeout, ht⟩, hw⟩
  · exact absurd hp hi
  · exact ⟨i, timeout, ht, hw⟩

/--
**No global lost wakeup.**

In every reachable state: once no `schedule` or `spawn` call is past its push, a
non-empty injector leaves some worker awake; the workers are never all in
`thread::park`; and if they all sleep, exactly one does so inside
`Reactor::poll`, holding the token, with `driver_parked` raised.
-/
theorem no_lost_wakeup {w : World n τ} (hn : 0 < n) (h : (executor n τ).Reachable w) :
    ((∀ c, (w.calls c).pastPush = false) → w.shared.injector ≠ [] → ∃ i, ¬ Asleep w i)
    ∧ (¬ ∀ i, (w.threads i).pc = .park)
    ∧ ((∀ i, Asleep w i) →
        ∃ i, (∃ timeout, (w.threads i).pc = .reactorPoll timeout)
          ∧ (∀ j timeout, (w.threads j).pc = .reactorPoll timeout → j = i)
          ∧ (w.threads i).pc.holds = true
          ∧ w.shared.driverHeld = true ∧ w.shared.driverParked = true) := by
  have ht := tokenInv_reachable h
  refine ⟨?_, ?_, ?_⟩
  · intro hcalls hq
    by_contra hall
    have hasleep : ∀ i, Asleep w i := by
      intro i; by_contra hi; exact hall ⟨i, hi⟩
    obtain ⟨i, timeout, hpc, hwake⟩ := poller_of_all_asleep hn ht hasleep
    rw [(wakeInv_reachable h).woken hcalls hq hpc] at hwake
    exact absurd hwake (by simp)
  · intro hall
    obtain ⟨i, hi⟩ := ht.someUp hn
    exact hi (hall i)
  · intro hasleep
    obtain ⟨i, timeout, hpc, _⟩ := poller_of_all_asleep hn ht hasleep
    have hholds : (w.threads i).pc.holds = true := by rw [hpc]; rfl
    refine ⟨i, ⟨timeout, hpc⟩, ?_, hholds, ht.held hholds, ht.flag i (by rw [hpc]; rfl)⟩
    intro j tj hj
    exact ht.holder_unique (by rw [hj]; rfl) hholds

/-! ## A driver, a parked peer and a spawn -/

/-- The call that a step is about. -/
def Label.caller : Label n τ → Option Nat
  | .schedule c _ | .spawn c _ | .register c _ | .call c => some c
  | .worker _ _ | .drop => none

theorem step_calls {w w' : World n τ} {a : Label n τ} (h : w.step a = some w') {c : Nat}
    (hc : a.caller ≠ some c) : w'.calls c = w.calls c := by
  cases a with
  | worker i ch =>
      obtain ⟨r, _, rfl⟩ := Option.map_eq_some_iff.mp h
      rfl
  | drop =>
      obtain ⟨r, _, rfl⟩ := Option.map_eq_some_iff.mp h
      rfl
  | call d =>
      obtain ⟨r, _, rfl⟩ := Option.map_eq_some_iff.mp h
      exact update_of_ne (fun heq => hc (congrArg some heq.symm)) _ _
  | schedule d t | spawn d t | register d t =>
      obtain ⟨_, rfl⟩ := enter_some h
      exact update_of_ne (fun heq => hc (congrArg some heq.symm)) _ _

/-- A call that no step of a run is about stays as it is. -/
theorem run_calls {w w' : World n τ} {as : List (Label n τ)}
    (h : (executor n τ).run w as = some w') {c : Nat} (hc : ∀ a ∈ as, a.caller ≠ some c) :
    w'.calls c = w.calls c := by
  induction as generalizing w with
  | nil =>
      obtain rfl := Option.some.inj h
      rfl
  | cons a as ih =>
      rw [Transition.System.run] at h
      obtain ⟨m, hm, h⟩ := Option.bind_eq_some_iff.mp h
      rw [ih h fun b hb => hc b (List.mem_cons_of_mem a hb)]
      exact step_calls hm (hc a List.mem_cons_self)

/-- With one caller and its call over, no call is in progress. -/
theorem calls_idle {w : World n τ} {as : List (Label n τ)}
    (h : (executor n τ).run (World.new n τ) as = some w)
    (hone : ∀ a ∈ as, a.caller = none ∨ a.caller = some 0) (h0 : w.calls 0 = .idle) (c : Nat) :
    w.calls c = .idle := by
  cases c with
  | zero => exact h0
  | succ k =>
      refine run_calls h fun a ha heq => ?_
      rcases hone a ha with hno | hzero
      · rw [hno] at heq
        exact absurd heq (by simp)
      · rw [hzero] at heq
        exact absurd heq (by simp)

/-- Worker `i` takes `k` steps of its own. -/
def goes (i : Fin n) (k : Nat) : List (Label n τ) := List.replicate k (.worker i .go)

/-- Two workers find nothing: worker 0 drives the reactor, worker 1 parks; then a task is spawned. -/
def spawnBesideDriver : List (Label 2 Nat) :=
  goes 0 21 ++ goes 1 14 ++ [.spawn 0 7] ++ List.replicate 5 (.call 0)

theorem no_lost_wakeup_two :
    ((executor 2 Nat).run (World.new 2 Nat) spawnBesideDriver).isSome = true
      ∧ ∃ w, w = (executor 2 Nat).exec (World.new 2 Nat) spawnBesideDriver
        ∧ w.shared.injector = [7] ∧ (w.threads 1).pc = .park ∧ ∃ i, ¬ Asleep w i := by
  refine ⟨by decide, _, rfl, rfl, rfl, ?_⟩
  refine (no_lost_wakeup (by decide) (.exec (.init rfl))).1 ?_ (by decide)
  intro c
  cases c with
  | zero => rfl
  | succ k => rfl

end Nanorun.Executor
