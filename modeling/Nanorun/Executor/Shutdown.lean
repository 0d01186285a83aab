import Nanorun.Executor.Wakeup

/-!
# Shutdown and sleeping workers

`Multi::drop` stores `shutdown`, issues one reactor wake and unparks every
worker, then joins. `idle` reads `shutdown` once, before it looks at the queues
and races for the driver token, so a worker may act on a stale answer.

The unparks are enough for `thread::park`: a token given after the store stays
until the worker's next park, and after that the worker reads `shutdown` again.
The single wake is not enough for `Reactor::poll`. If the driver consumes it and
gives the token back, a worker that read `shutdown` before the store can still
win the token and block with nothing left to wake it (`shutdown_strands_worker`).
That one branch is all that goes wrong: as long as no worker wins the token after
the shutdown wake was consumed, nobody is stranded (`shutdown_strands_nobody`).
-/

namespace Nanorun.Executor

open Function

variable {n : Nat} {τ : Type}

/-- `Multi::drop` has issued its reactor wake. -/
def DropPc.woke : DropPc → Bool
  | .notStarted | .wake => false
  | _ => true

/-- `Multi::drop` has issued its wake and all its unparks. -/
def DropPc.signalled : DropPc → Bool
  | .notStarted | .wake | .unpark _ => false
  | _ => true

/-- `Multi::drop` has unparked worker `i`. -/
def DropPc.unparked (i : Nat) : DropPc → Bool
  | .unpark k => decide (i < k)
  | d => d.signalled

/-- Blocked in `thread::park` without a token, or in `Reactor::poll(None)` without a wake. -/
def Stranded (w : World n τ) (i : Fin n) : Prop :=
  ((w.threads i).pc = .park ∧ (w.shared.workers i).thread ≠ some true)
  ∨ ((w.threads i).pc = .reactorPoll none ∧ w.shared.reactorWake = false)

/-- About to race for the driver token. -/
def WorkerPc.isCas : WorkerPc τ → Bool
  | .casDriver => true
  | _ => false

/--
No worker wins the driver token after `Multi::drop` has issued its wake and the
wake has been consumed.
-/
def Timely (w : World n τ) : Label n τ → Prop
  | .worker i _ => (w.threads i).pc.isCas = true → w.shared.driverHeld = false →
      w.drop.woke = true → w.shared.reactorWake = true
  | _ => True

instance (w : World n τ) (l : Label n τ) : Decidable (Timely w l) := by
  cases l <;> unfold Timely <;> infer_instance

/-- On the way to `thread::park` with `shutdown` already read. -/
def WorkerPc.stale : WorkerPc τ → Bool
  | .hasWork false _ | .casDriver | .park => true
  | _ => false

/-- On the way into `Reactor::poll`, or inside it. -/
def WorkerPc.driving : WorkerPc τ → Bool
  | .setParked | .hasWork true _ | .nextDeadline | .reactorPoll _ => true
  | _ => false

theorem WorkerPc.holds_of_driving {pc : WorkerPc τ} (h : pc.driving = true) :
    pc.holds = true := by
  unfold WorkerPc.driving at h
  split at h <;> first | rfl | exact absurd h (by simp)

/-! ## What each thread does to the shutdown state -/

/-- After the store, nobody starts on the way to `thread::park`. -/
theorem WorkerStep.stale_of_stale {sh sh' : Shared n τ} {i : Fin n} {pc pc' : WorkerPc τ}
    (h : WorkerStep sh i pc sh' pc') (hs : sh.shutdown = true) (hp : pc'.stale = true) :
    pc.stale = true ∧ sh'.workers = sh.workers := by
  cases h with
  | idleLook hf => rw [hs] at hf; exact absurd hf (by simp)
  | @lookOn recheck _ _ _ =>
      cases recheck with
      | false => exact ⟨rfl, rfl⟩
      | true => exact absurd hp (by simp [WorkerPc.stale])
  | @lookYes recheck _ _ => cases recheck <;> exact absurd hp (by simp [WorkerPc.stale])
  | @lookNo recheck _ _ =>
      cases recheck with
      | false => exact ⟨rfl, rfl⟩
      | true => exact absurd hp (by simp [WorkerPc.stale])
  | casLost _ => exact ⟨rfl, rfl⟩
  | missSecond _ hpc =>
      rcases hpc with rfl | ⟨_, rfl⟩ <;> exact absurd hp (by simp [WorkerPc.stale])
  | stealOne _ _ => split at hp <;> exact absurd hp (by simp [WorkerPc.stale])
  | _ => exact absurd hp (by simp [WorkerPc.stale])

/-- A worker writes the `shutdown` flag never, and no thread handle but its own. -/
theorem WorkerStep.handles {sh sh' : Shared n τ} {i : Fin n} {pc pc' : WorkerPc τ}
    (h : WorkerStep sh i pc sh' pc') :
    sh'.shutdown = sh.shutdown
      ∧ ∀ j, j ≠ i → (sh'.workers j).thread = (sh.workers j).thread := by
  refine ⟨by cases h <;> rfl, ?_⟩
  intro j hj
  cases h with
  | publish => simp [Shared.setSlot, hj]
  | takeLocal _ _ => simp [Shared.setLocal, Shared.setSlot, hj]
  | @stealOne _ _ victim _ _ _ _ _ =>
      by_cases hv : j = victim
      · subst hv; simp [Shared.setLocal, Shared.setSlot]
      · simp [Shared.setLocal, Shared.setSlot, hv]
  | stealPut => simp [Shared.setLocal, Shared.setSlot, hj]
  | unparked _ => simp [Shared.setSlot, hj]
  | _ => rfl

/-- A worker that has left `start` keeps its handle published. -/
theorem WorkerStep.published {sh sh' : Shared n τ} {i : Fin n} {pc pc' : WorkerPc τ}
    (h : WorkerStep sh i pc sh' pc') (hp : pc ≠ .start → (sh.workers i).thread ≠ none) :
    pc' ≠ .start ∧ (sh'.workers i).thread ≠ none := by
  cases h with
  | publish => exact ⟨by simp, by simp [Shared.setSlot]⟩
  | takeGlobal hpc _ => exact ⟨by simp, hp (by rcases hpc with rfl | rfl <;> simp)⟩
  | takeLocal hpc _ =>
      have := hp (by rcases hpc with rfl | rfl <;> simp)
      exact ⟨by simp, by simpa [Shared.setLocal, Shared.setSlot] using this⟩
  | missSecond _ hpc => exact ⟨by rcases hpc with rfl | ⟨_, rfl⟩ <;> simp, hp (by simp)⟩
  | stealOne hv _ =>
      refine ⟨by split <;> simp, ?_⟩
      simpa [Shared.setLocal, Shared.setSlot, Ne.symm hv] using hp (by simp)
  | stealPut => exact ⟨by simp, by simpa [Shared.setLocal, Shared.setSlot] using hp (by simp)⟩
  | unparked _ => exact ⟨by simp, by simp [Shared.setSlot]⟩
  | @lookYes recheck _ _ => exact ⟨by cases recheck <;> simp, hp (by simp)⟩
  | @lookNo recheck _ _ => exact ⟨by cases recheck <;> simp, hp (by simp)⟩
  | _ => exact ⟨by simp, hp (by simp)⟩

/-- A worker gets onto the way into the reactor only by winning the token. -/
theorem WorkerStep.driving_of {sh sh' : Shared n τ} {i : Fin n} {pc pc' : WorkerPc τ}
    (h : WorkerStep sh i pc sh' pc') (hd : pc'.driving = true) :
    sh'.reactorWake = sh.reactorWake
      ∧ (pc.driving = true ∨ (pc = .casDriver ∧ sh.driverHeld = false)) := by
  cases h with
  | casWon hf => exact ⟨rfl, Or.inr ⟨rfl, hf⟩⟩
  | setParked => exact ⟨rfl, Or.inl rfl⟩
  | nextDeadline => exact ⟨rfl, Or.inl rfl⟩
  | @lookOn recheck _ _ _ =>
      cases recheck with
      | false => exact absurd hd (by simp [WorkerPc.driving])
      | true => exact ⟨rfl, Or.inl rfl⟩
  | @lookYes recheck _ _ => cases recheck <;> exact absurd hd (by simp [WorkerPc.driving])
  | @lookNo recheck _ _ =>
      cases recheck with
      | false => exact absurd hd (by simp [WorkerPc.driving])
      | true => exact ⟨rfl, Or.inl rfl⟩
  | missSecond _ hpc =>
      rcases hpc with rfl | ⟨_, rfl⟩ <;> exact absurd hd (by simp [WorkerPc.driving])
  | stealOne _ _ => split at hd <;> exact absurd hd (by simp [WorkerPc.driving])
  | _ => exact absurd hd (by simp [WorkerPc.driving])

/-- Unparking never takes a token away, and publishes nothing. -/
theorem unpark_thread (sh : Shared n τ) (k i : Fin n) :
    ((sh.workers i).thread = some true → ((sh.unpark k).workers i).thread = some true)
    ∧ (((sh.unpark k).workers i).thread = none ↔ (sh.workers i).thread = none) := by
  by_cases hik : i = k
  · subst hik
    simp only [Shared.unpark, Shared.setSlot, update_self]
    refine ⟨fun h => by rw [h]; rfl, ?_⟩
    cases (sh.workers i).thread <;> simp
  · simp [Shared.unpark, Shared.setSlot, hik]

theorem setLocal_thread (sh : Shared n τ) (k i : Fin n) (q : List τ) :
    ((sh.setLocal k q).workers i).thread = (sh.workers i).thread := by
  by_cases hik : i = k
  · subst hik; simp [Shared.setLocal, Shared.setSlot]
  · simp [Shared.setLocal, Shared.setSlot, hik]

/-- What calls and `Multi::drop` leave alone: tokens only appear, handles do not change. -/
theorem CallStep.tokens {sh sh' : Shared n τ} {call call' : Call n τ}
    (h : CallStep sh call sh' call') :
    sh'.shutdown = sh.shutdown
      ∧ (sh.reactorWake = true → sh'.reactorWake = true)
      ∧ ∀ i, ((sh.workers i).thread = some true → (sh'.workers i).thread = some true)
        ∧ ((sh'.workers i).thread = none ↔ (sh.workers i).thread = none) := by
  cases h with
  | unpark => exact ⟨rfl, id, fun i => unpark_thread sh _ i⟩
  | wake => exact ⟨rfl, fun _ => rfl, fun _ => ⟨id, Iff.rfl⟩⟩
  | registerWake => exact ⟨rfl, fun _ => rfl, fun _ => ⟨id, Iff.rfl⟩⟩
  | _ => exact ⟨rfl, id, fun _ => ⟨id, Iff.rfl⟩⟩

theorem DropStep.tokens {sh sh' : Shared n τ} {threads : Fin n → Worker τ} {d d' : DropPc}
    (h : DropStep sh threads d sh' d') :
    (sh.shutdown = true → sh'.shutdown = true)
      ∧ (sh.reactorWake = true → sh'.reactorWake = true)
      ∧ ∀ i, ((sh.workers i).thread = some true → (sh'.workers i).thread = some true)
        ∧ ((sh'.workers i).thread = none ↔ (sh.workers i).thread = none) := by
  cases h with
  | store => exact ⟨fun _ => rfl, id, fun _ => ⟨id, Iff.rfl⟩⟩
  | wake => exact ⟨id, fun _ => rfl, fun _ => ⟨id, Iff.rfl⟩⟩
  | unpark hk => exact ⟨id, id, fun i => unpark_thread sh _ i⟩
  | clearLocal hk =>
      refine ⟨id, id, fun i => ?_⟩
      rw [setLocal_thread]
      exact ⟨id, Iff.rfl⟩
  | _ => exact ⟨id, id, fun _ => ⟨id, Iff.rfl⟩⟩

/-! ## The invariant -/

/-- What holds at every point of a shutdown. -/
structure ShutdownInv (w : World n τ) : Prop where
  /-- The store comes first. -/
  stored : w.drop ≠ .notStarted → w.shared.shutdown = true
  /-- A running worker has published its handle. -/
  published : ∀ i, (w.threads i).pc ≠ .start → (w.shared.workers i).thread ≠ none
  /-- A worker that was unparked has its token, or will read `shutdown` before it parks. -/
  unparked : ∀ i : Fin n, w.drop.unparked i = true →
    (w.shared.workers i).thread = some true ∨ (w.threads i).pc.stale = false

theorem shutdownInv_init : ShutdownInv (World.new n τ) where
  stored := fun h => absurd rfl h
  published := fun i h => absurd rfl h
  unparked := fun i h => absurd h (by simp [World.new, DropPc.unparked, DropPc.signalled])

theorem DropPc.not_notStarted {d : DropPc} {i : Nat} (h : d.unparked i = true) :
    d ≠ .notStarted := by
  intro he; rw [he] at h; exact absurd h (by simp [DropPc.unparked, DropPc.signalled])

theorem shutdownInv_worker {w : World n τ} {i : Fin n} {sh' : Shared n τ} {th' : Worker τ}
    (h : ShutdownInv w) (hs : WorkerStep w.shared i (w.threads i).pc sh' th'.pc) :
    ShutdownInv { w with shared := sh', threads := update w.threads i th' } := by
  obtain ⟨hshut, hother⟩ := hs.handles
  refine ⟨fun hd => hshut.trans (h.stored hd), ?_, ?_⟩
  · intro j hj
    by_cases hji : j = i
    · subst hji; exact (hs.published (h.published j)).2
    · dsimp only at hj ⊢
      rw [update_of_ne hji] at hj
      rw [hother j hji]
      exact h.published j hj
  · intro j hj
    dsimp only at hj ⊢
    by_cases hji : j = i
    · subst hji
      rw [update_self]
      cases hstale : th'.pc.stale with
      | false => exact Or.inr rfl
      | true =>
          -- still on the way to the park, so the token is where it was
          obtain ⟨hold, hsame⟩ := hs.stale_of_stale (h.stored (DropPc.not_notStarted hj)) hstale
          rw [hsame]
          rcases h.unparked j hj with htok | hfresh
          · exact Or.inl htok
          · rw [hold] at hfresh; exact absurd hfresh (by simp)
    · rw [update_of_ne hji, hother j hji]
      exact h.unparked j hj

theorem shutdownInv_call {w : World n τ} {c : Nat} {sh' : Shared n τ} {call' : Call n τ}
    (h : ShutdownInv w) (hs : CallStep w.shared (w.calls c) sh' call') :
    ShutdownInv { w with shared := sh', calls := update w.calls c call' } := by
  obtain ⟨hshut, _, htok⟩ := hs.tokens
  refine ⟨fun hd => hshut.trans (h.stored hd), ?_, ?_⟩
  · intro j hj hnone
    exact h.published j hj ((htok j).2.mp hnone)
  · intro j hj
    rcases h.unparked j hj with ht | hf
    · exact Or.inl ((htok j).1 ht)
    · exact Or.inr hf

/-- `Multi::drop` marks a worker as unparked only by unparking it. -/
theorem DropStep.unparked_of {sh sh' : Shared n τ} {threads : Fin n → Worker τ} {d d' : DropPc}
    {i : Fin n} (h : DropStep sh threads d sh' d') (hu : d'.unparked i = true) :
    d.unparked i = true ∨ (d = .unpark i ∧ sh' = sh.unpark i) := by
  cases h with
  | store => exact absurd hu (by simp [DropPc.unparked, DropPc.signalled])
  | wake => exact absurd hu (by simp [DropPc.unparked])
  | @unpark k hk =>
      simp only [DropPc.unparked, decide_eq_true_eq] at hu ⊢
      by_cases hik : i.val < k
      · exact Or.inl hik
      · have hval : i.val = k := by omega
        subst hval
        exact Or.inr ⟨rfl, rfl⟩
  | @unparked k hk =>
      have := i.isLt
      exact Or.inl (by simp only [DropPc.unparked, decide_eq_true_eq]; omega)
  | _ => exact Or.inl rfl

theorem shutdownInv_drop {w : World n τ} {sh' : Shared n τ} {d' : DropPc}
    (h : ShutdownInv w) (hs : DropStep w.shared w.threads w.drop sh' d') :
    ShutdownInv { w with shared := sh', drop := d' } := by
  obtain ⟨hshut, _, htok⟩ := hs.tokens
  refine ⟨?_, ?_, ?_⟩
  · intro _
    by_cases hd : w.drop = .notStarted
    · rw [hd] at hs
      cases hs
      rfl
    · exact hshut (h.stored hd)
  · intro j hj hnone
    exact h.published j hj ((htok j).2.mp hnone)
  · intro j hj
    rcases hs.unparked_of hj with hold | ⟨_, hsh⟩
    · rcases h.unparked j hold with ht | hf
      · exact Or.inl ((htok j).1 ht)
      · exact Or.inr hf
    · dsimp only
      rw [hsh]
      by_cases hstart : (w.threads j).pc = .start
      · exact Or.inr (by rw [hstart]; rfl)
      · have hpub := h.published j hstart
        refine Or.inl ?_
        simp only [Shared.unpark, Shared.setSlot, update_self]
        cases ht : (w.shared.workers j).thread with
        | none => exact absurd ht hpub
        | some _ => rfl

/-- **The shutdown invariant is preserved by every step.** -/
theorem shutdownInv_step {w w' : World n τ} {l : Label n τ} (h : ShutdownInv w)
    (hs : WorldStep w l w') : ShutdownInv w' := by
  cases hs with
  | worker hw => exact shutdownInv_worker h hw
  | enter _ _ => exact ⟨h.stored, h.published, h.unparked⟩
  | call hc => exact shutdownInv_call h hc
  | drop hd => exact shutdownInv_drop h hd

theorem shutdownInv_reachable {w : World n τ} (h : (executor n τ).Reachable w) :
    ShutdownInv w :=
  executor_invariant shutdownInv_init shutdownInv_step h

/-! ## The shutdown wake -/

/-- Once issued, the shutdown wake is pending for whoever is on the way into the reactor. -/
def WakeKept (w : World n τ) : Prop :=
  ∀ i, (w.threads i).pc.driving = true → w.drop.woke = true → w.shared.reactorWake = true

theorem wakeKept_init : WakeKept (World.new n τ) := by
  intro i _ h; exact absurd h (by simp [World.new, DropPc.woke])

theorem wakeKept_step {w w' : World n τ} {l : Label n τ} (ht : TokenInv w) (h : WakeKept w)
    (hok : Timely w l) (hs : WorldStep w l w') : WakeKept w' := by
  cases hs with
  | @worker i c sh' th' hw =>
      intro j hj hwoke
      dsimp only at hj hwoke ⊢
      by_cases hji : j = i
      · subst hji
        rw [update_self] at hj
        obtain ⟨hsame, hold | ⟨hpc, hfree⟩⟩ := hw.driving_of hj
        · rw [hsame]; exact h j hold hwoke
        · rw [hsame]; exact hok (by rw [hpc]; rfl) hfree hwoke
      · rw [update_of_ne hji] at hj
        rcases hw.frame.2 with hhold | hsame
        · exact absurd (ht.holder_unique (WorkerPc.holds_of_driving hj) hhold) hji
        · rw [hsame]; exact h j hj hwoke
  | enter _ _ => exact h
  | call hc =>
      intro j hj hwoke
      exact hc.tokens.2.1 (h j hj hwoke)
  | drop hd =>
      intro j hj hwoke
      by_cases hold : w.drop.woke = true
      · exact hd.tokens.2.1 (h j hj hold)
      · -- the step itself issues the wake
        dsimp only at hwoke ⊢
        generalize w.drop = d at hd hold
        cases hd with
        | wake => rfl
        | store => exact absurd hwoke (by simp [DropPc.woke])
        | _ => exact absurd rfl hold

/--
**Shutdown strands nobody, as long as no worker wins the token too late.**

In every run in which no worker wins the driver token after `Multi::drop`'s wake
has been issued and consumed: once `Multi::drop` has issued its wake and all its
unparks, no worker is blocked in `thread::park` without a token, nor in
`Reactor::poll(None)` without a pending wake.
-/
theorem shutdown_strands_nobody {w : World n τ} (h : (executor n τ).ReachableVia Timely w)
    (hd : w.drop.signalled = true) (i : Fin n) : ¬ Stranded w i := by
  have hsi := shutdownInv_reachable h.reachable
  have hkept : WakeKept w := (executor_via (I := fun w => TokenInv w ∧ WakeKept w)
    ⟨tokenInv_init, wakeKept_init⟩
    (fun hi hok hs => ⟨tokenInv_step hi.1 hs, wakeKept_step hi.1 hi.2 hok hs⟩) h).2
  rintro (⟨hpc, htok⟩ | ⟨hpc, hwake⟩)
  · have hun : w.drop.unparked i = true := by
      cases hdrop : w.drop with
      | unpark k => rw [hdrop] at hd; exact absurd hd (by simp [DropPc.signalled])
      | _ => rw [hdrop] at hd; exact hd
    rcases hsi.unparked i hun with ht | hf
    · exact htok ht
    · rw [hpc] at hf; exact absurd hf (by simp [WorkerPc.stale])
  · have hwoke : w.drop.woke = true := by
      cases hdrop : w.drop with
      | notStarted => rw [hdrop] at hd; exact absurd hd (by simp [DropPc.signalled])
      | wake => rw [hdrop] at hd; exact absurd hd (by simp [DropPc.signalled])
      | _ => rfl
    have := hkept i (by rw [hpc]; rfl) hwoke
    rw [hwake] at this
    exact absurd this (by simp)

/-- Worker 0 blocks in `Reactor::poll(None)`, worker 1 is parked; then the runtime is dropped. -/
def dropBesideParked : List (Label 2 Nat) :=
  goes 0 21 ++ goes 1 14 ++ List.replicate 5 .drop

theorem shutdown_strands_nobody_dropBesideParked :
    ∃ w, w = (executor 2 Nat).exec (World.new 2 Nat) dropBesideParked
      ∧ (w.threads 0).pc = .reactorPoll none ∧ (w.threads 1).pc = .park ∧ w.drop = .join 0
      ∧ ∀ i, ¬ Stranded w i :=
  ⟨_, rfl, by decide, by decide, by decide,
    shutdown_strands_nobody (.exec (.init rfl) (by decide)) (by decide)⟩

/-- Worker 0 drives the reactor, worker 1 stands before the token; then the runtime is dropped. -/
def dropBesideDriver : List (Label 2 Nat) :=
  goes 0 21 ++ goes 1 13 ++ List.replicate 5 .drop

/-- Worker 0 consumes the wake and leaves; worker 1 takes the token and enters `Reactor::poll`. -/
def lateDriver : List (Label 2 Nat) :=
  [.worker 0 .wake] ++ goes 0 2 ++ [.worker 0 (.deadline none)] ++ goes 0 1 ++ goes 1 8

theorem shutdown_strands_worker :
    ¬ ∀ w : World 2 Nat, (executor 2 Nat).Reachable w → w.drop.signalled = true →
      ∀ i, ¬ Stranded w i := by
  intro hall
  exact hall ((executor 2 Nat).exec (World.new 2 Nat) (dropBesideDriver ++ lateDriver))
    (.exec (.init rfl)) (by decide) 1 (Or.inr ⟨by decide, by decide⟩)

/-! ## One worker is never late -/

end Nanorun.Executor
