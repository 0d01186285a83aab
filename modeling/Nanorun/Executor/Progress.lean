import Nanorun.Executor.Handover
import Nanorun.Lib.Buckets
import Nanorun.Lib.Measure

/-!
# Every queued task is polled

What the runtime does by itself, with no new call, no I/O event, no timer and no
spurious return, comes to an end: a worker that finds the injector empty goes to
sleep, and one that finds it non-empty takes a task. `toRest` and `toWork` count
the steps to either. They disagree about where a worker is heading, so the count
starts afresh when the last task is taken or the first one pushed; the queued tasks
and the calls under way pay for that.

Where nothing more can happen all workers sleep, and by the handshake they do not
sleep beside a task. So every task is taken, in whatever order the threads move.
-/

namespace Nanorun.Executor

open Function Transition

variable {n : Nat} {τ : Type}

/-- A step that nothing from outside causes. -/
def Internal : World n τ → Label n τ → Prop
  | _, .worker _ c => c = .go ∨ c = .wake ∨ ∃ d, c = .deadline d
  | _, .call _ => True
  | _, _ => False

/-! ## The measure -/

/-- The steps a call has left. -/
def Call.rank : Call n τ → Nat
  | .idle => 0
  | .unpark _ | .registerWake => 1
  | .fetchAdd | .register _ => 2
  | .wakeReactor => 3
  | .loadParked => 4
  | .push _ => 5
  | .scheduleCheck _ => 6

/-- The steps to sleep, with all queues empty. -/
def WorkerPc.toRest (n : Nat) : WorkerPc τ → Nat
  | .exited | .park | .reactorPoll _ | .stealExtend _ _ => 0
  | .nextDeadline => 1
  | .hasWork true (.peer k) => 2 + (n - k)
  | .hasWork true .injector => n + 3
  | .hasWork true .own => n + 4
  | .setParked => n + 5
  | .casDriver => n + 6
  | .hasWork false (.peer k) => n + 7 + (n - k)
  | .hasWork false .injector => 2 * n + 8
  | .hasWork false .own => 2 * n + 9
  | .idleShutdown => 2 * n + 10
  | .steal _ k => 2 * n + 11 + (n - k)
  | .popSecond => 3 * n + 12
  | .popFirst => 3 * n + 13
  | .loopTop => 3 * n + 14
  | .start | .advance | .releaseEarly | .poll _ => 3 * n + 15
  | .releaseDriver | .unsetParked => 3 * n + 16
  | .clearParked => 3 * n + 17

/-- The steps to a task or to sleep, with a task in the injector. A worker that has missed the
injector in its `late` first look goes on to look everywhere else. -/
def WorkerPc.toWork (n : Nat) (late : Bool) : WorkerPc τ → Nat
  | .exited | .park | .reactorPoll _ | .stealExtend _ _ => 0
  | .nextDeadline => 1
  | .hasWork true (.peer k) => 2 + (n - k)
  | .popSecond => if late then n + 8 else 1
  | .popFirst => 2
  | .loopTop => 3
  | .start | .advance | .releaseEarly | .poll _ | .hasWork false .injector => 4
  | .releaseDriver | .unsetParked | .hasWork false .own => 5
  | .clearParked | .hasWork true .injector | .idleShutdown => 6
  | .hasWork true .own => 7
  | .steal _ k => 7 + (n - k)
  | .setParked => 8
  | .casDriver => 9
  | .hasWork false (.peer k) => 10 + (n - k)

/-- With a `busy` injector, or an empty one. -/
def Worker.rank (n : Nat) (busy : Bool) (th : Worker τ) : Nat :=
  if busy then th.pc.toWork n (decide (th.tick % pollBudget = 0)) else th.pc.toRest n

/-- The unpark token that the slot's thread has yet to consume. -/
def WorkerSlot.token (slot : WorkerSlot τ) : Nat := (decide (slot.thread = some true)).toNat

/-- The unpark tokens and the reactor wake that are still to be consumed. -/
def Shared.tokens (sh : Shared n τ) : Nat :=
  ∑ i, (sh.workers i).token + sh.reactorWake.toNat

def World.ranks (w : World n τ) : Nat :=
  ∑ i, (w.threads i).rank n !w.shared.injector.isEmpty

/-- The steps of the first `B` calls. -/
def World.callRanks (w : World n τ) (B : Nat) : Nat := ∑ c ∈ Finset.range B, (w.calls c).rank

theorem Worker.rank_le (busy : Bool) (th : Worker τ) : th.rank n busy ≤ 3 * n + 17 := by
  unfold Worker.rank
  split
  · unfold WorkerPc.toWork
    split <;> first | omega | (split <;> omega)
  · unfold WorkerPc.toRest
    split <;> omega

theorem World.ranks_le (w : World n τ) : w.ranks ≤ n * (3 * n + 17) := by
  have h := Buckets.sum_le_mul fun i =>
    Worker.rank_le (n := n) (!w.shared.injector.isEmpty) (w.threads i)
  rwa [Fintype.card_fin] at h

theorem Shared.tokens_le (sh : Shared n τ) : sh.tokens ≤ n + 1 := by
  have h := Buckets.sum_le_mul (b := fun i => (sh.workers i).token) fun i => Bool.toNat_le _
  rw [Fintype.card_fin, Nat.mul_one] at h
  have hw := Bool.toNat_le sh.reactorWake
  unfold Shared.tokens
  omega

/-- `thread.set` publishes a handle without a token. -/
theorem tokens_publish (sh : Shared n τ) (i : Fin n) :
    (sh.setSlot i { sh.workers i with thread := some false }).tokens ≤ sh.tokens := by
  have hslot : WorkerSlot.token { sh.workers i with thread := some false }
      ≤ WorkerSlot.token (sh.workers i) := by simp [WorkerSlot.token]
  exact Nat.add_le_add_right (Buckets.sum_update_le hslot) _

theorem tokens_consume (sh : Shared n τ) {i : Fin n} (h : (sh.workers i).thread = some true) :
    (sh.setSlot i { sh.workers i with thread := some false }).tokens < sh.tokens := by
  have hslot : WorkerSlot.token { sh.workers i with thread := some false }
      < WorkerSlot.token (sh.workers i) := by simp [WorkerSlot.token, h]
  exact Nat.add_lt_add_right (Buckets.sum_update_lt hslot) _

/-! ## What a worker step costs -/

/-- A step takes a task, or consumes a token, or brings the worker nearer to either or to sleep. -/
def Spends (sh : Shared n τ) (th : Worker τ) (sh' : Shared n τ) (th' : Worker τ) : Prop :=
  (∃ t, sh.injector = t :: sh'.injector)
  ∨ sh'.injector = sh.injector ∧ (sh'.tokens < sh.tokens
    ∨ sh'.tokens ≤ sh.tokens
      ∧ th'.rank n (!sh.injector.isEmpty) < th.rank n (!sh.injector.isEmpty))

/-- A step that leaves the queues and the tokens alone. -/
theorem Spends.stay {sh : Shared n τ} {th th' : Worker τ}
    (h : th'.rank n (!sh.injector.isEmpty) < th.rank n (!sh.injector.isEmpty)) :
    Spends sh th sh th' := .inr ⟨rfl, .inr ⟨Nat.le_refl _, h⟩⟩

/-- Both looks of the loop, with the own queue empty. -/
theorem took_spends {sh sh' : Shared n τ} {i : Fin n} {th th' other : Worker τ} {b : Prop}
    [Decidable b] (hq : (sh.workers i).localQueue = [])
    (h : took sh th (if b then popGlobal sh else popLocal sh i) other = (sh', th'))
    (hmiss : (b → sh.injector = []) →
      other.rank n (!sh.injector.isEmpty) < th.rank n (!sh.injector.isEmpty)) :
    Spends sh th sh' th' := by
  by_cases hb : b
  · rw [if_pos hb] at h
    cases hinj : sh.injector with
    | nil =>
        simp only [popGlobal, hinj, took] at h
        obtain ⟨rfl, rfl⟩ := Prod.mk.inj h
        exact .stay (hmiss fun _ => hinj)
    | cons t rest =>
        simp only [popGlobal, hinj, took] at h
        obtain ⟨rfl, rfl⟩ := Prod.mk.inj h
        exact .inl ⟨t, hinj⟩
  · rw [if_neg hb, popLocal_of_empty hq] at h
    obtain ⟨rfl, rfl⟩ := Prod.mk.inj h
    exact .stay (hmiss fun hb' => absurd hb' hb)

/-- A probe finds work in the injector or nowhere. -/
theorem hasWork_empty {sh : Shared n τ} (hq : ∀ j, (sh.workers j).localQueue = []) (i : Fin n)
    (p : Probe) :
    hasWork sh i p = match p with
      | .own => .next .injector
      | .injector => if sh.injector.isEmpty then .next (.peer 0) else .yes
      | .peer k => if k < n then .next (.peer (k + 1)) else .no := by
  cases p with
  | own => simp [hasWork, hq]
  | injector => rfl
  | peer k =>
      by_cases hk : k < n
      · simp [hasWork, hk, hq]
      · simp [hasWork, hk]

/-- The outcomes of a look, with the local queues empty. -/
theorem look_spends {sh sh' : Shared n τ} (hq : ∀ j, (sh.workers j).localQueue = []) {i : Fin n}
    {th th' : Worker τ} {recheck : Bool} {p : Probe} (hpc : th.pc = .hasWork recheck p)
    (hs : (match hasWork sh i p with
      | .yes => some (sh, th.goto (if recheck then .unsetParked else .loopTop))
      | .no => some (sh, th.goto (if recheck then .nextDeadline else .casDriver))
      | .next p' => some (sh, th.goto (.hasWork recheck p'))) = some (sh', th')) :
    Spends sh th sh' th' := by
  rw [hasWork_empty hq] at hs
  cases p with
  | own =>
      cases hs
      refine .stay ?_
      cases hb : sh.injector.isEmpty <;> cases recheck <;>
        simp [Worker.rank, hpc, Worker.goto, WorkerPc.toWork, WorkerPc.toRest]
  | injector =>
      cases hb : sh.injector.isEmpty <;> simp only [hb, Bool.false_eq_true, if_true, if_false] at hs <;>
        cases hs <;> refine .stay ?_ <;> cases recheck <;>
        simp [Worker.rank, hpc, hb, Worker.goto, WorkerPc.toWork, WorkerPc.toRest] <;> omega
  | peer k =>
      by_cases hk : k < n
      · simp only [hk, if_true] at hs
        cases hs
        refine .stay ?_
        cases hb : sh.injector.isEmpty <;> cases recheck <;>
          simp [Worker.rank, hpc, Worker.goto, WorkerPc.toWork, WorkerPc.toRest] <;> omega
      · simp only [hk, if_false] at hs
        cases hs
        refine .stay ?_
        cases hb : sh.injector.isEmpty <;> cases recheck <;>
          simp [Worker.rank, hpc, Worker.goto, WorkerPc.toWork, WorkerPc.toRest] <;> omega

/-- **Every step a worker takes by itself spends something.** -/
theorem worker_spends {w : World n τ} (h : LocalInv w) (hsd : w.shared.shutdown = false)
    {i : Fin n} {c : Choice} {sh' : Shared n τ} {th' : Worker τ}
    (hc : c = .go ∨ c = .wake ∨ ∃ d, c = .deadline d)
    (hs : workerNext w.shared i (w.threads i) c = some (sh', th')) :
    Spends w.shared (w.threads i) sh' th' := by
  unfold workerNext at hs
  split at hs
  case h_1 hpc =>
    cases hs
    refine .inr ⟨rfl, .inr ⟨tokens_publish _ _, ?_⟩⟩
    cases hb : w.shared.injector.isEmpty <;>
      simp [Worker.rank, hpc, Worker.goto, WorkerPc.toWork, WorkerPc.toRest]
  case h_2 hpc =>
    cases hs
    refine .stay ?_
    cases hb : w.shared.injector.isEmpty <;>
      simp [Worker.rank, hpc, hsd, Worker.goto, WorkerPc.toWork, WorkerPc.toRest]
  case h_3 hpc =>
    refine took_spends (h.empty i) (Option.some.inj hs) fun hmiss => ?_
    cases hinj : w.shared.injector with
    | nil => simp [Worker.rank, hpc, Worker.goto, WorkerPc.toRest]
    | cons t rest =>
        -- the first look was at the own queue
        have hlate : ¬ (w.threads i).tick % pollBudget = 0 := fun ht => by
          rw [hmiss ht] at hinj
          exact absurd hinj (by simp)
        simp [Worker.rank, hpc, hlate, Worker.goto, WorkerPc.toWork]
  case h_4 hpc =>
    have hflip : (if (w.threads i).tick % pollBudget = 0 then popLocal w.shared i else popGlobal w.shared)
        = if ¬ (w.threads i).tick % pollBudget = 0 then popGlobal w.shared else popLocal w.shared i := by
      split <;> rfl
    rw [hflip] at hs
    refine took_spends (h.empty i) (Option.some.inj hs) fun hmiss => ?_
    unfold Worker.beginSteal
    cases hinj : w.shared.injector with
    | nil =>
        split
        · simp [Worker.rank, hpc, Worker.goto, WorkerPc.toRest]
          omega
        · simp [Worker.rank, hpc, WorkerPc.toRest]
          omega
    | cons t rest =>
        -- the second look was at the own queue
        have hlate : (w.threads i).tick % pollBudget = 0 := by
          by_contra ht
          rw [hmiss ht] at hinj
          exact absurd hinj (by simp)
        split
        · simp [Worker.rank, hpc, hlate, Worker.goto, WorkerPc.toWork]
        · simp [Worker.rank, hpc, hlate, WorkerPc.toWork]
          omega
  case h_5 start k hpc =>
    rw [h.steal] at hs
    cases hs
    refine .stay ?_
    cases hb : w.shared.injector.isEmpty <;> by_cases hk : k < n <;>
      simp [Worker.rank, hpc, hk, Worker.goto, WorkerPc.toWork, WorkerPc.toRest] <;> omega
  case h_6 first stolen hpc => exact absurd hpc (h.noExtend i first stolen)
  case h_7 hpc =>
    cases hs
    refine .stay ?_
    cases hb : w.shared.injector.isEmpty <;>
      simp [Worker.rank, hpc, WorkerPc.toWork, WorkerPc.toRest]
  case h_8 hpc =>
    cases hs
    refine .stay ?_
    cases hb : w.shared.injector.isEmpty <;>
      simp [Worker.rank, hpc, hsd, Worker.goto, WorkerPc.toWork, WorkerPc.toRest]
  case h_9 recheck p hpc => exact look_spends h.empty hpc hs
  case h_10 hpc =>
    cases hd : w.shared.driverHeld <;> simp only [hd, Bool.false_eq_true, if_true, if_false] at hs <;>
      cases hs <;> refine .stay ?_ <;> cases hb : w.shared.injector.isEmpty <;>
      simp [Worker.rank, hpc, Worker.goto, WorkerPc.toWork, WorkerPc.toRest]
  case h_15 hpc =>
    cases hw : w.shared.reactorWake with
    | false => rw [hw] at hs; exact absurd hs (by simp)
    | true =>
        rw [hw] at hs
        cases hs
        refine .inr ⟨rfl, .inl ?_⟩
        simp [Shared.tokens, hw]
  case h_21 hpc =>
    by_cases ht : (w.shared.workers i).thread = some true
    · rw [if_pos ht] at hs
      cases hs
      exact .inr ⟨rfl, .inl (tokens_consume _ ht)⟩
    · rw [if_neg ht] at hs
      exact absurd hs (by simp)
  case h_16 | h_17 | h_22 => rcases hc with hc | hc | ⟨d, hc⟩ <;> exact absurd hc (by simp)
  case h_23 => exact absurd hs (by simp)
  all_goals
    rename_i hpc
    cases hs
    refine .stay ?_
    cases hb : w.shared.injector.isEmpty <;>
      simp [Worker.rank, hpc, Worker.goto, WorkerPc.toWork, WorkerPc.toRest]

/-- A worker leaves `run_worker` on the shutdown flag only. -/
theorem WorkerStep.not_exited {sh sh' : Shared n τ} {i : Fin n} {pc pc' : WorkerPc τ}
    (h : WorkerStep sh i pc sh' pc') (hsd : sh.shutdown = false) : pc' ≠ .exited := by
  rcases h.lands hsd with ⟨t, hpoll⟩ | hpark | ⟨_, haway⟩
  · simp [hpoll]
  · simp [hpark]
  · intro he
    rw [he] at haway
    exact absurd haway (by simp [WorkerPc.away])

/-- A call gets nearer to its end, also where it pushes. -/
theorem callNext_rank {sh sh' : Shared n τ} {call call' : Call n τ}
    (hs : callNext sh call = some (sh', call')) :
    2 * call'.rank + sh'.injector.length < 2 * call.rank + sh.injector.length := by
  cases callNext_step hs with
  | push => simp [Call.rank, pushGlobal]; omega
  | _ => simp [Call.rank, Shared.unpark, Shared.setSlot]

/-! ## The run -/

/-- Calls and tasks first; then the tokens; then where the workers stand. -/
def World.measure (B : Nat) (w : World n τ) : Nat :=
  (2 * w.callRanks B + w.shared.injector.length)
      * ((n + 1) * (n * (3 * n + 17) + 1) + n * (3 * n + 17) + 1)
    + (w.shared.tokens * (n * (3 * n + 17) + 1) + w.ranks)

/-- Before the shutdown, with only the first `B` calls under way. -/
structure Bounded (B : Nat) (w : World n τ) : Prop where
  before : w.drop = .notStarted
  locals : LocalInv w
  running : w.shared.shutdown = false
  notExited : ∀ i, (w.threads i).pc ≠ .exited
  calls : ∀ c, B ≤ c → w.calls c = .idle

theorem measure_lt {B : Nat} {w w' : World n τ}
    (h : 2 * w'.callRanks B + w'.shared.injector.length
        < 2 * w.callRanks B + w.shared.injector.length
      ∨ 2 * w'.callRanks B + w'.shared.injector.length
          ≤ 2 * w.callRanks B + w.shared.injector.length
        ∧ (w'.shared.tokens < w.shared.tokens
          ∨ w'.shared.tokens ≤ w.shared.tokens ∧ w'.ranks < w.ranks)) :
    w'.measure B < w.measure B := by
  have hinner : w'.shared.tokens * (n * (3 * n + 17) + 1) + w'.ranks
      ≤ (n + 1) * (n * (3 * n + 17) + 1) + n * (3 * n + 17) :=
    Nat.add_le_add (Nat.mul_le_mul_right _ w'.shared.tokens_le) w'.ranks_le
  refine lex_lt hinner (h.imp_right fun hr => ⟨hr.1, ?_⟩)
  exact lex_lt w'.ranks_le hr.2

/-- **Every step of the runtime itself lowers the measure.** -/
theorem internal_lowers (B : Nat) :
    (executor n τ).Lowers Internal (Bounded B) (World.measure B) := by
  intro w a w' hI hok hs
  have hloc := localInv_step hI.locals (step_worldStep hs)
  cases a with
  | worker i c =>
      obtain ⟨⟨sh', th'⟩, hnext, rfl⟩ := Option.map_eq_some_iff.mp hs
      have hstep := workerNext_step hnext
      refine ⟨⟨hI.before, hloc, hstep.handles.1.trans hI.running, ?_, hI.calls⟩, measure_lt ?_⟩
      · intro j
        by_cases hj : j = i
        · subst hj
          simp only [update_self]
          exact hstep.not_exited hI.running
        · simp only [update_of_ne hj]
          exact hI.notExited j
      · rcases worker_spends hI.locals hI.running hok hnext with
          ⟨t, hinj⟩ | ⟨hinj, hspent⟩
        · refine .inl ?_
          simp only [World.callRanks, hinj, List.length_cons]
          omega
        · refine .inr ⟨?_, hspent.imp_right fun hr => ⟨hr.1, ?_⟩⟩
          · simp only [World.callRanks, hinj]
            exact Nat.le_refl _
          · simp only [World.ranks, hinj]
            exact Buckets.sum_update_lt hr.2
  | call c =>
      obtain ⟨⟨sh', call'⟩, hnext, rfl⟩ := Option.map_eq_some_iff.mp hs
      have hc : c < B := by
        by_contra hc
        rw [hI.calls c (by omega)] at hnext
        exact absurd hnext (by simp [callNext])
      have hrunning := (callNext_step hnext).tokens.1.trans hI.running
      refine ⟨⟨hI.before, hloc, hrunning, hI.notExited, ?_⟩, measure_lt (.inl ?_)⟩
      · intro d hd
        have hne : d ≠ c := by omega
        simp only [update_of_ne hne]
        exact hI.calls d hd
      · have hrank := callNext_rank hnext
        have hsum : World.callRanks { w with shared := sh', calls := update w.calls c call' } B
            + (w.calls c).rank = w.callRanks B + call'.rank :=
          Buckets.sum_comp_update_mem Call.rank w.calls (Finset.mem_range.mpr hc) call'
        dsimp only
        omega
  | _ => exact absurd hok (by simp [Internal])

theorem bounded_reachable {w : World n τ} (h : (executor n τ).Reachable w)
    (hd : w.drop = .notStarted) : ∃ B, Bounded B w := by
  have hexited : (∀ i, (w.threads i).pc ≠ .exited) := by
    refine executor_beforeDrop (I := fun w => ∀ i, (w.threads i).pc ≠ .exited)
      (fun _ => by simp [World.new]) ?_ h hd
    intro w a w' hr hi _ hs hd' j
    have hbefore := (localInv_reachable hr).queue hs hd'
    cases step_worldStep hs with
    | @worker i c sh' th' hw =>
        by_cases hj : j = i
        · subst hj
          simp only [update_self]
          exact hw.not_exited (notYet_reachable hr hbefore.1)
        · simp only [update_of_ne hj]
          exact hi j
    | _ => exact hi j
  have hcalls : ∃ B, ∀ c, B ≤ c → w.calls c = .idle := by
    refine executor_invariant (I := fun w => ∃ B, ∀ c, B ≤ c → w.calls c = .idle)
      ⟨0, fun _ _ => rfl⟩ ?_ h
    intro w l w' hI hs
    obtain ⟨B, hB⟩ := hI
    -- the call that is entered, or that moves
    have hupd : ∀ c call, ∃ B', ∀ d, B' ≤ d → update w.calls c call d = .idle := by
      intro c call
      refine ⟨max B (c + 1), fun d hd => ?_⟩
      have hne : d ≠ c := by omega
      rw [update_of_ne hne]
      exact hB d (by omega)
    cases hs with
    | worker _ | drop _ => exact ⟨B, hB⟩
    | enter _ _ | call _ => exact hupd _ _
  obtain ⟨B, hB⟩ := hcalls
  exact ⟨B, hd, localInv_reachable h, notYet_reachable h hd, hexited, hB⟩

/-! ## Where it ends -/

/-- A worker that cannot go on by itself has returned or is asleep. -/
theorem blocked_worker {w : World n τ} {i : Fin n}
    (h : ∀ c, (c = .go ∨ c = .wake ∨ ∃ d, c = .deadline d) →
      workerNext w.shared i (w.threads i) c = none) :
    (w.threads i).pc = .exited ∨ Asleep w i := by
  have hgo := h .go (.inl rfl)
  cases hpc : (w.threads i).pc with
  | exited => exact .inl rfl
  | reactorPoll timeout =>
      refine .inr (.inr ⟨⟨timeout, hpc⟩, ?_⟩)
      have hwake := h .wake (.inr (.inl rfl))
      simp only [workerNext, hpc] at hwake
      by_contra hne
      rw [if_pos (by simpa using hne)] at hwake
      exact absurd hwake (by simp)
  | park =>
      refine .inr (.inl ⟨hpc, fun ht => ?_⟩)
      simp only [workerNext, hpc, ht] at hgo
      exact absurd hgo (by simp)
  | advance =>
      have hd := h (.deadline none) (.inr (.inr ⟨none, rfl⟩))
      simp only [workerNext, hpc] at hd
      exact absurd hd (by simp)
  | hasWork recheck p =>
      simp only [workerNext, hpc] at hgo
      split at hgo <;> exact absurd hgo (by simp)
  | casDriver =>
      simp only [workerNext, hpc] at hgo
      split at hgo <;> exact absurd hgo (by simp)
  | _ =>
      simp only [workerNext, hpc] at hgo
      exact absurd hgo (by simp)

/-- Where no internal step is enabled, every call is over and every worker sleeps. -/
theorem Bounded.asleep {B : Nat} {w : World n τ} (hI : Bounded B w)
    (hstuck : (executor n τ).Stuck Internal w) :
    (∀ c, w.calls c = .idle) ∧ ∀ i, Asleep w i := by
  constructor
  · intro c
    have hnone : callNext w.shared (w.calls c) = none :=
      Option.map_eq_none_iff.mp (hstuck (.call c) trivial)
    cases hc : w.calls c with
    | idle => rfl
    | fetchAdd =>
        rw [hc, callNext] at hnone
        split at hnone <;> exact absurd hnone (by simp)
    | _ => rw [hc] at hnone; exact absurd hnone (by simp [callNext])
  · intro i
    have hblocked := blocked_worker (w := w) (i := i) fun c hc =>
      Option.map_eq_none_iff.mp (hstuck (.worker i c) hc)
    exact hblocked.resolve_left (hI.notExited i)

/-- Where no internal step is enabled any more, everything that was queued has been taken. -/
theorem stuck_polls {w w' : World n τ} {as : List (Label n τ)} (hn : 0 < n)
    (h : (executor n τ).Reachable w) (hd : w.drop = .notStarted)
    (hm : (executor n τ).Meets Internal w as) (hr : (executor n τ).run w as = some w')
    (hstuck : (executor n τ).Stuck Internal w') :
    taken w as = w.shared.injector ++ pushed w as ∧ w'.shared.injector = []
      ∧ (∀ c, w'.calls c = .idle) ∧ ∀ i, Asleep w' i := by
  obtain ⟨B, hB⟩ := bounded_reachable h hd
  have hB' := ((internal_lowers B).length_le hB hm hr).1
  obtain ⟨hcalls, hasleep⟩ := hB'.asleep hstuck
  have hempty : w'.shared.injector = [] := by
    by_contra hne
    have hw := h.run hr
    obtain ⟨i, timeout, hpc, hwake⟩ := poller_of_all_asleep hn (tokenInv_reachable hw) hasleep
    have hidle : ∀ c, (w'.calls c).pastPush = false := fun c => by
      rw [hcalls c]
      rfl
    rw [(wakeInv_reachable hw).woken hidle hne hpc] at hwake
    exact absurd hwake (by simp)
  have hhist := ((localInv_reachable h).history hr hB'.before).2
  rw [hempty, List.append_nil] at hhist
  exact ⟨hhist, hempty, hcalls, hasleep⟩

/--
**Every queued task is polled.**

From every state before the shutdown, with at least one worker: the steps that the workers
and the calls under way can take by themselves are bounded in number, whatever their order.
Some such run goes on until none is left, and after every one that does, the workers have
taken for polling every task that was in the injector or was pushed on the way, in the
order of the queue. The injector is empty, every call has returned and every worker is
asleep.
-/
theorem every_task_polled {w : World n τ} (hn : 0 < n) (h : (executor n τ).Reachable w)
    (hd : w.drop = .notStarted) :
    (∃ N, ∀ as w', (executor n τ).Meets Internal w as → (executor n τ).run w as = some w' →
      as.length ≤ N)
    ∧ (∃ as w', (executor n τ).Meets Internal w as ∧ (executor n τ).run w as = some w'
      ∧ (executor n τ).Stuck Internal w')
    ∧ ∀ as w', (executor n τ).Meets Internal w as → (executor n τ).run w as = some w' →
      (executor n τ).Stuck Internal w' →
      taken w as = w.shared.injector ++ pushed w as ∧ w'.shared.injector = []
        ∧ (∀ c, w'.calls c = .idle) ∧ ∀ i, Asleep w' i := by
  obtain ⟨B, hB⟩ := bounded_reachable h hd
  have hlow := internal_lowers (n := n) (τ := τ) B
  refine ⟨⟨w.measure B, fun as w' hm hr => ?_⟩, ?_, ?_⟩
  · have hle := (hlow.length_le hB hm hr).2
    omega
  · obtain ⟨as, w', hm, hr, _, hstuck⟩ := hlow.exists_stuck hB
    exact ⟨as, w', hm, hr, hstuck⟩
  · intro as w' hm hr hstuck
    exact stuck_polls hn h hd hm hr hstuck

theorem every_task_polled_spawnBesideDriver :
    ∃ w, (executor 2 Nat).run (World.new 2 Nat) spawnBesideDriver = some w
      ∧ w.shared.injector = [7]
      ∧ ∃ as w', (executor 2 Nat).Meets Internal w as ∧ (executor 2 Nat).run w as = some w'
        ∧ 7 ∈ taken w as ∧ ∀ i, Asleep w' i := by
  obtain ⟨w, hw⟩ := Option.isSome_iff_exists.mp
    (show ((executor 2 Nat).run (World.new 2 Nat) spawnBesideDriver).isSome = true by decide +kernel)
  have hend : ∀ w ∈ (executor 2 Nat).run (World.new 2 Nat) spawnBesideDriver,
      w.drop = .notStarted ∧ w.shared.injector = [7] := by
    decide +kernel
  obtain ⟨hd, hinj⟩ := hend w hw
  obtain ⟨_, ⟨as, w', hm, hr, hstuck⟩, hall⟩ :=
    every_task_polled (by decide) (System.Reachable.run (.init rfl) hw) hd
  obtain ⟨htaken, _, _, hasleep⟩ := hall as w' hm hr hstuck
  refine ⟨w, hw, hinj, as, w', hm, hr, ?_, hasleep⟩
  rw [htaken, hinj]
  simp

end Nanorun.Executor
