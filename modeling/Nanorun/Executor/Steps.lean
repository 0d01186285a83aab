import Nanorun.Executor.Model

/-!
# What one executor step can do

`WorkerStep`, `CallStep` and `DropStep` list the outcomes of `workerNext`,
`callNext` and `dropNext` one by one, each with the guard under which it happens
and the shared state it leaves. Every invariant of the executor is proved by
cases on them, never by unfolding the step functions again.
-/

namespace Nanorun.Executor

open Function

variable {n : Nat} {τ : Type}

/-- The outcomes of `workerNext` for worker `i`, from one program counter to the next. -/
inductive WorkerStep (sh : Shared n τ) (i : Fin n) :
    WorkerPc τ → Shared n τ → WorkerPc τ → Prop where
  | publish : WorkerStep sh i .start
      (sh.setSlot i { sh.workers i with thread := some false }) .loopTop
  | exit : sh.shutdown = true → WorkerStep sh i .loopTop sh .exited
  | enter : sh.shutdown = false → WorkerStep sh i .loopTop sh .popFirst
  | takeGlobal {pc : WorkerPc τ} {t : τ} {rest : List τ} :
      pc = .popFirst ∨ pc = .popSecond → sh.injector = t :: rest →
      WorkerStep sh i pc { sh with injector := rest } (.poll t)
  | takeLocal {pc : WorkerPc τ} {t : τ} {q : List τ} :
      pc = .popFirst ∨ pc = .popSecond → (sh.workers i).localQueue = q ++ [t] →
      WorkerStep sh i pc (sh.setLocal i q) (.poll t)
  | missFirst : sh.injector = [] ∨ (sh.workers i).localQueue = [] →
      WorkerStep sh i .popFirst sh .popSecond
  | missSecond {pc' : WorkerPc τ} : sh.injector = [] ∨ (sh.workers i).localQueue = [] →
      pc' = .idleShutdown ∨ (∃ start, pc' = .steal start 0) →
      WorkerStep sh i .popSecond sh pc'
  | stealSkip {start k : Nat} : WorkerStep sh i (.steal start k) sh (.steal start (k + 1))
  | stealOne {start k : Nat} {victim : Fin n} {first : τ} {stolen rest : List τ} :
      victim ≠ i → stealTake (sh.workers victim).localQueue = some (first, stolen, rest) →
      WorkerStep sh i (.steal start k) (sh.setLocal victim rest)
        (if stolen.isEmpty then .poll first else .stealExtend first stolen)
  | stealNone {start k : Nat} : n ≤ k → WorkerStep sh i (.steal start k) sh .idleShutdown
  | stealPut {first : τ} {stolen : List τ} :
      WorkerStep sh i (.stealExtend first stolen)
        (sh.setLocal i ((sh.workers i).localQueue ++ stolen)) (.poll first)
  | polled {t : τ} : WorkerStep sh i (.poll t) sh .loopTop
  | idleQuit : sh.shutdown = true → WorkerStep sh i .idleShutdown sh .loopTop
  | idleLook : sh.shutdown = false → WorkerStep sh i .idleShutdown sh (.hasWork false .own)
  | lookOn {recheck : Bool} {p p' : Probe} : hasWork sh i p = .next p' →
      WorkerStep sh i (.hasWork recheck p) sh (.hasWork recheck p')
  | lookYes {recheck : Bool} {p : Probe} : hasWork sh i p = .yes →
      WorkerStep sh i (.hasWork recheck p) sh (if recheck then .unsetParked else .loopTop)
  | lookNo {recheck : Bool} {p : Probe} : hasWork sh i p = .no →
      WorkerStep sh i (.hasWork recheck p) sh (if recheck then .nextDeadline else .casDriver)
  | casLost : sh.driverHeld = true → WorkerStep sh i .casDriver sh .park
  | casWon : sh.driverHeld = false →
      WorkerStep sh i .casDriver { sh with driverHeld := true } .setParked
  | setParked : WorkerStep sh i .setParked { sh with driverParked := true } (.hasWork true .own)
  | unsetParked : WorkerStep sh i .unsetParked { sh with driverParked := false } .releaseEarly
  | releaseEarly : WorkerStep sh i .releaseEarly { sh with driverHeld := false } .loopTop
  | nextDeadline : WorkerStep sh i .nextDeadline sh (.reactorPoll sh.nextDeadline)
  | pollWoken {timeout : Option Nat} : sh.reactorWake = true →
      WorkerStep sh i (.reactorPoll timeout) { sh with reactorWake := false } .clearParked
  | pollReturned {timeout : Option Nat} :
      WorkerStep sh i (.reactorPoll timeout) sh .clearParked
  | clearParked : WorkerStep sh i .clearParked { sh with driverParked := false } .releaseDriver
  | releaseDriver : WorkerStep sh i .releaseDriver { sh with driverHeld := false } .advance
  | advance {d : Option Nat} : WorkerStep sh i .advance { sh with nextDeadline := d } .loopTop
  | unparked : (sh.workers i).thread = some true → WorkerStep sh i .park
      (sh.setSlot i { sh.workers i with thread := some false }) .loopTop
  | spurious : WorkerStep sh i .park sh .loopTop

/-- The outcomes of `callNext`. -/
inductive CallStep (sh : Shared n τ) : Call n τ → Shared n τ → Call n τ → Prop where
  | refused {t : τ} : sh.shutdown = true → CallStep sh (.scheduleCheck t) sh .idle
  | accepted {t : τ} : sh.shutdown = false → CallStep sh (.scheduleCheck t) sh (.push t)
  | push {t : τ} : CallStep sh (.push t) (pushGlobal sh t) .loadParked
  | sawParked : sh.driverParked = true → CallStep sh .loadParked sh .wakeReactor
  | sawAwake : sh.driverParked = false → CallStep sh .loadParked sh .fetchAdd
  | wake : CallStep sh .wakeReactor { sh with reactorWake := true } .fetchAdd
  | noWorker : n = 0 → CallStep sh .fetchAdd sh .idle
  | fetchAdd {i : Fin n} : i.val = sh.nextUnpark.toNat % n →
      CallStep sh .fetchAdd { sh with nextUnpark := sh.nextUnpark + 1 } (.unpark i)
  | unpark {i : Fin n} : CallStep sh (.unpark i) (sh.unpark i) .idle
  | register {d d' : Nat} :
      CallStep sh (.register d) { sh with nextDeadline := some d' } .registerWake
  | registerWake : CallStep sh .registerWake { sh with reactorWake := true } .idle

/-- The outcomes of `dropNext`. -/
inductive DropStep (sh : Shared n τ) (threads : Fin n → Worker τ) :
    DropPc → Shared n τ → DropPc → Prop where
  | store : DropStep sh threads .notStarted { sh with shutdown := true } .wake
  | wake : DropStep sh threads .wake { sh with reactorWake := true } (.unpark 0)
  | unpark {k : Nat} (h : k < n) :
      DropStep sh threads (.unpark k) (sh.unpark ⟨k, h⟩) (.unpark (k + 1))
  | unparked {k : Nat} : n ≤ k → DropStep sh threads (.unpark k) sh (.join 0)
  | join {k : Nat} (h : k < n) : (threads ⟨k, h⟩).pc = .exited →
      DropStep sh threads (.join k) sh (.join (k + 1))
  | joined {k : Nat} : n ≤ k → DropStep sh threads (.join k) sh .clearInjector
  | clearInjector : DropStep sh threads .clearInjector { sh with injector := [] } (.clearLocal 0)
  | clearLocal {k : Nat} (h : k < n) :
      DropStep sh threads (.clearLocal k) (sh.setLocal ⟨k, h⟩ []) (.clearLocal (k + 1))
  | clearedLocals {k : Nat} : n ≤ k → DropStep sh threads (.clearLocal k) sh .clearDriver
  | clearDriver : DropStep sh threads .clearDriver { sh with nextDeadline := none } .returned

/-- The calls a thread may enter. -/
inductive Entry : Call n τ → Prop where
  | schedule (t : τ) : Entry (.scheduleCheck t)
  | spawn (t : τ) : Entry (.push t)
  | register (d : Nat) : Entry (.register d)

/-- The outcomes of `World.step`, by who moves. -/
inductive WorldStep (w : World n τ) : Label n τ → World n τ → Prop where
  | worker {i : Fin n} {c : Choice} {sh' : Shared n τ} {th' : Worker τ} :
      WorkerStep w.shared i (w.threads i).pc sh' th'.pc →
      WorldStep w (.worker i c) { w with shared := sh', threads := update w.threads i th' }
  | enter {l : Label n τ} {c : Nat} {call : Call n τ} : w.calls c = .idle → Entry call →
      WorldStep w l { w with calls := update w.calls c call }
  | call {c : Nat} {sh' : Shared n τ} {call' : Call n τ} :
      CallStep w.shared (w.calls c) sh' call' →
      WorldStep w (.call c) { w with shared := sh', calls := update w.calls c call' }
  | drop {sh' : Shared n τ} {d' : DropPc} : DropStep w.shared w.threads w.drop sh' d' →
      WorldStep w .drop { w with shared := sh', drop := d' }

/-! ## The queue operations -/

theorem popGlobal_some {sh sh' : Shared n τ} {t : τ} (h : popGlobal sh = some (t, sh')) :
    ∃ rest, sh.injector = t :: rest ∧ sh' = { sh with injector := rest } := by
  unfold popGlobal at h
  split at h
  · exact absurd h (by simp)
  · rename_i t' rest hq
    injection h with h; injection h with h1 h2
    subst h1
    exact ⟨rest, hq, h2.symm⟩

theorem popGlobal_none {sh : Shared n τ} (h : popGlobal sh = none) : sh.injector = [] := by
  unfold popGlobal at h
  split at h
  · assumption
  · exact absurd h (by simp)

theorem popLocal_some {sh sh' : Shared n τ} {i : Fin n} {t : τ}
    (h : popLocal sh i = some (t, sh')) :
    ∃ q, (sh.workers i).localQueue = q ++ [t] ∧ sh' = sh.setLocal i q := by
  unfold popLocal at h
  split at h
  · exact absurd h (by simp)
  · rename_i t' hq
    injection h with h; injection h with h1 h2
    subst h1
    obtain ⟨q, hq⟩ := List.getLast?_eq_some_iff.mp hq
    exact ⟨q, hq, by rw [← h2, hq, List.dropLast_concat]⟩

theorem popLocal_none {sh : Shared n τ} {i : Fin n} (h : popLocal sh i = none) :
    (sh.workers i).localQueue = [] := by
  unfold popLocal at h
  split at h
  · rename_i hq; exact List.getLast?_eq_none_iff.mp hq
  · exact absurd h (by simp)

theorem stealTake_nil : stealTake ([] : List τ) = none := by simp [stealTake]

theorem stealTake_cons (t : τ) (q : List τ) :
    stealTake (t :: q) = some (t, q.take (q.length / 2), q.drop (q.length / 2)) := by
  have htake : (q.length + 1 + 1) / 2 = q.length / 2 + 1 := by omega
  simp [stealTake, htake]

/-! ## Inversion -/

/-- Both pops of the loop either take a task or find the queue they look at empty. -/
theorem took_step {sh sh' : Shared n τ} {i : Fin n} {th th' other : Worker τ} {b : Prop}
    [Decidable b] (hpc : th.pc = .popFirst ∨ th.pc = .popSecond)
    (h : took sh th (if b then popGlobal sh else popLocal sh i) other = (sh', th')) :
    WorkerStep sh i th.pc sh' th'.pc
      ∨ ((sh.injector = [] ∨ (sh.workers i).localQueue = []) ∧ sh' = sh ∧ th' = other) := by
  unfold took at h
  split at h
  · rename_i t sh₁ hp
    injection h with h1 h2
    subst h1; subst h2
    split at hp
    · obtain ⟨rest, hq, rfl⟩ := popGlobal_some hp
      exact Or.inl (.takeGlobal hpc hq)
    · obtain ⟨q, hq, rfl⟩ := popLocal_some hp
      exact Or.inl (.takeLocal hpc hq)
  · rename_i hp
    injection h with h1 h2
    subst h1; subst h2
    refine Or.inr ⟨?_, rfl, rfl⟩
    split at hp
    · exact Or.inl (popGlobal_none hp)
    · exact Or.inr (popLocal_none hp)

theorem stealStep_step {sh sh' : Shared n τ} {i : Fin n} {th th' : Worker τ} {start k : Nat}
    (h : stealStep sh i th start k = (sh', th')) :
    WorkerStep sh i (.steal start k) sh' th'.pc := by
  unfold stealStep at h
  split at h
  · dsimp only at h
    split at h
    · injection h with h1 h2
      subst h1; subst h2
      exact .stealSkip
    · rename_i hv
      split at h
      · injection h with h1 h2
        subst h1; subst h2
        exact .stealSkip
      · rename_i first stolen rest htake
        injection h with h1 h2
        subst h1; subst h2
        exact .stealOne hv htake
  · rename_i hk
    injection h with h1 h2
    subst h1; subst h2
    exact .stealNone (by omega)

/-- **Every worker step is one of the listed outcomes.** -/
theorem workerNext_step {sh sh' : Shared n τ} {i : Fin n} {th th' : Worker τ} {c : Choice}
    (h : workerNext sh i th c = some (sh', th')) : WorkerStep sh i th.pc sh' th'.pc := by
  unfold workerNext at h
  split at h
  case h_1 hpc => cases h; rw [hpc]; exact .publish
  case h_2 hpc =>
    cases h; rw [hpc]
    by_cases hs : sh.shutdown = true
    · rw [if_pos hs]; exact .exit hs
    · rw [if_neg hs]; exact .enter (by simpa using hs)
  case h_3 hpc =>
    rcases took_step (Or.inl hpc) (Option.some.inj h) with hstep | ⟨hq, rfl, rfl⟩
    · exact hstep
    · rw [hpc]; exact .missFirst hq
  case h_4 hpc =>
    have hflip : (if th.tick % pollBudget = 0 then popLocal sh i else popGlobal sh)
        = if ¬ th.tick % pollBudget = 0 then popGlobal sh else popLocal sh i := by
      split <;> rfl
    rw [hflip] at h
    rcases took_step (Or.inr hpc) (Option.some.inj h) with hstep | ⟨hq, rfl, rfl⟩
    · exact hstep
    · rw [hpc]
      refine .missSecond hq ?_
      unfold Worker.beginSteal
      split
      · exact Or.inl rfl
      · exact Or.inr ⟨_, rfl⟩
  case h_5 hpc => rw [hpc]; exact stealStep_step (Option.some.inj h)
  case h_6 hpc => cases h; rw [hpc]; exact .stealPut
  case h_7 hpc => cases h; rw [hpc]; exact .polled
  case h_8 hpc =>
    cases h; rw [hpc]
    by_cases hs : sh.shutdown = true
    · rw [if_pos hs]; exact .idleQuit hs
    · rw [if_neg hs]; exact .idleLook (by simpa using hs)
  case h_9 hpc =>
    split at h <;> rename_i hw <;> cases h <;> rw [hpc]
    · exact .lookYes hw
    · exact .lookNo hw
    · exact .lookOn hw
  case h_10 hpc =>
    rw [hpc]
    split at h <;> rename_i hd <;> cases h
    · exact .casLost hd
    · exact .casWon (by simpa using hd)
  case h_11 hpc => cases h; rw [hpc]; exact .setParked
  case h_12 hpc => cases h; rw [hpc]; exact .unsetParked
  case h_13 hpc => cases h; rw [hpc]; exact .releaseEarly
  case h_14 hpc => cases h; rw [hpc]; exact .nextDeadline
  case h_15 hpc =>
    split at h
    · rename_i hw; cases h; rw [hpc]; exact .pollWoken hw
    · exact absurd h (by simp)
  case h_16 hpc => cases h; rw [hpc]; exact .pollReturned
  case h_17 hpc => cases h; rw [hpc]; exact .pollReturned
  case h_18 hpc => cases h; rw [hpc]; exact .clearParked
  case h_19 hpc => cases h; rw [hpc]; exact .releaseDriver
  case h_20 hpc => cases h; rw [hpc]; exact .advance
  case h_21 hpc =>
    split at h
    · rename_i ht; cases h; rw [hpc]; exact .unparked ht
    · exact absurd h (by simp)
  case h_22 hpc => cases h; rw [hpc]; exact .spurious
  case h_23 => exact absurd h (by simp)

theorem callNext_step {sh sh' : Shared n τ} {call call' : Call n τ}
    (h : callNext sh call = some (sh', call')) : CallStep sh call sh' call' := by
  cases call with
  | idle => exact absurd h (by simp [callNext])
  | scheduleCheck t =>
      cases h
      by_cases hs : sh.shutdown = true
      · rw [if_pos hs]; exact .refused hs
      · rw [if_neg hs]; exact .accepted (by simpa using hs)
  | push t => cases h; exact .push
  | loadParked =>
      cases h
      by_cases hp : sh.driverParked = true
      · rw [if_pos hp]; exact .sawParked hp
      · rw [if_neg hp]; exact .sawAwake (by simpa using hp)
  | wakeReactor => cases h; exact .wake
  | fetchAdd =>
      rw [callNext, unparkIndex] at h
      by_cases hn : 0 < n
      · rw [dif_pos hn] at h; cases h; exact .fetchAdd rfl
      · rw [dif_neg hn] at h; cases h; exact .noWorker (by omega)
  | unpark i => cases h; exact .unpark
  | register d => cases h; exact .register
  | registerWake => cases h; exact .registerWake

theorem dropNext_step {sh sh' : Shared n τ} {threads : Fin n → Worker τ} {d d' : DropPc}
    (h : dropNext sh threads d = some (sh', d')) : DropStep sh threads d sh' d' := by
  cases d with
  | notStarted => cases h; exact .store
  | wake => cases h; exact .wake
  | unpark k =>
      rw [dropNext] at h
      split at h
      · rename_i hk; cases h; exact .unpark hk
      · cases h; exact .unparked (by omega)
  | join k =>
      rw [dropNext] at h
      split at h
      · rename_i hk
        split at h
        · rename_i he; cases h; exact .join hk he
        · exact absurd h (by simp)
      · cases h; exact .joined (by omega)
  | clearInjector => cases h; exact .clearInjector
  | clearLocal k =>
      rw [dropNext] at h
      split at h
      · rename_i hk; cases h; exact .clearLocal hk
      · cases h; exact .clearedLocals (by omega)
  | clearDriver => cases h; exact .clearDriver
  | returned => exact absurd h (by simp [dropNext])

theorem enter_some {w w' : World n τ} {c : Nat} {call : Call n τ}
    (h : w.enter c call = some w') :
    w.calls c = .idle ∧ w' = { w with calls := update w.calls c call } := by
  unfold World.enter at h
  split at h
  · rename_i hidle
    exact ⟨hidle, (Option.some.inj h).symm⟩
  · exact absurd h (by simp)

theorem enter_step {w w' : World n τ} {l : Label n τ} {c : Nat} {call : Call n τ}
    (he : Entry call) (h : w.enter c call = some w') : WorldStep w l w' := by
  obtain ⟨hidle, rfl⟩ := enter_some h
  exact .enter hidle he

/-- **Every step of the runtime is a step of one thread.** -/
theorem step_worldStep {w w' : World n τ} {l : Label n τ} (h : w.step l = some w') :
    WorldStep w l w' := by
  cases l with
  | worker i c =>
      obtain ⟨⟨sh', th'⟩, hr, rfl⟩ := Option.map_eq_some_iff.mp h
      exact .worker (workerNext_step hr)
  | schedule c t => exact enter_step (.schedule t) h
  | spawn c t => exact enter_step (.spawn t) h
  | register c d => exact enter_step (.register d) h
  | call c =>
      obtain ⟨⟨sh', call'⟩, hr, rfl⟩ := Option.map_eq_some_iff.mp h
      exact .call (callNext_step hr)
  | drop =>
      obtain ⟨⟨sh', d'⟩, hr, rfl⟩ := Option.map_eq_some_iff.mp h
      exact .drop (dropNext_step hr)

/-- The invariant rule of the executor, for runs whose steps all satisfy `ok`. -/
theorem executor_via {I : World n τ → Prop} {ok : World n τ → Label n τ → Prop}
    (h0 : I (World.new n τ))
    (hs : ∀ {w l w'}, I w → ok w l → WorldStep w l w' → I w')
    {w : World n τ} (h : (executor n τ).ReachableVia ok w) : I w := by
  refine h.invariant (I := I) ?_ ?_
  · intro s hi; cases hi; exact h0
  · intro s l s' hinv hok hstep; exact hs hinv hok (step_worldStep hstep)

/-- The invariant rule of the executor, for all runs. -/
theorem executor_invariant {I : World n τ → Prop} (h0 : I (World.new n τ))
    (hs : ∀ {w l w'}, I w → WorldStep w l w' → I w')
    {w : World n τ} (h : (executor n τ).Reachable w) : I w :=
  executor_via h0 (fun hinv _ hstep => hs hinv hstep) h

end Nanorun.Executor
