import Nanorun.Task.References

/-!
# Every strong count is released once

The count is the number of owners in every reachable state (`References`). Two
things remain to be said of a whole run. A release always finds a count to release:
whoever gives one back owns it until then. And the count comes to zero once at most:
without an owner there is nobody left to make another one, so zero is where it stays.
-/

namespace Nanorun.Task

open Bits Pool

variable {V W : Type}

/-- The step gives a strong count back. -/
def Releases (w : World V W) : Label V W → Prop
  | .thread (.dropWaker _) _ | .thread .dropArc _ | .thread (.release _) _ => True
  | .dropWaker _ => True
  | .handle .step => w.task.handle = .dropRef ∨ ∃ v, w.task.handle = .dropRaw v
  | _ => False

section

variable [DecidableEq V] [DecidableEq W]

/-- How many steps of a run take the strong count to zero. -/
def zeroings (w : World V W) : List (Label V W) → Nat
  | [] => 0
  | a :: as =>
      match w.step a with
      | some w' =>
          (if w.task.strong ≠ 0 ∧ w'.task.strong = 0 then 1 else 0) + zeroings w' as
      | none => 0

/-- A thread that moves is one of the threads. -/
theorem thread_step {w w' : World V W} {f : Frame V W} {c : Choice V}
    (hs : w.step (.thread f c) = some w') :
    f ∈ w.frames ∧ ∃ f', frameNext w.task (borrowed w.frames) f c = some (w'.task, f') := by
  simp only [World.step] at hs
  split at hs
  · rename_i hmem
    obtain ⟨⟨t', f'⟩, hr, rfl⟩ := Option.map_eq_some_iff.mp hs
    exact ⟨hmem, f', hr⟩
  · exact absurd hs (by simp)

/-- **A release finds a count to release, and takes one.** -/
theorem RefInv.released {w w' : World V W} {a : Label V W} (h : RefInv w.task w.frames)
    (hrel : Releases w a) (hs : w.step a = some w') :
    0 < w.task.strong ∧ w'.task.strong + 1 = w.task.strong := by
  -- who gives a count back owns it, and then the count goes down by one
  have key : 0 < w.task.strong → w'.task.strong = w.task.strong - 1 →
      0 < w.task.strong ∧ w'.task.strong + 1 = w.task.strong := by
    intro hpos heq
    omega
  cases a with
  | thread f c =>
      obtain ⟨hmem, f', hr⟩ := thread_step hs
      have hstep := frameNext_step hr
      have howns : 0 < f.owns := by
        cases f with
        | dropWaker wk => simp [Frame.owns]
        | dropArc => simp [Frame.owns]
        | release who => simp only [Frame.owns]; omega
        | _ => exact absurd hrel (by simp [Releases])
      refine key (h.alive_of_owns hmem howns) ?_
      generalize w'.task = t' at hstep
      cases hstep with
      | dropWaker => rfl
      | dropArc => rfl
      | release => rfl
      | _ => exact absurd hrel (by simp [Releases])
  | dropWaker wk =>
      simp only [World.step] at hs
      split at hs
      · rename_i ho
        obtain rfl := Option.some.inj hs
        exact key (h.alive_of_waker (owns_iff ho).1 rfl) rfl
      · exact absurd hs (by simp)
  | handle op =>
      cases op with
      | step =>
          obtain ⟨t', hr, rfl⟩ := Option.map_eq_some_iff.mp hs
          rcases hrel with hd | ⟨v, hd⟩
          · have hpos := h.alive_of_handle (by rw [hd]; simp [Handle.owns])
            simp only [handleNext, hd] at hr
            obtain rfl := Option.some.inj hr
            exact key hpos rfl
          · have hpos := h.alive_of_handle (by rw [hd]; simp [Handle.owns])
            simp only [handleNext, hd] at hr
            obtain rfl := Option.some.inj hr
            exact key hpos rfl
      | _ => exact absurd hrel (by simp [Releases])
  | _ => exact absurd hrel (by simp [Releases])

end

/-- A count is made by an owner only. -/
theorem RefInv.grows {t t' : RawTask V W} {fs fs' : Multiset (Frame V W)} (h : RefInv t fs)
    (hs : WorldStep t fs t' fs') : t'.strong ≤ t.strong ∨ 0 < t.strong := by
  cases hs with
  | @thread _ f _ rest hf =>
      have hmem := Multiset.mem_cons_self f rest
      cases hf with
      | mkWaker => exact .inr (h.alive_of_owns hmem (by simp [Frame.owns]))
      | incResched => exact .inr (h.alive_of_owns hmem (by simp [Frame.owns]))
      | wakeClone => exact .inr (h.alive_of_borrows hmem rfl)
      | dropWaker => exact .inl (Nat.sub_le _ _)
      | dropArc => exact .inl (Nat.sub_le _ _)
      | release => exact .inl (Nat.sub_le _ _)
      | _ => exact .inl (Nat.le_refl _)
  | cloneWaker hu =>
      rcases of_decide_eq_true hu with hw | hw
      · exact .inr (h.alive_of_waker hw rfl)
      · exact .inr (h.alive_of_waker hw rfl)
  | dropWaker => exact .inl (Nat.sub_le _ _)
  | handle hh =>
      left
      generalize t.handle = hd at hh
      cases hh with
      | dropRaw => exact Nat.sub_le _ _
      | dropRef => exact Nat.sub_le _ _
      | _ => exact Nat.le_refl _
  | _ => exact .inl (Nat.le_refl _)

section

variable [DecidableEq V] [DecidableEq W]

/-- From an exact state on, the count comes to zero as often as it can: once, if it is not there. -/
theorem RefInv.zeroings {w w' : World V W} {as : List (Label V W)} (h : RefInv w.task w.frames)
    (hr : (taskSystem V W).run w as = some w') :
    RefInv w'.task w'.frames
      ∧ Task.zeroings w as + (if w.task.strong = 0 then 1 else 0)
        = if w'.task.strong = 0 then 1 else 0 := by
  induction as generalizing w with
  | nil =>
      obtain rfl := Option.some.inj hr
      exact ⟨h, Nat.zero_add _⟩
  | cons a as ih =>
      rw [Transition.System.run] at hr
      obtain ⟨m, hm, hr⟩ := Option.bind_eq_some_iff.mp hr
      have hm : w.step a = some m := hm
      have hstep := step_worldStep hm
      obtain ⟨hinv, hrest⟩ := ih (refInv_step h hstep) hr
      refine ⟨hinv, ?_⟩
      rw [Task.zeroings, hm]
      simp only
      rw [← hrest]
      have hgrows := h.grows hstep
      by_cases h0 : w.task.strong = 0
      -- nobody is left to make a count
      · have hm0 : m.task.strong = 0 := by omega
        simp [h0, hm0]
      · by_cases hm0 : m.task.strong = 0
        · simp only [h0, hm0, ne_eq, not_false_eq_true, and_self, if_true, if_false]
          omega
        · simp only [hm0, and_false, h0, if_false]
          omega

/--
**Strong-count accounting.**

After any run from the spawn of a task on, the strong count is the number of its
owners: references in the queues or held by threads, live wakers, the `JoinHandle`
while it has its reference, running `poll_fn` and `schedule_fn` frames. The
allocation is freed exactly when there are none left, the run has taken the count to
zero once if so and never otherwise, and whoever gives a count back finds one there.
-/
theorem strong_count_exact {w : World V W} (as : List (Label V W))
    (h : (taskSystem V W).run World.spawnRaw as = some w) :
    w.task.strong = owners w.task w.frames
    ∧ (w.task.freed = true ↔ owners w.task w.frames = 0)
    ∧ Task.zeroings World.spawnRaw as = (if owners w.task w.frames = 0 then 1 else 0)
    ∧ ∀ a w', Releases w a → w.step a = some w' →
        0 < w.task.strong ∧ w'.task.strong + 1 = w.task.strong := by
  obtain ⟨hinv, hzero⟩ := RefInv.zeroings refInv_init h
  refine ⟨hinv.count, ?_, ?_, fun a w' hrel hs => hinv.released hrel hs⟩
  · rw [← hinv.count]
    exact hinv.freed
  · rw [← hinv.count, ← hzero]
    rfl

/-- Spawned, polled once to the end by a worker, then the handle takes the output. -/
def wholeLife : List (Label Nat Nat) :=
  [.thread .spawnPush .go, .thread .spawnJoin .go, .pop, .thread .popped .go,
    .thread (.cas (notified ||| joinInterest)) .go, .thread .mkWaker .go,
    .thread (.matchStage 0) .go, .thread (.polling 0) (.ready 5), .thread (.writeReady 0 5) .go,
    .thread (.setComplete 0) .go,
    .thread (.clearRunning 0 (running ||| joinInterest ||| complete)) .go,
    .thread (.dropWaker 0) .go, .thread .dropArc .go, .handle (.poll 1), .handle .step,
    .handle .step, .handle .step, .handle .step]

theorem strong_count_exact_wholeLife :
    ∃ w, (taskSystem Nat Nat).run World.spawnRaw wholeLife = some w
      ∧ owners w.task w.frames = 0 ∧ Task.zeroings World.spawnRaw wholeLife = 1 := by
  obtain ⟨w, hw⟩ := Option.isSome_iff_exists.mp
    (show ((taskSystem Nat Nat).run World.spawnRaw wholeLife).isSome = true by decide +kernel)
  have h0 : w.task.strong = 0 := by
    have hz : ((taskSystem Nat Nat).run World.spawnRaw wholeLife).map (·.task.strong) = some 0 := by
      decide +kernel
    rw [hw] at hz
    exact Option.some.inj hz
  obtain ⟨hcount, _, hzero, _⟩ := strong_count_exact wholeLife hw
  have howners : owners w.task w.frames = 0 := hcount.symm.trans h0
  refine ⟨w, hw, howners, ?_⟩
  rw [hzero, if_pos howners]

end

end Nanorun.Task
