import Nanorun.Task.Output

/-!
# No lost join wakeup

A `JoinHandle::poll` that returns `Pending` has installed its waker, set
`JOIN_WAKER` and then seen `COMPLETE` clear. The worker that sets `COMPLETE`
later therefore finds both join bits in the word it merges, and the waker of the
last poll in the slot. From there the promise to wake it travels with the worker:
`Promised` names the stages.
-/

namespace Nanorun.Task

open Bits Pool

variable {V W : Type}

/-- The waker of the last poll, if that returned `Pending`, and how many wakes there were then. -/
def Handle.waits : Handle V W → Option (W × Nat)
  | .idle last => last
  | .parked w since => some (w, since)
  | _ => none

/-- The waker that the handle put into the slot and may still count on. -/
def Handle.installed : Handle V W → Option W
  | .setBit w | .load2 w | .parked w _ | .idle (some (w, _)) => some w
  | _ => none

/-- The handle has set `JOIN_WAKER`. -/
def Handle.flagged : Handle V W → Bool
  | .load2 _ | .parked _ _ | .idle (some _) => true
  | _ => false

/-- The completing worker is on its way to wake `w`, or `w` was woken after the first `since` wakes. -/
def Promised (t : RawTask V W) (fs : Multiset (Frame V W)) (w : W) (since : Nat) : Prop :=
  (∃ wk merged, .clearRunning wk merged ∈ fs ∧ has merged joinInterest = true
      ∧ has merged joinWaker = true ∧ t.joinSlot = some w)
    ∨ (∃ wk, .takeJoin wk ∈ fs ∧ t.joinSlot = some w)
    ∨ (∃ wk, .wakeJoin wk w ∈ fs)
    ∨ w ∈ t.woken.drop since

/-- The join waker against the state word and the worker. -/
structure JoinInv (t : RawTask V W) (fs : Multiset (Frame V W)) : Prop where
  /-- The bit that the handle has set stays set. -/
  flagged : t.handle.flagged = true → has t.state joinWaker = true
  /-- Until the task completes, the slot has the waker that the handle put there. -/
  slot : has t.state complete = false → ∀ w, t.handle.installed = some w → t.joinSlot = some w
  /-- The handle counted wakes that have happened. -/
  since_le : ∀ w k, t.handle.waits = some (w, k) → k ≤ t.woken.length
  /-- Once it has completed, the waker has been woken or is about to be. -/
  promised : has t.state complete = true → ∀ w k, t.handle.waits = some (w, k) → Promised t fs w k

theorem joinInv_init : JoinInv (V := V) (W := W)
    (World.spawnRaw (V := V) (W := W)).task (World.spawnRaw (V := V) (W := W)).frames where
  flagged := by intro h; exact absurd h (by simp [World.spawnRaw, Handle.flagged])
  slot := by intro _ w h; exact absurd h (by simp [World.spawnRaw, Handle.installed])
  since_le := by intro w k h; exact absurd h (by simp [World.spawnRaw, Handle.waits])
  promised := by intro _ w k h; exact absurd h (by simp [World.spawnRaw, Handle.waits])

theorem Handle.installed_of_waits {h : Handle V W} {w : W} {k : Nat} (hw : h.waits = some (w, k)) :
    h.installed = some w ∧ h.flagged = true ∧ h.interested = true := by
  cases h with
  | idle last => cases hw; exact ⟨rfl, rfl, rfl⟩
  | parked w' since => cases hw; exact ⟨rfl, rfl, rfl⟩
  | _ => exact absurd hw (by simp [Handle.waits])

/-- The thread is on its way to the join waker. -/
def Frame.joins : Frame V W → Bool
  | .clearRunning _ _ | .takeJoin _ | .wakeJoin _ _ => true
  | _ => false

/-- A thread that has nothing to do with the join waker moves on. -/
theorem Promised.advance {t t' : RawTask V W} {f f' : Frame V W} {rest : Multiset (Frame V W)}
    {w : W} {k : Nat} (h : Promised t (f ::ₘ rest) w k) (hslot : t'.joinSlot = t.joinSlot)
    (hwoken : t'.woken = t.woken) (hf : f.joins = false) : Promised t' (f' ::ₘ rest) w k := by
  have hmem : ∀ {g : Frame V W}, g ∈ f ::ₘ rest → g.joins = true → g ∈ f' ::ₘ rest := by
    intro g hg hj
    rcases Multiset.mem_cons.mp hg with rfl | hg
    · rw [hf] at hj; exact absurd hj (by simp)
    · exact Multiset.mem_cons_of_mem hg
  rcases h with ⟨wk, merged, hg, hi, hw, hs⟩ | ⟨wk, hg, hs⟩ | ⟨wk, hg⟩ | hg
  · exact .inl ⟨wk, merged, hmem hg rfl, hi, hw, by rw [hslot]; exact hs⟩
  · exact .inr (.inl ⟨wk, hmem hg rfl, by rw [hslot]; exact hs⟩)
  · exact .inr (.inr (.inl ⟨wk, hmem hg rfl⟩))
  · exact .inr (.inr (.inr (by rw [hwoken]; exact hg)))

theorem JoinInv.advance {t t' : RawTask V W} {f f' : Frame V W} {rest : Multiset (Frame V W)}
    (h : JoinInv t (f ::ₘ rest)) (hc : has t'.state complete = has t.state complete)
    (hj : has t'.state joinWaker = has t.state joinWaker) (hslot : t'.joinSlot = t.joinSlot)
    (hwoken : t'.woken = t.woken) (hh : t'.handle = t.handle) (hf : f.joins = false) :
    JoinInv t' (f' ::ₘ rest) where
  flagged := by rw [hh, hj]; exact h.flagged
  slot := by rw [hc, hh, hslot]; exact h.slot
  since_le := by rw [hh, hwoken]; exact h.since_le
  promised := by
    rw [hc, hh]
    intro hcomp w k hw
    exact (h.promised hcomp w k hw).advance hslot hwoken hf

/-- The completing worker moves on and the promise moves with it. -/
theorem JoinInv.carry {t t' : RawTask V W} {f f' : Frame V W} {rest : Multiset (Frame V W)}
    (h : JoinInv t (f ::ₘ rest)) (hcomp : has t.state complete = true)
    (hc : has t'.state complete = true) (hj : has t'.state joinWaker = has t.state joinWaker)
    (hle : t.woken.length ≤ t'.woken.length) (hh : t'.handle = t.handle)
    (hp : ∀ w k, k ≤ t.woken.length → Promised t (f ::ₘ rest) w k → Promised t' (f' ::ₘ rest) w k) :
    JoinInv t' (f' ::ₘ rest) where
  flagged := by rw [hh, hj]; exact h.flagged
  slot := by intro hn; rw [hc] at hn; exact absurd hn (by simp)
  since_le := by
    intro w k hw
    rw [hh] at hw
    exact Nat.le_trans (h.since_le w k hw) hle
  promised := by
    intro _ w k hw
    rw [hh] at hw
    exact hp w k (h.since_le w k hw) (h.promised hcomp w k hw)

/-- A thread that is seeing to the completion knows that the task is complete. -/
theorem CellInv.complete_of_late {t : RawTask V W} {f : Frame V W} {fs : Multiset (Frame V W)}
    (h : CellInv t fs) (hf : f ∈ fs) (hl : f.late = 1) : has t.state complete = true := by
  cases hc : has t.state complete with
  | true => rfl
  | false =>
      have := eq_zero_of_weight hf (h.before hc).2.1
      omega

/-- Only one thread sees to the completion. -/
theorem CellInv.late_alone {t : RawTask V W} {f g : Frame V W} {rest : Multiset (Frame V W)}
    (h : CellInv t (f ::ₘ rest)) (hf : f.late = 1) (hg : g ∈ rest) : g.late = 0 := by
  have h1 := h.late_le
  have h2 := le_weight (g := Frame.late) hg
  rw [weight_cons] at h1
  omega

theorem joinInv_thread {t t' : RawTask V W} {lent : Nat → Bool} {f f' : Frame V W}
    {rest : Multiset (Frame V W)} (h : JoinInv t (f ::ₘ rest)) (hi : TaskInv t (f ::ₘ rest))
    (hs : FrameStep t lent f t' f') : JoinInv t' (f' ::ₘ rest) := by
  have hmem := Multiset.mem_cons_self f rest
  cases hs with
  | spawnJoin =>
      refine ⟨fun hn => ?_, fun _ w hn => ?_, fun w k hn => ?_, fun _ w k hn => ?_⟩
      · exact absurd hn (by simp [Handle.flagged])
      · exact absurd hn (by simp [Handle.installed])
      · exact absurd hn (by simp [Handle.waits])
      · exact absurd hn (by simp [Handle.waits])
  | @setComplete wk =>
      -- a waiting handle has its waker in the slot and both its bits in the merged word
      have hc := hi.bits.not_complete hmem rfl
      refine ⟨fun hf => by simp [h.flagged hf], fun hn => ?_, h.since_le, fun _ w k hw => ?_⟩
      · exact absurd hn (by simp)
      · obtain ⟨hinst, hflag, hint⟩ := Handle.installed_of_waits hw
        have hslot := h.slot hc w hinst
        have hinterest := hi.cell.interest
        rw [hint] at hinterest
        exact .inl ⟨wk, t.state ||| complete, Multiset.mem_cons_self _ _, by simp [hinterest],
          by simp [h.flagged hflag], hslot⟩
  | @clearRunning wk merged =>
      have hc := hi.cell.complete_of_late hmem rfl
      refine h.carry hc (by simp [hc]) (by simp) (Nat.le_refl _) rfl fun w k _ hp => ?_
      rcases hp with ⟨wk', merged', hg, hji, hjw, hslot⟩ | ⟨wk', hg, hslot⟩ | ⟨wk', hg⟩ | hg
      · rcases Multiset.mem_cons.mp hg with he | hg
        · cases he
          have : (afterComplete wk merged : Frame V W) = .takeJoin wk := by
            simp [afterComplete, hji, hjw]
          rw [this]
          exact .inr (.inl ⟨wk, Multiset.mem_cons_self _ _, hslot⟩)
        · exact .inl ⟨wk', merged', Multiset.mem_cons_of_mem hg, hji, hjw, hslot⟩
      · rcases Multiset.mem_cons.mp hg with he | hg
        · exact absurd he (by simp)
        · exact .inr (.inl ⟨wk', Multiset.mem_cons_of_mem hg, hslot⟩)
      · rcases Multiset.mem_cons.mp hg with he | hg
        · exact absurd he (by simp)
        · exact .inr (.inr (.inl ⟨wk', Multiset.mem_cons_of_mem hg⟩))
      · exact .inr (.inr (.inr hg))
  | @takeJoin wk w₀ hslot₀ =>
      have hc := hi.cell.complete_of_late hmem rfl
      refine h.carry hc hc rfl (Nat.le_refl _) rfl fun w k _ hp => ?_
      rcases hp with ⟨wk', merged', hg, _⟩ | ⟨wk', _, hslot⟩ | ⟨wk', hg⟩ | hg
      · rcases Multiset.mem_cons.mp hg with he | hg
        · exact absurd he (by simp)
        · exact absurd (hi.cell.late_alone rfl hg) (by simp [Frame.late])
      · have : w₀ = w := by rw [hslot₀] at hslot; exact Option.some.inj hslot
        rw [this]
        exact .inr (.inr (.inl ⟨wk, Multiset.mem_cons_self _ _⟩))
      · rcases Multiset.mem_cons.mp hg with he | hg
        · exact absurd he (by simp)
        · exact .inr (.inr (.inl ⟨wk', Multiset.mem_cons_of_mem hg⟩))
      · exact .inr (.inr (.inr hg))
  | takeNone hslot₀ =>
      have hc := hi.cell.complete_of_late hmem rfl
      refine h.carry hc hc rfl (Nat.le_refl _) rfl fun w k _ hp => ?_
      rcases hp with ⟨_, _, _, _, _, hslot⟩ | ⟨_, _, hslot⟩ | ⟨wk', hg⟩ | hg
      · rw [hslot₀] at hslot; exact absurd hslot (by simp)
      · rw [hslot₀] at hslot; exact absurd hslot (by simp)
      · rcases Multiset.mem_cons.mp hg with he | hg
        · exact absurd he (by simp)
        · exact .inr (.inr (.inl ⟨wk', Multiset.mem_cons_of_mem hg⟩))
      · exact .inr (.inr (.inr hg))
  | @wakeJoin wk w₀ =>
      have hc := hi.cell.complete_of_late hmem rfl
      refine h.carry hc hc rfl (by simp) rfl fun w k hk hp => ?_
      rcases hp with ⟨_, _, hg, _⟩ | ⟨_, hg, _⟩ | ⟨wk', hg⟩ | hg
      · rcases Multiset.mem_cons.mp hg with he | hg
        · exact absurd he (by simp)
        · exact absurd (hi.cell.late_alone rfl hg) (by simp [Frame.late])
      · rcases Multiset.mem_cons.mp hg with he | hg
        · exact absurd he (by simp)
        · exact absurd (hi.cell.late_alone rfl hg) (by simp [Frame.late])
      · rcases Multiset.mem_cons.mp hg with he | hg
        · cases he
          refine .inr (.inr (.inr ?_))
          rw [List.drop_append_of_le_length hk]
          exact List.mem_append_right _ (List.mem_singleton_self _)
        · exact .inr (.inr (.inl ⟨wk', Multiset.mem_cons_of_mem hg⟩))
      · refine .inr (.inr (.inr ?_))
        rw [List.drop_append_of_le_length hk]
        exact List.mem_append_left _ hg
  | casWon _ => exact h.advance (by simp) (by simp) rfl rfl rfl rfl
  | resched _ => exact h.advance (by simp) (by simp) rfl rfl rfl rfl
  | park _ => exact h.advance (by simp) (by simp) rfl rfl rfl rfl
  | wokeBusy _ => exact h.advance (by simp) (by simp) rfl rfl rfl rfl
  | wokeIdle _ => exact h.advance (by simp) (by simp) rfl rfl rfl rfl
  | _ => exact h.advance rfl rfl rfl rfl rfl rfl

/-- A handle that waits for nothing keeps no promise. -/
theorem joinInv_idle {t : RawTask V W} {fs : Multiset (Frame V W)}
    (hflag : t.handle.flagged = true → has t.state joinWaker = true)
    (hslot : has t.state complete = false → ∀ w, t.handle.installed = some w → t.joinSlot = some w)
    (hw : t.handle.waits = none) : JoinInv t fs where
  flagged := hflag
  slot := hslot
  since_le := by intro w k hn; rw [hw] at hn; exact absurd hn (by simp)
  promised := by intro _ w k hn; rw [hw] at hn; exact absurd hn (by simp)

theorem joinInv_handle {t t' : RawTask V W} {fs : Multiset (Frame V W)} (h : JoinInv t fs)
    (hs : HandleStep t t.handle t') : JoinInv t' fs := by
  have hflag := h.flagged
  have hslot := h.slot
  have hsince := h.since_le
  have hprom := h.promised
  generalize t.handle = d at hs hflag hslot hsince hprom
  cases hs with
  | install =>
      exact joinInv_idle (fun hn => absurd hn (by simp [Handle.flagged])) (fun _ w hw => hw) rfl
  | setBit =>
      exact joinInv_idle (fun _ => by simp) (fun hc w hw => hslot (by simpa using hc) w hw) rfl
  | load2 hc =>
      -- `COMPLETE` is still clear, so the waker is still in the slot
      refine ⟨fun _ => hflag rfl, fun _ w hw => hslot hc w hw, fun w k hw => ?_, fun hn => ?_⟩
      · cases hw; exact Nat.le_refl _
      · rw [hc] at hn; exact absurd hn (by simp)
  | park => exact ⟨hflag, hslot, hsince, hprom⟩
  | dropFetchDone _ =>
      exact joinInv_idle (fun hn => absurd hn (by simp [Handle.flagged]))
        (fun _ w hw => absurd hw (by simp [Handle.installed])) rfl
  | dropFetch _ =>
      exact joinInv_idle (fun hn => absurd hn (by simp [Handle.flagged]))
        (fun _ w hw => absurd hw (by simp [Handle.installed])) rfl
  | _ =>
      exact joinInv_idle (fun hn => absurd hn (by simp [Handle.flagged]))
        (fun _ w hw => absurd hw (by simp [Handle.installed])) rfl

/-- A thread appears. -/
theorem JoinInv.join {t t' : RawTask V W} {f : Frame V W} {fs : Multiset (Frame V W)}
    (h : JoinInv t fs) (hstate : t'.state = t.state) (hslot : t'.joinSlot = t.joinSlot)
    (hwoken : t'.woken = t.woken) (hh : t'.handle = t.handle) : JoinInv t' (f ::ₘ fs) where
  flagged := by rw [hh, hstate]; exact h.flagged
  slot := by rw [hstate, hh, hslot]; exact h.slot
  since_le := by rw [hh, hwoken]; exact h.since_le
  promised := by
    rw [hstate, hh]
    intro hcomp w k hw
    unfold Promised
    rw [hslot, hwoken]
    rcases h.promised hcomp w k hw with ⟨wk, merged, hg, hp⟩ | ⟨wk, hg, hp⟩ | ⟨wk, hg⟩ | hg
    · exact .inl ⟨wk, merged, Multiset.mem_cons_of_mem hg, hp⟩
    · exact .inr (.inl ⟨wk, Multiset.mem_cons_of_mem hg, hp⟩)
    · exact .inr (.inr (.inl ⟨wk, Multiset.mem_cons_of_mem hg⟩))
    · exact .inr (.inr (.inr hg))

theorem joinInv_step {t t' : RawTask V W} {fs fs' : Multiset (Frame V W)} (h : JoinInv t fs)
    (hi : TaskInv t fs) (hs : WorldStep t fs t' fs') : JoinInv t' fs' := by
  cases hs with
  | thread hf => exact joinInv_thread h hi hf
  | dequeue _ hd => exact h.join rfl rfl rfl rfl
  | wake _ _ => exact h.join rfl rfl rfl rfl
  | wakeByRef _ => exact h.join rfl rfl rfl rfl
  | handle hh => exact joinInv_handle h hh
  | _ => exact ⟨h.flagged, h.slot, h.since_le, h.promised⟩

section

variable [DecidableEq V] [DecidableEq W]

theorem joinInv_reachable {w : World V W} (h : (taskSystem V W).Reachable w) :
    JoinInv w.task w.frames :=
  (task_invariant (I := fun t fs => TaskInv t fs ∧ JoinInv t fs)
    ⟨⟨bitsInv_init, refInv_init, cellInv_init⟩, joinInv_init⟩
    (fun hi hs => ⟨taskInv_step hi.1 hs, joinInv_step hi.2 hi.1 hs⟩) h).2

/--
**No lost join wakeup, and the latest waker wins.**

When the completing `poll_fn` is past the join waker and the handle's last poll
returned `Pending` with waker `x`, then `x` has been woken since that poll. The
handle may be `block_on_handle`'s, inside `thread::park` after that poll: its
unpark has been issued.
-/
theorem join_wakeup {w : World V W} (h : (taskSystem V W).Reachable w) (hs : w.Settled) (x : W)
    (since : Nat) (hw : w.task.handle = .idle (some (x, since)) ∨ w.task.handle = .parked x since) :
    x ∈ w.task.woken.drop since := by
  have hwaits : w.task.handle.waits = some (x, since) := by
    rcases hw with hw | hw <;> rw [hw] <;> rfl
  obtain ⟨hc, hlate⟩ := hs
  rcases (joinInv_reachable h).promised hc x since hwaits with
    ⟨wk, merged, hg, _⟩ | ⟨wk, hg, _⟩ | ⟨wk, hg⟩ | hg
  · exact absurd (eq_zero_of_weight hg hlate) (by simp [Frame.late])
  · exact absurd (eq_zero_of_weight hg hlate) (by simp [Frame.late])
  · exact absurd (eq_zero_of_weight hg hlate) (by simp [Frame.late])
  · exact hg

end

/-- `block_on_handle` polls with waker 1, then with waker 2, and parks; then the task completes. -/
def repolled : List (Label Unit Nat) :=
  [.thread .spawnPush .go, .thread .spawnJoin .go,
   .handle (.poll 1), .handle .step, .handle .step, .handle .step, .handle .step,
   .handle (.poll 2), .handle .step, .handle .step, .handle .step, .handle .step, .handle .park,
   .pop, .thread .popped .go, .thread (.cas (notified ||| joinInterest ||| joinWaker)) .go,
   .thread .mkWaker .go, .thread (.matchStage 0) .go, .thread (.polling 0) (.ready ()),
   .thread (.writeReady 0 ()) .go, .thread (.setComplete 0) .go,
   .thread (.clearRunning 0 (joinInterest ||| joinWaker ||| running ||| complete)) .go,
   .thread (.takeJoin 0) .go, .thread (.wakeJoin 0 2) .go]

/-- Parked after the second poll, the thread is woken through the second waker. -/
theorem join_wakeup_repolled :
    ((taskSystem Unit Nat).exec World.spawnRaw repolled).task.handle = .parked 2 0
      ∧ 2 ∈ ((taskSystem Unit Nat).exec World.spawnRaw repolled).task.woken.drop 0 := by
  have hr : (taskSystem Unit Nat).Reachable ((taskSystem Unit Nat).exec World.spawnRaw repolled) :=
    .exec (.init rfl)
  have hh : ((taskSystem Unit Nat).exec World.spawnRaw repolled).task.handle = .parked 2 0 := by
    decide +kernel
  exact ⟨hh, join_wakeup hr ⟨by decide +kernel, by decide +kernel⟩ 2 0 (.inr hh)⟩

end Nanorun.Task
