import Nanorun.Time.Sleep

/-!
# Which poller a sleep wakes

A `Sleep` hands its waker to the driver in the poll that registers it. Later polls find
`entry_id` set and return `Pending` without looking at the waker they were given, where
`JoinHandle::poll` would put the new one in place of the old. So the driver keeps the
waker of the first poll, whoever polls afterwards.

`pendings` lists the wakers of the polls of a run that returned `Pending`. The invariant
ties its head to the driver's map; what a poller is owed is its last element.
-/

namespace Nanorun.Time.Nap

open Transition

variable {W : Type}

/-- The waker of the poll that this step ends with `Pending`. -/
def returned (s : World W) : Label W → List W
  | .poll waker =>
      match s.sleep.poll s.clock with
      | .pending => [waker]
      | _ => []
  | .register =>
      match s.phase with
      | .registering waker => [waker]
      | _ => []
  | _ => []

/-- The wakers of the polls that returned `Pending`, in order. -/
def pendings (s : World W) (as : List (Label W)) : List W := (system W).record returned s as

/-- The tick of the sleep's deadline. -/
def dueTick (s : World W) : Nat := instantToTickCeil s.driver.epoch s.sleep.deadline

/-- Until the cursor comes to its tick, the sleep is registered with the waker of its first poll. -/
structure PollInv (s : World W) (seen : List W) : Prop where
  nap : NapInv s
  unpolled : seen = [] → s.sleep.entryId = none
  first : ∀ w, seen.head? = some w → dueTick s ≤ s.driver.wheel.cursor
    ∨ ∃ id, s.sleep.entryId = some id ∧ Pending s.driver id w (dueTick s)

/-- A call of the driver that does not cancel the sleep. -/
theorem PollInv.call {s s' : World W} {seen : List W} (h : PollInv s seen) (hnap : NapInv s')
    {op : Timer W} (hr : Ready s.driver [op]) (hclear : op ≠ .clear)
    (hcancel : ∀ id, s.sleep.entryId = some id → op ≠ .cancel id)
    (hd : s'.driver = (s.driver.call op).1) (hsleep : s'.sleep = s.sleep) : PollInv s' seen := by
  have hdue : dueTick s' = dueTick s := by
    unfold dueTick
    rw [hd, hsleep, call_epoch]
  refine ⟨hnap, ?_, ?_⟩
  · rw [hsleep]
    exact h.unpolled
  · intro w hw
    rw [hdue, hd, hsleep]
    rcases h.first w hw with hle | ⟨id, hid, hp⟩
    · exact .inl (Nat.le_trans hle (cursor_le_call s.driver op))
    · rcases kept_of_pending hr (hcancel id hid) hclear hp with hp' | hle
      · exact .inr ⟨id, hid, hp'⟩
      · exact .inl hle

/-- A step that touches neither the driver nor the sleep. -/
theorem PollInv.still {s s' : World W} {seen : List W} (h : PollInv s seen) (hnap : NapInv s')
    (hd : s'.driver = s.driver) (hsleep : s'.sleep = s.sleep) : PollInv s' seen := by
  refine ⟨hnap, by rw [hsleep]; exact h.unpolled, ?_⟩
  unfold dueTick
  rw [hd, hsleep]
  exact h.first

/-- Only the first of the pending polls counts. -/
theorem PollInv.append {s : World W} {seen : List W} (h : PollInv s seen) (hne : seen ≠ [])
    (more : List W) : PollInv s (seen ++ more) := by
  refine ⟨h.nap, ?_, ?_⟩
  · intro hnil
    exact absurd (List.append_eq_nil_iff.mp hnil).1 hne
  · intro w hw
    rw [List.head?_append_of_ne_nil seen hne] at hw
    exact h.first w hw

/-- The poll that registers. -/
theorem PollInv.registered {s : World W} {seen : List W} (h : PollInv s seen) {w : W}
    (hphase : s.phase = .registering w) (hfit : Fits s .register) :
    PollInv (registered s w) (seen ++ [w]) := by
  have hnap := h.nap.registered hfit w
  have hr : Ready s.driver [.register s.sleep.deadline w] := h.nap.ready hfit (by simp)
  have hep : (s.driver.register s.sleep.deadline w).1.epoch = s.driver.epoch :=
    call_epoch s.driver (.register s.sleep.deadline w)
  have hcur : (s.driver.register s.sleep.deadline w).1.wheel.cursor = s.driver.wheel.cursor :=
    call_cursor s.driver (.register s.sleep.deadline w)
  have hdue : dueTick (Nap.registered s w) = dueTick s := by
    show instantToTickCeil (s.driver.register s.sleep.deadline w).1.epoch s.sleep.deadline = _
    rw [hep]
    rfl
  refine ⟨hnap, by simp, ?_⟩
  intro v hv
  rw [hdue]
  cases seen with
  | cons u rest =>
      -- it has been polled before and holds no id, so the first poll came too late
      rcases h.first u rfl with hle | ⟨id, hid, _⟩
      · exact .inl (by show dueTick s ≤ _; exact Nat.le_trans hle (Nat.le_of_eq hcur.symm))
      · rw [h.nap.unregistered w hphase] at hid
        exact absurd hid (by simp)
  | nil =>
      obtain rfl := Option.some.inj hv
      cases hreg : (s.driver.register s.sleep.deadline w).2 with
      | armed id =>
          have hp := (hr.pending hreg).2
          rw [Nat.min_eq_left hfit.2] at hp
          refine .inr ⟨id, ?_, hp⟩
          show (s.driver.register s.sleep.deadline w).2.id = some id
          rw [hreg]
          rfl
      | due woken =>
          have hle := (hr.refused hreg).2
          exact .inl (Nat.le_trans hle (Nat.le_of_eq hcur.symm))

theorem pollInv_step {s s' : World W} {a : Label W} {seen : List W} (h : PollInv s seen)
    (hfit : Fits s a) (hs : next s a = some s') : PollInv s' (seen ++ returned s a) := by
  have hnap := napInv_step h.nap hfit hs
  cases a with
  | tick now =>
      simp only [next] at hs
      split at hs
      · obtain rfl := Option.some.inj hs
        simp only [returned, List.append_nil]
        exact h.still hnap rfl rfl
      · exact absurd hs (by simp)
  | poll w =>
      have hs : s' = polled s w := by
        simp only [next] at hs
        split at hs
        · exact (Option.some.inj hs).symm
        · exact (Option.some.inj hs).symm
        · exact absurd hs (by simp)
      subst hs
      have hstill : PollInv (polled s w) seen := by
        rcases poll_cases s w with ⟨_, heq⟩ | ⟨_, _, heq⟩ | ⟨_, _, heq⟩ <;>
          exact h.still hnap (by rw [heq]) (by rw [heq])
      by_cases hpend : s.sleep.poll s.clock = .pending
      · -- a poll that returns at once finds the id of an earlier one
        have hne : seen ≠ [] := by
          intro hnil
          have hid := h.unpolled hnil
          unfold Sleep.poll at hpend
          split at hpend
          · exact absurd hpend (by simp)
          · rw [hid] at hpend
            exact absurd hpend (by simp)
        exact hstill.append hne _
      · have hnil : returned s (.poll w) = [] := by
          rw [returned]
          split
          · rename_i hp
            exact absurd hp hpend
          · rfl
        rw [hnil, List.append_nil]
        exact hstill
  | register =>
      simp only [next] at hs
      split at hs
      · rename_i w hphase
        obtain rfl := Option.some.inj hs
        have hret : returned s .register = [w] := by
          rw [returned, hphase]
        rw [hret]
        exact h.registered hphase hfit
      · exact absurd hs (by simp)
  | advance now =>
      simp only [next] at hs
      split at hs
      · obtain rfl := Option.some.inj hs
        simp only [returned, List.append_nil]
        exact h.call hnap (h.nap.readyAdvance hfit) (by simp) (by simp) rfl rfl
      · exact absurd hs (by simp)
  | otherRegister deadline w =>
      obtain rfl := Option.some.inj hs
      simp only [returned, List.append_nil]
      have hr : Ready s.driver [.register deadline w] := h.nap.ready hfit (by simp)
      exact h.call hnap hr (by simp) (by simp) rfl rfl
  | otherCancel id =>
      simp only [next] at hs
      split at hs
      · exact absurd hs (by simp)
      · rename_i hne
        obtain rfl := Option.some.inj hs
        simp only [returned, List.append_nil]
        have hr : Ready s.driver [.cancel id] := h.nap.ready hfit (by simp)
        refine h.call hnap hr (by simp) ?_ rfl rfl
        intro i hi heq
        obtain rfl := Timer.cancel.inj heq
        exact hne hi

theorem pollInv_run {s₀ s : World W} {as : List (Label W)} (h0 : Init s₀)
    (hm : (system W).Meets Fits s₀ as) (hr : (system W).run s₀ as = some s) :
    PollInv s (pendings s₀ as) := by
  refine System.record_invariant (fun s a s' seen hi hfit hs => pollInv_step hi hfit hs) ?_ hm hr
  exact ⟨napInv_init h0, fun _ => h0.2.2.1, by simp⟩

/-- What an `advance` that first comes to the tick of the deadline wakes for the sleep. -/
theorem PollInv.wakes {s : World W} {seen : List W} (h : PollInv s seen) {now : Nat}
    (hfit : Fits s (.advance now)) (hearly : s.driver.wheel.cursor < dueTick s)
    (hreach : dueTick s ≤ instantToTickFloor s.driver.epoch now) {first : W}
    (hfirst : seen.head? = some first) :
    ∃ id, s.sleep.entryId = some id ∧ ∀ v, (id, v) ∈ (s.driver.advance now).2 ↔ v = first := by
  have hr := h.nap.readyAdvance hfit
  rcases h.first first hfirst with hle | ⟨id, hid, hp⟩
  · omega
  · refine ⟨id, hid, fun v => ?_⟩
    rw [hr.mem_advance, hp.1]
    constructor
    · intro hv
      exact (Option.some.inj hv.2).symm
    · intro hv
      exact ⟨(hp.due_iff hr.inv).mpr hreach, by rw [hv]⟩

/--
**A sleep wakes its latest poller exactly if that is its first.**

After any polls of a sleep, whose deadline is registered within the wheel's range and
whose driver overflows no counter: the `advance` that first comes to the tick of the
deadline wakes, for the id the sleep holds, the waker of the latest poll that returned
`Pending` if and only if the first such poll came with the same waker.
-/
theorem sleep_wakes_latest {s₀ s : World W} {as : List (Label W)} (h0 : Init s₀)
    (hm : (system W).Meets Fits s₀ as) (hr : (system W).run s₀ as = some s) {now : Nat}
    (hfit : Fits s (.advance now)) (hearly : s.driver.wheel.cursor < dueTick s)
    (hreach : dueTick s ≤ instantToTickFloor s.driver.epoch now) {latest : W}
    (hlatest : (pendings s₀ as).getLast? = some latest) :
    (∃ id, s.sleep.entryId = some id
        ∧ ∀ v, (id, v) ∈ (s.driver.advance now).2 ↔ v = latest)
      ↔ (pendings s₀ as).head? = some latest := by
  have hinv := pollInv_run h0 hm hr
  cases hhead : (pendings s₀ as).head? with
  | none =>
      rw [List.head?_eq_none_iff.mp hhead] at hlatest
      exact absurd hlatest (by simp)
  | some first =>
      obtain ⟨id, hid, hwakes⟩ := hinv.wakes hfit hearly hreach hhead
      constructor
      · intro hlast
        obtain ⟨id', hid', hwakes'⟩ := hlast
        obtain rfl := Option.some.inj (hid.symm.trans hid')
        exact congrArg some ((hwakes' first).mp ((hwakes first).mpr rfl))
      · intro heq
        obtain rfl := Option.some.inj heq
        exact ⟨id, hid, hwakes⟩

/-- Five milliseconds, polled twice by the same task. -/
def samePoller : List (Label Nat) := [.poll 7, .register, .poll 7, .tick 5000000]

theorem sleep_wakes_latest_samePoller :
    ∃ s, (system Nat).run (start 5000000) samePoller = some s
      ∧ ∃ id, s.sleep.entryId = some id ∧ ∀ v, (id, v) ∈ (s.driver.advance 5000000).2 ↔ v = 7 := by
  obtain ⟨s, hs⟩ := Option.isSome_iff_exists.mp
    (show ((system Nat).run (start 5000000) samePoller).isSome = true by decide +kernel)
  have hfacts : ∀ s ∈ (system Nat).run (start 5000000) samePoller,
      Fits s (.advance 5000000) ∧ s.driver.wheel.cursor < dueTick s
        ∧ dueTick s ≤ instantToTickFloor s.driver.epoch 5000000 := by
    decide +kernel
  obtain ⟨hfit, hearly, hreach⟩ := hfacts s hs
  exact ⟨s, hs, (sleep_wakes_latest (start_init _) (by decide +kernel) hs hfit hearly hreach
    (by decide +kernel)).mpr (by decide +kernel)⟩

/-- The sleep is moved to another task after its first poll. -/
def moved : List (Label Nat) := [.poll 7, .register, .poll 8, .tick 5000000]

theorem sleep_wakes_first :
    ∃ s, (system Nat).Meets Fits (start 5000000) moved
      ∧ (system Nat).run (start 5000000) moved = some s
      ∧ s.driver.wheel.cursor < dueTick s
      ∧ dueTick s ≤ instantToTickFloor s.driver.epoch 5000000
      ∧ (pendings (start 5000000) moved).getLast? = some 8
      ∧ s.sleep.entryId = some 0 ∧ (s.driver.advance 5000000).2 = [(0, 7)] := by
  obtain ⟨s, hs⟩ := Option.isSome_iff_exists.mp
    (show ((system Nat).run (start 5000000) moved).isSome = true by decide +kernel)
  have hfacts : ∀ s ∈ (system Nat).run (start 5000000) moved,
      s.driver.wheel.cursor < dueTick s
        ∧ dueTick s ≤ instantToTickFloor s.driver.epoch 5000000
        ∧ s.sleep.entryId = some 0 ∧ (s.driver.advance 5000000).2 = [(0, 7)] := by
    decide +kernel
  obtain ⟨hearly, hreach, hid, hfired⟩ := hfacts s hs
  exact ⟨s, by decide +kernel, hs, hearly, hreach, by decide +kernel, hid, hfired⟩

end Nanorun.Time.Nap
