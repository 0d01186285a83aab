import Nanorun.Task.References

/-!
# Which accesses to a task are covered by a strong count

A thread that still has a step to take that reads the allocation must find it
alive. Every thread but one kind holds a count for that, or borrows a waker that
does: a by-value wake of an idle task gives its only count to the run queue at
`push_global` and then reads `self.shared` twice more, for
`wake_driver_if_parked` and `unpark_one`. Meanwhile another worker may pop the
task, finish it and free it.

`Outlives` is the condition on a step that excludes exactly this: the last count
is not given up while a by-value wake is on that stretch.
-/

namespace Nanorun.Task

open Bits Pool

variable {V W : Type}

/-- The call still has a step to take that reads a field of the allocation. -/
def Frame.reads : Frame V W → Bool
  | .popped | .cas _ | .mkWaker | .matchStage _ | .polling _ | .writeReady _ _
  | .setComplete _ | .clearRunning _ _ | .writeEmpty _ | .takeJoin _ | .clearPending _
  | .incResched _ | .wakeClone _ | .fetchNotified _ | .schedShutdown _ | .schedPush _
  | .schedParked _ | .schedUnpark _ => true
  | _ => false

/-- The handle is inside `JoinHandle::poll`, `try_take_output_fn` or `drop_join_interest_fn`. -/
def Handle.reads : Handle V W → Bool
  | .load1 _ | .install _ | .setBit _ | .load2 _ | .takeLoad | .takeCell
  | .dropFetch | .dropCell => true
  | _ => false

/-- Whoever still reads the allocation finds it alive. -/
def World.Covered (w : World V W) : Prop :=
  (∀ f ∈ w.frames, f.reads = true → w.task.freed = false)
    ∧ (w.task.handle.reads = true → w.task.freed = false)

/-- A by-value wake after its push: it holds no count and has `self.shared` yet to read. -/
def Frame.tail : Frame V W → Bool
  | .schedParked .value | .schedUnpark .value => true
  | _ => false

/-- The thread holds a count, or its caller borrows a waker that does. -/
def Frame.held (t : RawTask V W) (f : Frame V W) : Prop :=
  0 < f.owns ∨ ∃ wk, f.borrows = some wk
    ∧ (t.wakers[wk]? = some .owned ∨ t.wakers[wk]? = some .lent)

/-- The step gives up one strong count. -/
def releases (t : RawTask V W) : Label V W → Bool
  | .thread (.dropWaker _) _ | .thread .dropArc _ | .thread (.release _) _ | .dropWaker _ => true
  | .handle .step =>
      match t.handle with
      | .dropRaw _ | .dropRef => true
      | _ => false
  | _ => false

/-- The last count is not given up while a by-value wake is between its push and its last read. -/
def Outlives (w : World V W) (l : Label V W) : Prop :=
  w.task.strong = 1 → releases w.task l = true → ∀ f ∈ w.frames, f.tail = false

instance (w : World V W) (l : Label V W) : Decidable (Outlives w l) :=
  inferInstanceAs (Decidable (_ → _ → _))

/-- Every reader but a by-value wake after its push is covered. -/
theorem held_of_reads {t : RawTask V W} {fs : Multiset (Frame V W)} (h : RefInv t fs)
    {f : Frame V W} (hf : f ∈ fs) (hr : f.reads = true) (ht : f.tail = false) : f.held t := by
  have borrow : ∀ wk, f.borrows = some wk → f.held t := fun wk hb =>
    .inr ⟨wk, hb, h.borrows f hf wk hb⟩
  have own : 0 < f.owns → f.held t := .inl
  cases f with
  | wakeClone wk => exact borrow wk rfl
  | fetchNotified who => exact own (by simp only [Frame.owns]; omega)
  | schedShutdown who => exact own (by simp only [Frame.owns]; omega)
  | schedPush who => exact own (by simp only [Frame.owns]; omega)
  | schedParked who =>
      cases who with
      | value => exact absurd ht (by simp [Frame.tail])
      | byRef wk => exact borrow wk rfl
      | poll wk => exact own (by simp [Frame.owns, Caller.holds])
  | schedUnpark who =>
      cases who with
      | value => exact absurd ht (by simp [Frame.tail])
      | byRef wk => exact borrow wk rfl
      | poll wk => exact own (by simp [Frame.owns, Caller.holds])
  | spawnJoin => exact absurd hr (by simp [Frame.reads])
  | done => exact absurd hr (by simp [Frame.reads])
  | release who => exact absurd hr (by simp [Frame.reads])
  | _ => exact own (by simp [Frame.owns])

theorem alive_of_held {t : RawTask V W} {fs : Multiset (Frame V W)} (h : RefInv t fs)
    {f : Frame V W} (hf : f ∈ fs) (hh : f.held t) : t.freed = false := by
  rcases hh with ho | ⟨wk, hb, _⟩
  · exact h.not_freed (h.alive_of_owns hf ho)
  · exact h.not_freed (h.alive_of_borrows hf hb)

theorem Handle.owns_of_reads {h : Handle V W} (hr : h.reads = true) : h.owns = 1 := by
  cases h <;> first | rfl | exact absurd hr (by simp [Handle.reads])

/-- Only a by-value wake after its push can find the task freed. -/
theorem covered_iff {w : World V W} (h : RefInv w.task w.frames) :
    w.Covered ↔ ∀ f ∈ w.frames, f.tail = true → w.task.freed = false := by
  constructor
  · intro hc f hf ht
    refine hc.1 f hf ?_
    cases f <;> first | rfl | exact absurd ht (by simp [Frame.tail])
  · intro ht
    refine ⟨fun f hf hr => ?_, fun hr => ?_⟩
    · cases htail : f.tail with
      | true => exact ht f hf htail
      | false => exact alive_of_held h hf (held_of_reads h hf hr htail)
    · exact h.not_freed (h.alive_of_handle (by rw [Handle.owns_of_reads hr]; omega))

/-! ## What a step does to the free mark -/

/-- A thread that gives up a count is not a by-value wake, before or after. -/
theorem frame_releases {t t' : RawTask V W} {lent : Nat → Bool} {f f' : Frame V W} {c : Choice V}
    (h : FrameStep t lent f t' f') :
    if releases t (.thread f c) then
      t'.freed = (t.freed || decide (t.strong = 1)) ∧ f.tail = false ∧ f'.tail = false
    else t'.freed = t.freed := by
  cases h with
  | dropWaker => exact ⟨rfl, rfl, rfl⟩
  | dropArc => exact ⟨rfl, rfl, rfl⟩
  | release => exact ⟨rfl, rfl, back_ind (P := fun f => f.tail = false) _ rfl (fun _ => rfl)⟩
  | _ => rfl

theorem handle_releases {t t' : RawTask V W} {op : HandleOp W} (h : handleNext t op = some t') :
    if releases t (.handle op) then t'.freed = (t.freed || decide (t.strong = 1))
    else t'.freed = t.freed := by
  unfold handleNext at h
  split at h
  case h_7 hh =>
    simp only [releases, hh]
    split at h <;> cases h <;> rfl
  case h_15 => exact absurd h (by simp)
  all_goals (rename_i hh; cases h; simp [releases, hh, RawTask.release, RawTask.writeCell])

theorem dequeue_freed {w w' : World V W} {f : Frame V W} (h : w.dequeue f = some w') :
    w'.task.freed = w.task.freed := by
  unfold World.dequeue at h
  split at h
  · cases h; rfl
  · exact absurd h (by simp)

/-- A by-value wake comes onto its last stretch from its push, where it holds a count. -/
theorem tail_step {t t' : RawTask V W} {fs fs' : Multiset (Frame V W)} (h : WorldStep t fs t' fs')
    {f' : Frame V W} (hf' : f' ∈ fs') (ht : f'.tail = true) :
    ∃ f ∈ fs, f.tail = true ∨ 0 < f.owns := by
  have mem : ∀ {f g : Frame V W} {rest : Multiset (Frame V W)}, f' ∈ g ::ₘ rest → g.tail = false →
      ∃ f₀ ∈ f ::ₘ rest, f₀.tail = true ∨ 0 < f₀.owns := by
    intro f g rest hm hg
    rcases Multiset.mem_cons.mp hm with rfl | hm
    · rw [hg] at ht; exact absurd ht (by simp)
    · exact ⟨f', Multiset.mem_cons_of_mem hm, .inl ht⟩
  have new : ∀ {g : Frame V W}, f' ∈ g ::ₘ fs → g.tail = false →
      ∃ f₀ ∈ fs, f₀.tail = true ∨ 0 < f₀.owns := by
    intro g hm hg
    rcases Multiset.mem_cons.mp hm with rfl | hm
    · rw [hg] at ht; exact absurd ht (by simp)
    · exact ⟨f', hm, .inl ht⟩
  cases h with
  | thread hf =>
      cases hf with
      | @schedPush who =>
          exact ⟨_, Multiset.mem_cons_self _ _, .inr (by simp only [Frame.owns]; omega)⟩
      | @schedParked who =>
          cases who with
          | value => exact ⟨_, Multiset.mem_cons_self _ _, .inl rfl⟩
          | _ => exact mem hf' rfl
      | clearRunning => exact mem hf' (afterComplete_ind (P := fun f => f.tail = false) rfl rfl rfl)
      | schedUnpark => exact mem hf' (back_ind (P := fun f => f.tail = false) _ rfl (fun _ => rfl))
      | release => exact mem hf' (back_ind (P := fun f => f.tail = false) _ rfl (fun _ => rfl))
      | _ => exact mem hf' rfl
  | dequeue _ hd => cases hd <;> exact new hf' rfl
  | wake _ _ => exact new hf' rfl
  | wakeByRef _ => exact new hf' rfl
  | _ => exact ⟨f', hf', .inl ht⟩

section

variable [DecidableEq V] [DecidableEq W]

/-- A step that gives up a count frees the task if it was the last, beside the same wakes. -/
theorem step_releases {w w' : World V W} {l : Label V W} (h : w.step l = some w')
    (hr : releases w.task l = true) :
    w'.task.freed = (w.task.freed || decide (w.task.strong = 1))
      ∧ ∀ f : Frame V W, f.tail = true → (f ∈ w'.frames ↔ f ∈ w.frames) := by
  cases l with
  | thread f c =>
      rw [World.step] at h
      split at h
      · rename_i hmem
        obtain ⟨⟨t', f'⟩, hn, rfl⟩ := Option.map_eq_some_iff.mp h
        have hstep := frame_releases (c := c) (frameNext_step hn)
        rw [if_pos hr] at hstep
        obtain ⟨hfreed, hf, hf'⟩ := hstep
        refine ⟨hfreed, fun g hg => ?_⟩
        have hne : g ≠ f := by rintro rfl; rw [hf] at hg; exact absurd hg (by simp)
        have hne' : g ≠ f' := by rintro rfl; rw [hf'] at hg; exact absurd hg (by simp)
        rw [Multiset.mem_cons, Multiset.mem_erase_of_ne hne]
        exact or_iff_right hne'
      · exact absurd h (by simp)
  | dropWaker wk =>
      rw [World.step] at h
      split at h
      · cases h; exact ⟨rfl, fun _ _ => Iff.rfl⟩
      · exact absurd h (by simp)
  | handle op =>
      obtain ⟨t', hn, rfl⟩ := Option.map_eq_some_iff.mp h
      have hstep := handle_releases hn
      rw [if_pos hr] at hstep
      exact ⟨hstep, fun _ _ => Iff.rfl⟩
  | _ => exact absurd hr (by simp [releases])

/-- Any other step leaves the free mark alone. -/
theorem step_keeps {w w' : World V W} {l : Label V W} (h : w.step l = some w')
    (hr : releases w.task l = false) : w'.task.freed = w.task.freed := by
  cases l with
  | thread f c =>
      rw [World.step] at h
      split at h
      · obtain ⟨⟨t', f'⟩, hn, rfl⟩ := Option.map_eq_some_iff.mp h
        have hstep := frame_releases (c := c) (frameNext_step hn)
        rw [if_neg (by simp [hr])] at hstep
        exact hstep
      · exact absurd h (by simp)
  | pop => exact dequeue_freed h
  | steal => exact dequeue_freed h
  | drain =>
      rw [World.step] at h
      split at h
      · exact dequeue_freed h
      · exact absurd h (by simp)
  | shutdown => cases h; rfl
  | wake wk =>
      rw [World.step] at h
      split at h
      · cases h; rfl
      · exact absurd h (by simp)
  | wakeByRef wk =>
      rw [World.step] at h
      split at h
      · cases h; rfl
      · exact absurd h (by simp)
  | cloneWaker wk =>
      rw [World.step] at h
      split at h
      · cases h; rfl
      · exact absurd h (by simp)
  | dropWaker wk => exact absurd hr (by simp [releases])
  | handle op =>
      obtain ⟨t', hn, rfl⟩ := Option.map_eq_some_iff.mp h
      have hstep := handle_releases hn
      rw [if_neg (by simp [hr])] at hstep
      exact hstep

/-- From a covered state a step leads to a covered state exactly if it meets `Outlives`. -/
theorem covered_step {w w' : World V W} {l : Label V W} (hr : (taskSystem V W).Reachable w)
    (hc : w.Covered) (h : w.step l = some w') : w'.Covered ↔ Outlives w l := by
  have hinv := refInv_reachable hr
  rw [covered_iff hinv] at hc
  rw [covered_iff (refInv_reachable (reachable_step hr h))]
  -- a wake on its last stretch found the task alive before the step
  have halive : ∀ f' ∈ w'.frames, f'.tail = true → w.task.freed = false := by
    intro f' hf' ht
    obtain ⟨f, hf, hft | hown⟩ := tail_step (step_worldStep h) hf' ht
    · exact hc f hf hft
    · exact hinv.not_freed (hinv.alive_of_owns hf hown)
  cases hrel : releases w.task l with
  | false =>
      have hkeep := step_keeps h hrel
      refine iff_of_true (fun f' hf' ht => ?_) (fun _ hr' => ?_)
      · rw [hkeep]; exact halive f' hf' ht
      · rw [hrel] at hr'; exact absurd hr' (by simp)
  | true =>
      obtain ⟨hfreed, hframes⟩ := step_releases h hrel
      constructor
      · intro hcov hone _ f hf
        cases htail : f.tail with
        | false => rfl
        | true =>
            have := hcov f ((hframes f htail).mpr hf) htail
            rw [hfreed, hone] at this
            exact absurd this (by simp)
      · intro hout f' hf' ht
        have hf := (hframes f' ht).mp hf'
        rw [hfreed, halive f' hf' ht, Bool.false_or, decide_eq_false_iff_not]
        intro hone
        have := hout hone hrel f' hf
        rw [ht] at this
        exact absurd this (by simp)

/--
**When accesses are covered.**

In every run whose steps all meet `Outlives`, whoever still reads the allocation
finds it alive, and a step out of such a run keeps this exactly if it meets
`Outlives` too. Every reader other than a by-value wake after its push holds a
count itself, or its caller borrows a waker that does.
-/
theorem access_covered {w : World V W} (h : (taskSystem V W).ReachableVia Outlives w) :
    w.Covered
    ∧ (∀ f ∈ w.frames, f.reads = true → f.tail = false → f.held w.task)
    ∧ (w.task.handle.reads = true → w.task.handle.owns = 1)
    ∧ ∀ l w', w.step l = some w' → (w'.Covered ↔ Outlives w l) := by
  have hinv := refInv_reachable h.reachable
  have hc : w.Covered := by
    induction h with
    | init hi =>
        cases hi
        exact ⟨fun _ _ _ => rfl, fun _ => rfl⟩
    | tail hr hok hstep ih =>
        exact (covered_step hr.reachable (ih (refInv_reachable hr.reachable)) hstep).mpr hok
  exact ⟨hc, fun f hf hr ht => held_of_reads hinv hf hr ht, Handle.owns_of_reads,
    fun l w' hstep => covered_step h.reachable hc hstep⟩

end

/-! ## Two runs -/

/-- Spawn and poll the task once; the future keeps a clone of its waker and returns `Pending`. -/
def pollOnce : List (Label Unit Unit) :=
  [.thread .spawnPush .go, .thread .spawnJoin .go, .pop, .thread .popped .go,
   .thread (.cas (notified ||| joinInterest)) .go, .thread .mkWaker .go,
   .thread (.matchStage 0) .go, .cloneWaker 0, .thread (.polling 0) .pending,
   .thread (.clearPending 0) .go, .thread (.dropWaker 0) .go, .thread .dropArc .go]

/-- The clone is woken by value, up to and including the push. -/
def wakeByValue : List (Label Unit Unit) :=
  [.wake 1, .thread (.fetchNotified .value) .go, .thread (.schedShutdown .value) .go,
   .thread (.schedPush .value) .go]

/-- The handle is dropped while the task is idle. -/
def detach : List (Label Unit Unit) := [.handle .drop, .handle .step, .handle .step]

/-- A worker pops the detached task and the future returns `Ready`. -/
def finish : List (Label Unit Unit) :=
  [.pop, .thread .popped .go, .thread (.cas notified) .go, .thread .mkWaker .go,
   .thread (.matchStage 2) .go, .thread (.polling 2) (.ready ()), .thread (.writeReady 2 ()) .go,
   .thread (.setComplete 2) .go, .thread (.clearRunning 2 (running ||| complete)) .go,
   .thread (.writeEmpty 2) .go, .thread (.dropWaker 2) .go, .thread .dropArc .go]

/-- With the handle alive the by-value wake is covered to its end. -/
theorem access_covered_joined :
    .schedParked .value ∈ ((taskSystem Unit Unit).exec World.spawnRaw (pollOnce ++ wakeByValue)).frames
      ∧ ((taskSystem Unit Unit).exec World.spawnRaw (pollOnce ++ wakeByValue)).Covered := by
  have hr : (taskSystem Unit Unit).ReachableVia Outlives
      ((taskSystem Unit Unit).exec World.spawnRaw (pollOnce ++ wakeByValue)) :=
    .exec (.init rfl) (by decide +kernel)
  exact ⟨by decide +kernel, (access_covered hr).1⟩

/-- Detached, the task is freed under a by-value wake that has yet to read `self.shared` twice. -/
theorem wake_reads_freed :
    ¬ ∀ w : World Unit Unit, (taskSystem Unit Unit).Reachable w → w.Covered := by
  intro h
  have hc := h ((taskSystem Unit Unit).exec World.spawnRaw (pollOnce ++ detach ++ wakeByValue ++ finish))
    (.exec (.init rfl))
  have hfreed := hc.1 (.schedParked .value) (by decide +kernel) rfl
  exact absurd hfreed (by decide +kernel)

end Nanorun.Task
