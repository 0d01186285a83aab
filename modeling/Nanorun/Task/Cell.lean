import Nanorun.Task.References
import Nanorun.Task.RunToken

/-!
# Who may touch the stage cell

The cell has no lock. Before `COMPLETE` it belongs to the worker that owns
`RUNNING`; once `COMPLETE` is set it belongs to its *disposer*, the one party that
will move the output out or drop it. The disposer is the `JoinHandle` as long as
`JOIN_INTEREST` was set when the worker set `COMPLETE`, and that worker otherwise.

The invariant says that there is exactly one disposer while the output sits in a
completed cell, and none after; that the handle looks for the output only when
`COMPLETE` is set; and that neither side has panicked.
-/

namespace Nanorun.Task

open Bits Pool

variable {V W : Type}

/-! ## Roles -/

/-- The thread wrote the output and has yet to set `COMPLETE`. -/
def Frame.finishes : Frame V W → Nat
  | .setComplete _ => 1
  | _ => 0

/-- The thread set `COMPLETE` and still has the output or the join waker to see to. -/
def Frame.late : Frame V W → Nat
  | .clearRunning _ _ | .writeEmpty _ | .takeJoin _ | .wakeJoin _ _ => 1
  | _ => 0

/-- The thread will drop the output: it completed the task after the handle was gone. -/
def Frame.disposes : Frame V W → Nat
  | .clearRunning _ merged => (!has merged joinInterest).toNat
  | .writeEmpty _ => 1
  | _ => 0

def Frame.panics : Frame V W → Nat
  | .panicked _ => 1
  | _ => 0

/-- The handle has not given up its interest. -/
def Handle.interested : Handle V W → Bool
  | .dropCell | .dropRef | .dropped => false
  | _ => true

/-- The handle has seen `COMPLETE`. -/
def Handle.finished : Handle V W → Bool
  | .takeLoad | .takeCell | .dropRaw _ | .yielded _ | .dropCell => true
  | _ => false

/-- Once the task is complete, the handle will take or drop the output. -/
def Handle.disposes : Handle V W → Nat
  | .dropRaw _ | .yielded _ | .dropRef | .dropped | .panicked => 0
  | _ => 1

/-! ## The invariant -/

/-- The cell against the state word, the threads and the handle. -/
structure CellInv (t : RawTask V W) (fs : Multiset (Frame V W)) : Prop where
  /-- The bit says whether there is a `JoinHandle`. -/
  interest : has t.state joinInterest = t.handle.interested
  /-- The handle has seen `COMPLETE`. -/
  finished : t.handle.finished = true → has t.state complete = true
  /-- Until `COMPLETE` the future is in the cell, or the output a worker just wrote. -/
  before : has t.state complete = false → t.cell ≠ .empty ∧ weight Frame.late fs = 0
    ∧ weight Frame.finishes fs = t.cell.output.length
  /-- Then the output is there as long as someone has yet to dispose of it. -/
  after : has t.state complete = true → t.cell ≠ .pending
    ∧ weight Frame.disposes fs + t.handle.disposes = t.cell.output.length
  /-- One worker completes the task. -/
  late_le : weight Frame.late fs ≤ 1
  /-- Nobody panics. -/
  calm : weight Frame.panics fs = 0 ∧ t.handle ≠ .panicked

theorem Stage.output_le (s : Stage V) : s.output.length ≤ 1 := by
  cases s <;> simp [Stage.output]

theorem Stage.eq_ready {s : Stage V} (h : s.output.length = 1) : ∃ v, s = .ready v := by
  cases s with
  | ready v => exact ⟨v, rfl⟩
  | _ => exact absurd h (by simp [Stage.output])

theorem Stage.eq_empty {s : Stage V} (h : s.output.length = 0) (hp : s ≠ .pending) :
    s = .empty := by
  cases s with
  | pending => exact absurd rfl hp
  | ready v => exact absurd h (by simp [Stage.output])
  | empty => rfl

theorem Stage.eq_pending {s : Stage V} (h : s.output.length = 0) (he : s ≠ .empty) :
    s = .pending := by
  cases s with
  | pending => rfl
  | ready v => exact absurd h (by simp [Stage.output])
  | empty => exact absurd rfl he

theorem cellInv_init : CellInv (V := V) (W := W)
    (World.spawnRaw (V := V) (W := W)).task (World.spawnRaw (V := V) (W := W)).frames where
  interest := by simp [World.spawnRaw, Handle.interested]
  finished := by intro h; exact absurd h (by simp [World.spawnRaw, Handle.finished])
  before := by
    intro _
    refine ⟨by simp [World.spawnRaw], ?_, ?_⟩
    · rw [World.spawnRaw, weight_singleton]; rfl
    · rw [World.spawnRaw, weight_singleton]; rfl
  after := by
    intro h
    have hc : ¬ has (notified ||| joinInterest) complete = true := by decide
    exact absurd h hc
  late_le := by rw [World.spawnRaw, weight_singleton]; exact Nat.zero_le 1
  calm := by rw [World.spawnRaw, weight_singleton]; exact ⟨rfl, by simp⟩

/-! ## The worker that runs the task -/

/-- Nobody else runs the task. -/
theorem BitsInv.alone {t : RawTask V W} {f : Frame V W} {rest : Multiset (Frame V W)}
    (h : BitsInv t (f ::ₘ rest)) (hf : f.runs = 1) : weight Frame.runs rest = 0 := by
  have h1 := h.runs
  have h2 := active_le_one t.state
  rw [weight_cons] at h1
  omega

theorem BitsInv.not_complete {t : RawTask V W} {f : Frame V W} {fs : Multiset (Frame V W)}
    (h : BitsInv t fs) (hf : f ∈ fs) (hr : f.runs = 1) : has t.state complete = false := by
  have h1 := h.runs
  have h2 := le_weight (g := Frame.runs) hf
  unfold active at h1
  cases hc : has t.state complete with
  | false => rfl
  | true => rw [hc] at h1; simp at h1; omega

theorem Frame.finishes_le_runs (f : Frame V W) : f.finishes ≤ f.runs := by
  cases f <;> simp [Frame.finishes, Frame.runs]

/-- Until it writes the output, the worker that runs the task has the future in the cell. -/
theorem CellInv.pending_of_runs {t : RawTask V W} {f : Frame V W} {fs : Multiset (Frame V W)}
    (h : CellInv t fs) (hb : BitsInv t fs) (hf : f ∈ fs) (hr : f.runs = 1)
    (hfin : f.finishes = 0) : t.cell = .pending := by
  obtain ⟨rest, rfl⟩ := Multiset.exists_cons_of_mem hf
  obtain ⟨he, _, hcell⟩ := h.before (hb.not_complete hf hr)
  have h0 := hb.alone hr
  have h1 := weight_mono Frame.finishes_le_runs rest
  rw [weight_cons] at hcell
  exact Stage.eq_pending (by omega) he

/-! ## Steps -/

/-- A thread moves on and leaves the cell, the handle and the two bits as they are. -/
theorem CellInv.advance {t t' : RawTask V W} {f f' : Frame V W} {rest : Multiset (Frame V W)}
    (h : CellInv t (f ::ₘ rest)) (hc : has t'.state complete = has t.state complete)
    (hj : has t'.state joinInterest = has t.state joinInterest) (hcell : t'.cell = t.cell)
    (hh : t'.handle = t.handle) (hlate : f'.late ≤ f.late) (hfin : f'.finishes = f.finishes)
    (hd : f'.disposes = f.disposes) (hp : f'.panics = f.panics) : CellInv t' (f' ::ₘ rest) where
  interest := by rw [hj, hh]; exact h.interest
  finished := by rw [hc, hh]; exact h.finished
  before := by
    intro hn
    obtain ⟨h1, h2, h3⟩ := h.before (hc ▸ hn)
    rw [weight_cons] at h2 h3
    rw [weight_cons, weight_cons, hcell, hfin]
    exact ⟨h1, by omega, h3⟩
  after := by
    intro hn
    obtain ⟨h1, h2⟩ := h.after (hc ▸ hn)
    rw [weight_cons] at h2
    rw [weight_cons, hcell, hd, hh]
    exact ⟨h1, h2⟩
  late_le := by have := h.late_le; rw [weight_cons] at this ⊢; omega
  calm := by
    obtain ⟨h1, h2⟩ := h.calm
    rw [weight_cons] at h1 ⊢
    rw [hp, hh]
    exact ⟨h1, h2⟩

/-- The handle moves on and leaves the cell and `COMPLETE` as they are. -/
theorem CellInv.advance_handle {t t' : RawTask V W} {fs : Multiset (Frame V W)} (h : CellInv t fs)
    (hc : has t'.state complete = has t.state complete) (hcell : t'.cell = t.cell)
    (hj : has t'.state joinInterest = t'.handle.interested)
    (hfin : t'.handle.finished = true → has t.state complete = true)
    (hd : has t.state complete = true → t'.handle.disposes = t.handle.disposes)
    (hp : t'.handle ≠ .panicked) : CellInv t' fs where
  interest := hj
  finished := by rw [hc]; exact hfin
  before := by rw [hc, hcell]; exact h.before
  after := by
    intro hn
    rw [hc] at hn
    rw [hcell, hd hn]
    exact h.after hn
  late_le := h.late_le
  calm := ⟨h.calm.1, hp⟩

/-- The disposer empties the cell of a completed task. -/
theorem CellInv.dispose {t : RawTask V W} {fs : Multiset (Frame V W)} (h : CellInv t fs)
    (hc : has t.state complete = true) (hd : 0 < weight Frame.disposes fs + t.handle.disposes) :
    (∃ v, t.cell = .ready v) ∧ weight Frame.disposes fs + t.handle.disposes = 1 := by
  obtain ⟨_, h2⟩ := h.after hc
  have hle := Stage.output_le t.cell
  exact ⟨Stage.eq_ready (by omega), by omega⟩

theorem Frame.disposes_le_late (f : Frame V W) : f.disposes ≤ f.late := by
  cases f with
  | clearRunning wk merged => exact Bool.toNat_le _
  | _ => simp [Frame.disposes, Frame.late]

/-- Before `COMPLETE`, the handle is the one to dispose of the output as long as it is interested. -/
theorem CellInv.disposer_of_open {t : RawTask V W} {fs : Multiset (Frame V W)} (h : CellInv t fs)
    (hc : has t.state complete = false) :
    (!has t.state joinInterest).toNat + t.handle.disposes = 1 := by
  have hfin : t.handle.finished = false := by
    cases hf : t.handle.finished with
    | false => rfl
    | true => rw [h.finished hf] at hc; exact absurd hc (by simp)
  have hcalm := h.calm.2
  rw [h.interest]
  cases hd : t.handle with
  | panicked => exact absurd hd hcalm
  | takeLoad | takeCell | dropRaw _ | yielded _ | dropCell =>
      rw [hd] at hfin; exact absurd hfin (by simp [Handle.finished])
  | _ => rfl

theorem cellInv_thread {t t' : RawTask V W} {lent : Nat → Bool} {f f' : Frame V W}
    {rest : Multiset (Frame V W)} (h : CellInv t (f ::ₘ rest)) (hb : BitsInv t (f ::ₘ rest))
    (hr : RefInv t (f ::ₘ rest)) (hs : FrameStep t lent f t' f') : CellInv t' (f' ::ₘ rest) := by
  have hmem := Multiset.mem_cons_self f rest
  cases hs with
  | spawnJoin =>
      have hh := hr.spawning_of hmem rfl
      have hdone : CellInv t (.done ::ₘ rest) :=
        h.advance rfl rfl rfl rfl (Nat.le_refl _) rfl rfl rfl
      refine hdone.advance_handle rfl rfl ?_ (fun hf => absurd hf (by simp [Handle.finished]))
        (fun _ => by rw [hh]; rfl) (by simp)
      have := h.interest
      rw [hh] at this
      exact this
  | matchPanic hcell => exact absurd (h.pending_of_runs hb hmem rfl rfl) hcell
  | writeReady =>
      -- the future leaves the cell and the output takes its place
      have hcell := h.pending_of_runs hb hmem rfl rfl
      have hc := hb.not_complete hmem rfl
      obtain ⟨_, h2, h3⟩ := h.before hc
      rw [weight_cons] at h2 h3
      rw [hcell] at h3
      refine ⟨h.interest, h.finished, fun _ => ?_, fun hn => ?_, ?_, ?_⟩
      · rw [weight_cons, weight_cons]
        refine ⟨by simp [RawTask.writeCell], h2, ?_⟩
        simp only [Frame.finishes, Stage.output, List.length_nil, RawTask.writeCell,
          List.length_singleton] at h3 ⊢
        omega
      · exact absurd hn (by simp [RawTask.writeCell, hc])
      · have := h.late_le; rw [weight_cons] at this ⊢; exact this
      · have := h.calm; rw [weight_cons] at this ⊢; exact this
  | setComplete =>
      -- the disposer is the handle if its interest is still there, else this worker
      have hc := hb.not_complete hmem rfl
      obtain ⟨_, hlate, hcell⟩ := h.before hc
      have hone := Stage.output_le t.cell
      have hzero := weight_mono Frame.disposes_le_late rest
      rw [weight_cons] at hlate hcell
      simp only [Frame.finishes] at hcell
      obtain ⟨v, hv⟩ := Stage.eq_ready (s := t.cell) (by omega)
      refine ⟨by simpa using h.interest, fun _ => by simp, fun hn => ?_, fun _ => ?_, ?_, ?_⟩
      · exact absurd hn (by simp)
      · refine ⟨by rw [hv]; simp, ?_⟩
        have hown : (!has t.state joinInterest).toNat + t.handle.disposes = 1 :=
          h.disposer_of_open hc
        have hmerged : has (t.state ||| complete) joinInterest = has t.state joinInterest := by simp
        rw [weight_cons, hv, Frame.disposes, hmerged]
        simp only [Stage.output, List.length_singleton]
        omega
      · rw [weight_cons]; simp only [Frame.late]; omega
      · have := h.calm; rw [weight_cons] at this ⊢; exact this
  | @clearRunning wk merged =>
      refine h.advance (by simp) (by simp) rfl rfl ?_ ?_ ?_ ?_
      · exact afterComplete_ind (P := fun f => f.late ≤ 1) (Nat.le_refl _) (Nat.le_refl _)
          (Nat.zero_le _)
      · exact afterComplete_ind (P := fun f => f.finishes = 0) rfl rfl rfl
      · unfold afterComplete
        simp only [Frame.disposes]
        cases has merged joinInterest <;> cases has merged joinWaker <;> rfl
      · exact afterComplete_ind (P := fun f => f.panics = 0) rfl rfl rfl
  | @writeEmpty wk =>
      have hlate : weight Frame.late (.writeEmpty wk ::ₘ rest) ≠ 0 := by
        rw [weight_cons]; simp [Frame.late]
      have hc : has t.state complete = true := by
        cases hn : has t.state complete with
        | true => rfl
        | false => exact absurd (h.before hn).2.1 hlate
      have hd := (h.dispose hc (by rw [weight_cons]; simp only [Frame.disposes]; omega)).2
      rw [weight_cons] at hd
      simp only [Frame.disposes] at hd
      refine ⟨h.interest, h.finished, fun hn => ?_, fun _ => ⟨by simp [RawTask.writeCell], ?_⟩, ?_, ?_⟩
      · exact absurd hn (by simp [RawTask.writeCell, hc])
      · rw [weight_cons]
        simp only [Frame.disposes, RawTask.writeCell, Stage.output, List.length_nil]
        omega
      · have := h.late_le; rw [weight_cons] at this ⊢; simp only [Frame.late] at this ⊢; omega
      · have := h.calm; rw [weight_cons] at this ⊢; exact this
  | casWon _ => exact h.advance (by simp) (by simp) rfl rfl (Nat.le_refl _) rfl rfl rfl
  | resched _ => exact h.advance (by simp) (by simp) rfl rfl (Nat.le_refl _) rfl rfl rfl
  | park _ => exact h.advance (by simp) (by simp) rfl rfl (Nat.le_refl _) rfl rfl rfl
  | wokeBusy _ => exact h.advance (by simp) (by simp) rfl rfl (Nat.le_refl _) rfl rfl rfl
  | wokeIdle _ => exact h.advance (by simp) (by simp) rfl rfl (Nat.le_refl _) rfl rfl rfl
  | takeNone _ => exact h.advance rfl rfl rfl rfl (Nat.zero_le _) rfl rfl rfl
  | wakeJoin => exact h.advance rfl rfl rfl rfl (Nat.zero_le _) rfl rfl rfl
  | @schedUnpark who =>
      obtain ⟨hlate, hfin, hd, hp⟩ := back_ind (V := V) (W := W)
        (P := fun f => f.late = 0 ∧ f.finishes = 0 ∧ f.disposes = 0 ∧ f.panics = 0) who
        ⟨rfl, rfl, rfl, rfl⟩ (fun _ => ⟨rfl, rfl, rfl, rfl⟩)
      exact h.advance rfl rfl rfl rfl (Nat.le_of_eq hlate) hfin hd hp
  | @release who =>
      obtain ⟨hlate, hfin, hd, hp⟩ := back_ind (V := V) (W := W)
        (P := fun f => f.late = 0 ∧ f.finishes = 0 ∧ f.disposes = 0 ∧ f.panics = 0) who
        ⟨rfl, rfl, rfl, rfl⟩ (fun _ => ⟨rfl, rfl, rfl, rfl⟩)
      exact h.advance rfl rfl rfl rfl (Nat.le_of_eq hlate) hfin hd hp
  | _ => exact h.advance rfl rfl rfl rfl (Nat.le_refl _) rfl rfl rfl

/-- The handle that goes for the output finds it. -/
theorem CellInv.ready_of_take {t : RawTask V W} {fs : Multiset (Frame V W)} (h : CellInv t fs)
    (hh : t.handle = .takeCell) : ∃ v, t.cell = .ready v := by
  have hc := h.finished (by rw [hh]; rfl)
  exact (h.dispose hc (by rw [hh]; simp only [Handle.disposes]; omega)).1

theorem cellInv_handle {t t' : RawTask V W} {fs : Multiset (Frame V W)} (h : CellInv t fs)
    (hs : HandleStep t t.handle t') : CellInv t' fs := by
  have hint := h.interest
  have hfin := h.finished
  generalize hd : t.handle = d at hs
  rw [hd] at hint hfin
  -- the disposer takes or drops the output
  have empties : d.disposes = 1 → has t.state complete = true → ∀ u : RawTask V W,
      u.state = t.state → u.cell = .empty → u.handle.disposes = 0 →
      u.handle.interested = d.interested → u.handle ≠ .panicked → CellInv u fs := by
    intro hone hc u hstate hcell hdis hinterest hcalm
    have hd1 := (h.dispose hc (by rw [hd]; omega)).2
    rw [hd] at hd1
    refine ⟨by rw [hstate, hinterest]; exact hint, fun _ => by rw [hstate]; exact hc, fun hn => ?_,
      fun _ => ?_, h.late_le, h.calm.1, hcalm⟩
    · rw [hstate, hc] at hn; exact absurd hn (by simp)
    · rw [hcell, hdis]
      simp only [ne_eq, reduceCtorEq, not_false_eq_true, Stage.output, List.length_nil, true_and]
      omega
  cases hs with
  | load1Done hc =>
      exact h.advance_handle rfl rfl hint (fun _ => hc) (fun _ => by rw [hd]; rfl) (by simp)
  | load2Done hc =>
      exact h.advance_handle rfl rfl hint (fun _ => hc) (fun _ => by rw [hd]; rfl) (by simp)
  | takeLoad hc =>
      exact h.advance_handle rfl rfl hint (fun _ => hc) (fun _ => by rw [hd]; rfl) (by simp)
  | takeLoadPanic hc => rw [hfin rfl] at hc; exact absurd hc (by simp)
  | takeCell _ => exact empties rfl (hfin rfl) _ rfl rfl rfl rfl (by simp)
  | takeCellPanic hcell =>
      obtain ⟨v, hv⟩ := h.ready_of_take hd
      exact absurd hv (hcell v)
  | dropRaw =>
      exact h.advance_handle rfl rfl hint (fun _ => hfin rfl) (fun _ => by rw [hd]; rfl) (by simp)
  | dropFetchDone hc =>
      exact h.advance_handle (by simp) rfl (by simp [Handle.interested]) (fun _ => hc)
        (fun _ => by rw [hd]; rfl) (by simp)
  | dropFetch hc =>
      -- the worker will see that nobody is interested
      refine h.advance_handle (by simp) rfl (by simp [Handle.interested]) (fun hf => ?_)
        (fun hn => ?_) (by simp)
      · exact absurd hf (by simp [Handle.finished])
      · rw [hc] at hn; exact absurd hn (by simp)
  | dropCell => exact empties rfl (hfin rfl) _ rfl rfl rfl rfl (by simp)
  | setBit =>
      refine h.advance_handle (by simp) rfl (by simpa [Handle.interested] using hint) (fun hf => ?_)
        (fun _ => by rw [hd]; rfl) (by simp)
      exact absurd hf (by simp [Handle.finished])
  | _ =>
      refine h.advance_handle rfl rfl hint (fun hf => ?_) (fun _ => by rw [hd]; rfl) (by simp)
      exact absurd hf (by simp [Handle.finished])

/-- A thread without a part in completing the task appears. -/
theorem CellInv.join {t t' : RawTask V W} {f : Frame V W} {fs : Multiset (Frame V W)}
    (h : CellInv t fs) (hstate : t'.state = t.state) (hcell : t'.cell = t.cell)
    (hh : t'.handle = t.handle) (hlate : f.late = 0) (hfin : f.finishes = 0)
    (hd : f.disposes = 0) (hp : f.panics = 0) : CellInv t' (f ::ₘ fs) where
  interest := by rw [hstate, hh]; exact h.interest
  finished := by rw [hstate, hh]; exact h.finished
  before := by
    rw [hstate, hcell, weight_cons, weight_cons, hlate, hfin, Nat.zero_add, Nat.zero_add]
    exact h.before
  after := by rw [hstate, hcell, hh, weight_cons, hd, Nat.zero_add]; exact h.after
  late_le := by rw [weight_cons, hlate, Nat.zero_add]; exact h.late_le
  calm := by rw [weight_cons, hp, hh, Nat.zero_add]; exact h.calm

/-- **The cell invariant is preserved by every step.** -/
theorem cellInv_step {t t' : RawTask V W} {fs fs' : Multiset (Frame V W)} (h : CellInv t fs)
    (hb : BitsInv t fs) (hr : RefInv t fs) (hs : WorldStep t fs t' fs') : CellInv t' fs' := by
  cases hs with
  | thread hf => exact cellInv_thread h hb hr hf
  | dequeue _ hd =>
      cases hd with
      | _ => exact h.join rfl rfl rfl rfl rfl rfl rfl
  | wake _ _ => exact h.join rfl rfl rfl rfl rfl rfl rfl
  | wakeByRef _ => exact h.join rfl rfl rfl rfl rfl rfl rfl
  | handle hh => exact cellInv_handle h hh
  | _ => exact ⟨h.interest, h.finished, h.before, h.after, h.late_le, h.calm⟩

/-- What holds of every reachable task: tokens, references and the cell. -/
structure TaskInv (t : RawTask V W) (fs : Multiset (Frame V W)) : Prop where
  bits : BitsInv t fs
  refs : RefInv t fs
  cell : CellInv t fs

theorem taskInv_step {t t' : RawTask V W} {fs fs' : Multiset (Frame V W)} (h : TaskInv t fs)
    (hs : WorldStep t fs t' fs') : TaskInv t' fs' :=
  ⟨bitsInv_step h.bits hs, refInv_step h.refs hs, cellInv_step h.cell h.bits h.refs hs⟩

theorem taskInv_reachable [DecidableEq V] [DecidableEq W] {w : World V W}
    (h : (taskSystem V W).Reachable w) : TaskInv w.task w.frames :=
  task_invariant (I := TaskInv) ⟨bitsInv_init, refInv_init, cellInv_init⟩
    taskInv_step h

/-! ## Exclusive use -/

/-- The thread is inside a section that touches the cell. -/
def Frame.inCell : Frame V W → Nat
  | .matchStage _ | .polling _ | .writeReady _ _ | .writeEmpty _ => 1
  | _ => 0

/-- The handle is inside a section that touches the cell. -/
def Handle.inCell : Handle V W → Nat
  | .takeCell | .dropCell => 1
  | _ => 0

/-- `poll_fn` has won `RUNNING` and has not written the output. -/
def Frame.won : Frame V W → Bool
  | .mkWaker | .matchStage _ | .polling _ | .writeReady _ _ | .clearPending _ => true
  | _ => false

theorem Frame.inCell_le (f : Frame V W) : f.inCell ≤ f.runs + f.disposes := by
  cases f <;> simp [Frame.inCell, Frame.runs, Frame.disposes]

/-- **At most one party is inside a section that touches the cell.** -/
theorem TaskInv.exclusive {t : RawTask V W} {fs : Multiset (Frame V W)} (h : TaskInv t fs) :
    weight Frame.inCell fs + t.handle.inCell ≤ 1 := by
  have hsum := weight_mono Frame.inCell_le fs
  rw [weight_add] at hsum
  have hruns := h.bits.runs
  cases hc : has t.state complete with
  | false =>
      -- the owner of `RUNNING`, and no disposer yet
      obtain ⟨_, hlate, _⟩ := h.cell.before hc
      have hdis := weight_mono Frame.disposes_le_late fs
      have hle := active_le_one t.state
      have hh : t.handle.inCell = 0 := by
        have hfin := h.cell.finished
        cases hd : t.handle with
        | takeCell => rw [hd, hc] at hfin; exact absurd (hfin rfl) (by simp)
        | dropCell => rw [hd, hc] at hfin; exact absurd (hfin rfl) (by simp)
        | _ => rfl
      omega
  | true =>
      -- the disposer, and nobody runs
      obtain ⟨_, hdis⟩ := h.cell.after hc
      have hle := Stage.output_le t.cell
      have hact : active t.state = 0 := by simp [active, hc]
      have hh : t.handle.inCell ≤ t.handle.disposes := by
        cases t.handle <;> simp [Handle.inCell, Handle.disposes]
      omega

/--
**Exclusive use of the stage cell.**

In every reachable state at most one party is inside a section that touches the
cell. From winning `RUNNING` until it writes the output, `poll_fn` has the future
in the cell, so its `unreachable!` is never taken; and `JoinHandle::poll` never
finds the output already taken.
-/
theorem cell_exclusive [DecidableEq V] [DecidableEq W] {w : World V W}
    (h : (taskSystem V W).Reachable w) :
    weight Frame.inCell w.frames + w.task.handle.inCell ≤ 1
    ∧ (∀ f ∈ w.frames, f.won = true → w.task.cell = .pending)
    ∧ (∀ wk, .panicked wk ∉ w.frames)
    ∧ w.task.handle ≠ .panicked := by
  have hinv := taskInv_reachable h
  refine ⟨hinv.exclusive, fun f hf hwon => ?_, fun wk hmem => ?_, hinv.cell.calm.2⟩
  · refine hinv.cell.pending_of_runs hinv.bits hf ?_ ?_
    · cases f <;> first | rfl | exact absurd hwon (by simp [Frame.won])
    · cases f <;> first | rfl | exact absurd hwon (by simp [Frame.won])
  · exact absurd (eq_zero_of_weight hmem hinv.cell.calm.1) (by simp [Frame.panics])

/-- Spawn the task and poll it to completion, up to clearing `RUNNING`. -/
def runReady : List (Label Unit Unit) :=
  [.thread .spawnPush .go, .thread .spawnJoin .go, .pop, .thread .popped .go,
   .thread (.cas (notified ||| joinInterest)) .go, .thread .mkWaker .go,
   .thread (.matchStage 0) .go, .thread (.polling 0) (.ready ()), .thread (.writeReady 0 ()) .go,
   .thread (.setComplete 0) .go]

/-- The handle takes the output before the worker has cleared `RUNNING`, and has it for itself. -/
theorem cell_exclusive_early_take :
    ((taskSystem Unit Unit).exec World.spawnRaw
        (runReady ++ [.handle (.poll ()), .handle .step, .handle .step])).task.handle = .takeCell
    ∧ weight Frame.inCell ((taskSystem Unit Unit).exec World.spawnRaw
        (runReady ++ [.handle (.poll ()), .handle .step, .handle .step])).frames = 0 := by
  have hr : (taskSystem Unit Unit).Reachable ((taskSystem Unit Unit).exec World.spawnRaw
      (runReady ++ [.handle (.poll ()), .handle .step, .handle .step])) := .exec (.init rfl)
  have hle := (cell_exclusive hr).1
  have hh : ((taskSystem Unit Unit).exec World.spawnRaw
      (runReady ++ [.handle (.poll ()), .handle .step, .handle .step])).task.handle = .takeCell := by
    decide +kernel
  rw [hh] at hle
  simp only [Handle.inCell] at hle
  exact ⟨hh, by omega⟩

end Nanorun.Task
