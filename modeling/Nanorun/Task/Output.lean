import Nanorun.Task.Cell

/-!
# The output is delivered or destroyed once

Every output the future returned is in exactly one place: with the worker about
to write it, in the cell, moved out to the owner of the `JoinHandle`, or dropped.
The future returns at most one, because `RUNNING` is not won again after
`COMPLETE`. What remains is that freeing the allocation drops no output: whoever
would find one in the cell still holds a count.
-/

namespace Nanorun.Task

open Bits Pool

variable {V W : Type}

/-- The output a thread is about to write into the cell. -/
def Frame.writes : Frame V W → Multiset V
  | .writeReady _ v => {v}
  | _ => 0

/-- The outputs that threads are about to write. -/
def carried (fs : Multiset (Frame V W)) : Multiset V := (fs.map Frame.writes).sum

@[simp] theorem carried_cons (f : Frame V W) (fs : Multiset (Frame V W)) :
    carried (f ::ₘ fs) = f.writes + carried fs := by
  simp [carried]

/-- The future has returned and the thread has yet to set `COMPLETE`. -/
def Frame.yields : Frame V W → Nat
  | .writeReady _ _ | .setComplete _ => 1
  | _ => 0

/-- What the handle has taken out of the cell. -/
def Handle.taken : Handle V W → List V
  | .dropRaw v | .yielded v => [v]
  | _ => []

/-- Where the outputs are. -/
structure OutInv (t : RawTask V W) (fs : Multiset (Frame V W)) : Prop where
  /-- Every returned output is in exactly one place. -/
  conserved : (t.returned : Multiset V) = carried fs + t.cell.output + t.moved + t.dropped
  /-- The future has returned once when someone is completing the task or it is complete. -/
  once : t.returned.length = weight Frame.yields fs + (has t.state complete).toNat
  /-- What has been moved out is what the handle has. -/
  moved : t.moved = t.handle.taken

theorem outInv_init : OutInv (V := V) (W := W)
    (World.spawnRaw (V := V) (W := W)).task (World.spawnRaw (V := V) (W := W)).frames where
  conserved := by simp [World.spawnRaw, carried, Frame.writes, Stage.output]
  once := by
    have hc : has (notified ||| joinInterest) complete = false := by decide
    simp only [World.spawnRaw, weight_singleton, Frame.yields, hc]
    rfl
  moved := rfl

/-! ## Freeing drops no output -/

theorem Frame.disposes_le_owns (f : Frame V W) : f.finishes + f.disposes ≤ f.owns := by
  cases f with
  | clearRunning wk merged =>
      have := Bool.toNat_le (!has merged joinInterest)
      simp only [Frame.finishes, Frame.disposes, Frame.owns]
      omega
  | _ => simp [Frame.finishes, Frame.disposes, Frame.owns]

theorem Handle.disposes_le_owns (h : Handle V W) : h.disposes ≤ h.owns := by
  cases h <;> simp [Handle.disposes, Handle.owns]

/-- An output in the cell is there for a thread or for the handle. -/
theorem CellInv.output_le {t : RawTask V W} {fs : Multiset (Frame V W)} (h : CellInv t fs) :
    t.cell.output.length ≤ weight (fun f => f.finishes + f.disposes) fs + t.handle.disposes := by
  rw [weight_add]
  cases hc : has t.state complete with
  | false => have := (h.before hc).2.2; omega
  | true => have := (h.after hc).2; omega

/-- If someone other than the disposer has the last count, there is no output in the cell. -/
theorem TaskInv.no_output {t : RawTask V W} {fs : Multiset (Frame V W)} (h : TaskInv t fs)
    (hone : t.strong = 1)
    (hlast : (∃ f ∈ fs, 0 < f.owns ∧ f.finishes + f.disposes = 0)
      ∨ (0 < t.handle.owns ∧ t.handle.disposes = 0) ∨ 0 < t.liveWakers) :
    t.cell.output = [] := by
  have hcount := h.refs.count
  have hout := h.cell.output_le
  have hhandle := Handle.disposes_le_owns t.handle
  unfold owners at hcount
  rw [hone] at hcount
  rw [← List.length_eq_zero_iff]
  rcases hlast with ⟨f, hf, ho, hd⟩ | ⟨ho, hd⟩ | hl
  · obtain ⟨rest, rfl⟩ := Multiset.exists_cons_of_mem hf
    have hrest := weight_mono Frame.disposes_le_owns rest
    rw [weight_cons] at hcount hout
    omega
  · have hfs := weight_mono Frame.disposes_le_owns fs
    omega
  · have hfs := weight_mono Frame.disposes_le_owns fs
    omega

theorem release_dropped {t : RawTask V W} (h : t.strong = 1 → t.cell.output = []) :
    t.release.dropped = t.dropped := by
  unfold RawTask.release
  by_cases h1 : t.strong = 1
  · simp [h1, h h1]
  · simp [h1]

/-! ## Steps -/

/-- A thread moves on and no output moves. -/
theorem OutInv.advance {t t' : RawTask V W} {f f' : Frame V W} {rest : Multiset (Frame V W)}
    (h : OutInv t (f ::ₘ rest)) (hret : t'.returned = t.returned) (hcell : t'.cell = t.cell)
    (hmoved : t'.moved = t.moved) (hdrop : t'.dropped = t.dropped) (hh : t'.handle = t.handle)
    (hc : has t'.state complete = has t.state complete) (hw : f'.writes = f.writes)
    (hy : f'.yields = f.yields) : OutInv t' (f' ::ₘ rest) where
  conserved := by
    have := h.conserved
    rw [carried_cons] at this ⊢
    rw [hret, hcell, hmoved, hdrop, hw]
    exact this
  once := by
    have := h.once
    rw [weight_cons] at this ⊢
    rw [hret, hy, hc]
    exact this
  moved := by rw [hmoved, hh]; exact h.moved

/-- A thread moves on after giving up a count. -/
theorem OutInv.advance_release {t t' : RawTask V W} {f f' : Frame V W}
    {rest : Multiset (Frame V W)} (h : OutInv t (f ::ₘ rest)) (hi : TaskInv t (f ::ₘ rest))
    (hret : t'.returned = t.returned) (hcell : t'.cell = t.cell) (hmoved : t'.moved = t.moved)
    (hdrop : t'.dropped = t.release.dropped) (hh : t'.handle = t.handle)
    (hstate : t'.state = t.state) (ho : 0 < f.owns) (hd : f.finishes + f.disposes = 0)
    (hw : f'.writes = f.writes) (hy : f'.yields = f.yields) : OutInv t' (f' ::ₘ rest) := by
  have hkeep := release_dropped fun hone =>
    hi.no_output hone (.inl ⟨f, Multiset.mem_cons_self f rest, ho, hd⟩)
  exact h.advance hret hcell hmoved (hdrop.trans hkeep) hh (by rw [hstate]) hw hy

theorem outInv_thread {t t' : RawTask V W} {lent : Nat → Bool} {f f' : Frame V W}
    {rest : Multiset (Frame V W)} (h : OutInv t (f ::ₘ rest)) (hi : TaskInv t (f ::ₘ rest))
    (hs : FrameStep t lent f t' f') : OutInv t' (f' ::ₘ rest) := by
  have hmem := Multiset.mem_cons_self f rest
  have hcons := h.conserved
  have honce := h.once
  rw [carried_cons] at hcons
  rw [weight_cons] at honce
  cases hs with
  | spawnJoin =>
      have hm := h.moved
      rw [hi.refs.spawning_of hmem rfl] at hm
      exact ⟨by rw [carried_cons]; exact hcons, by rw [weight_cons]; exact honce, hm⟩
  | @ready wk v _ =>
      refine ⟨?_, ?_, h.moved⟩
      · rw [carried_cons]
        simp only [Frame.writes, RawTask.setWaker, zero_add] at hcons ⊢
        rw [← Multiset.coe_add, hcons, Multiset.coe_singleton]
        ac_rfl
      · rw [weight_cons]
        simp only [Frame.yields, RawTask.setWaker, List.length_append, List.length_singleton] at honce ⊢
        omega
  | @writeReady wk v =>
      have hcell := hi.cell.pending_of_runs hi.bits hmem rfl rfl
      refine ⟨?_, by rw [weight_cons]; exact honce, h.moved⟩
      rw [carried_cons]
      simp only [Frame.writes, RawTask.writeCell, hcell, Stage.output, Multiset.coe_nil, add_zero,
        zero_add, List.append_nil, Multiset.coe_singleton] at hcons ⊢
      rw [hcons]
      ac_rfl
  | setComplete =>
      have hc := hi.bits.not_complete hmem rfl
      refine ⟨by rw [carried_cons]; exact hcons, ?_, h.moved⟩
      rw [weight_cons]
      have hc' : has (t.state ||| complete) complete = true := by simp
      rw [hc] at honce
      rw [hc']
      simp only [Frame.yields, Bool.toNat_false, Bool.toNat_true] at honce ⊢
      omega
  | clearRunning =>
      exact h.advance rfl rfl rfl rfl rfl (by simp)
        (afterComplete_ind (P := fun f => f.writes = 0) rfl rfl rfl)
        (afterComplete_ind (P := fun f => f.yields = 0) rfl rfl rfl)
  | writeEmpty =>
      refine ⟨?_, by rw [weight_cons]; exact honce, h.moved⟩
      rw [carried_cons]
      simp only [Frame.writes, RawTask.writeCell, Stage.output, Multiset.coe_nil, add_zero,
        zero_add, ← Multiset.coe_add] at hcons ⊢
      rw [hcons]
      ac_rfl
  | dropWaker =>
      exact h.advance_release hi rfl rfl rfl rfl rfl rfl (by simp [Frame.owns]) rfl rfl rfl
  | dropArc =>
      exact h.advance_release hi rfl rfl rfl rfl rfl rfl (by simp [Frame.owns]) rfl rfl rfl
  | @release who =>
      exact h.advance_release hi rfl rfl rfl rfl rfl rfl (by simp only [Frame.owns]; omega) rfl
        (back_ind (P := fun f => f.writes = 0) who rfl (fun _ => rfl))
        (back_ind (P := fun f => f.yields = 0) who rfl (fun _ => rfl))
  | @schedUnpark who =>
      exact h.advance rfl rfl rfl rfl rfl rfl
        (back_ind (P := fun f => f.writes = 0) who rfl (fun _ => rfl))
        (back_ind (P := fun f => f.yields = 0) who rfl (fun _ => rfl))
  | casWon _ => exact h.advance rfl rfl rfl rfl rfl (by simp) rfl rfl
  | resched _ => exact h.advance rfl rfl rfl rfl rfl (by simp) rfl rfl
  | park _ => exact h.advance rfl rfl rfl rfl rfl (by simp) rfl rfl
  | wokeBusy _ => exact h.advance rfl rfl rfl rfl rfl (by simp) rfl rfl
  | wokeIdle _ => exact h.advance rfl rfl rfl rfl rfl (by simp) rfl rfl
  | _ => exact h.advance rfl rfl rfl rfl rfl rfl rfl rfl

theorem outInv_handle {t t' : RawTask V W} {fs : Multiset (Frame V W)} (h : OutInv t fs)
    (hi : TaskInv t fs) (hs : HandleStep t t.handle t') : OutInv t' fs := by
  have hmoved := h.moved
  have hcons := h.conserved
  -- the handle gives its count back without having the output to dispose of
  have hkeep : t.handle.owns = 1 → t.handle.disposes = 0 → t.release.dropped = t.dropped :=
    fun ho hd => release_dropped fun hone => hi.no_output hone (.inr (.inl ⟨by omega, hd⟩))
  have hready := hi.cell.ready_of_take
  generalize t.handle = d at hs hmoved hkeep hready
  cases hs with
  | takeCell hcell =>
      refine ⟨?_, h.once, ?_⟩
      · simp only [hcell, Stage.output, Multiset.coe_singleton, Multiset.coe_nil, add_zero,
          ← Multiset.coe_add] at hcons ⊢
        rw [hcons]
        ac_rfl
      · show t.moved ++ _ = _
        rw [hmoved]
        rfl
  | takeCellPanic hcell =>
      obtain ⟨v, hv⟩ := hready rfl
      exact absurd hv (hcell v)
  | dropRaw =>
      refine ⟨?_, h.once, hmoved⟩
      show _ = carried fs + t.cell.output + t.moved + t.release.dropped
      rw [hkeep rfl rfl]
      exact hcons
  | dropRef =>
      refine ⟨?_, h.once, hmoved⟩
      show _ = carried fs + t.cell.output + t.moved + t.release.dropped
      rw [hkeep rfl rfl]
      exact hcons
  | dropCell =>
      refine ⟨?_, h.once, hmoved⟩
      simp only [RawTask.writeCell, Stage.output, Multiset.coe_nil, add_zero,
        ← Multiset.coe_add] at hcons ⊢
      rw [hcons]
      ac_rfl
  | setBit => exact ⟨hcons, by simpa using h.once, hmoved⟩
  | dropFetchDone _ => exact ⟨hcons, by simpa using h.once, hmoved⟩
  | dropFetch _ => exact ⟨hcons, by simpa using h.once, hmoved⟩
  | _ => exact ⟨hcons, h.once, hmoved⟩

/-- A thread that carries no output appears. -/
theorem OutInv.join {t t' : RawTask V W} {f : Frame V W} {fs : Multiset (Frame V W)}
    (h : OutInv t fs) (hret : t'.returned = t.returned) (hcell : t'.cell = t.cell)
    (hmoved : t'.moved = t.moved) (hdrop : t'.dropped = t.dropped) (hh : t'.handle = t.handle)
    (hstate : t'.state = t.state) (hw : f.writes = 0) (hy : f.yields = 0) :
    OutInv t' (f ::ₘ fs) where
  conserved := by
    rw [carried_cons, hw, zero_add, hret, hcell, hmoved, hdrop]; exact h.conserved
  once := by rw [weight_cons, hy, Nat.zero_add, hret, hstate]; exact h.once
  moved := by rw [hmoved, hh]; exact h.moved

/-- **No step loses or duplicates an output.** -/
theorem outInv_step {t t' : RawTask V W} {fs fs' : Multiset (Frame V W)} (h : OutInv t fs)
    (hi : TaskInv t fs) (hs : WorldStep t fs t' fs') : OutInv t' fs' := by
  cases hs with
  | thread hf => exact outInv_thread h hi hf
  | dequeue _ hd =>
      cases hd with
      | _ => exact h.join rfl rfl rfl rfl rfl rfl rfl rfl
  | wake _ _ => exact h.join rfl rfl rfl rfl rfl rfl rfl rfl
  | wakeByRef _ => exact h.join rfl rfl rfl rfl rfl rfl rfl rfl
  | @dropWaker wk _ ho _ =>
      have hpos : 0 < t.liveWakers := List.countP_pos_iff.mpr ⟨.owned, List.mem_of_getElem? ho, rfl⟩
      have hkeep := release_dropped fun hone => hi.no_output hone (.inr (.inr hpos))
      refine ⟨?_, h.once, h.moved⟩
      show _ = carried fs + t.cell.output + t.moved + t.release.dropped
      rw [hkeep]
      exact h.conserved
  | handle hh => exact outInv_handle h hi hh
  | _ => exact ⟨h.conserved, h.once, h.moved⟩

theorem outInv_reachable [DecidableEq V] [DecidableEq W] {w : World V W}
    (h : (taskSystem V W).Reachable w) : OutInv w.task w.frames :=
  (task_invariant (I := fun t fs => TaskInv t fs ∧ OutInv t fs)
    ⟨⟨bitsInv_init, refInv_init, cellInv_init⟩, outInv_init⟩
    (fun hi hs => ⟨taskInv_step hi.1 hs, outInv_step hi.2 hi.1 hs⟩) h).2

/-! ## The output's fate -/

/-- The completing `poll_fn` has returned, or only has its references left to drop. -/
def World.Settled (w : World V W) : Prop :=
  has w.task.state complete = true ∧ weight Frame.late w.frames = 0

theorem Frame.yields_le_runs (f : Frame V W) : f.yields ≤ f.runs := by
  cases f <;> simp [Frame.yields, Frame.runs]

/-- The future returns at most once. -/
theorem OutInv.returned_le {t : RawTask V W} {fs : Multiset (Frame V W)} (h : OutInv t fs)
    (hi : TaskInv t fs) : t.returned.length ≤ 1 := by
  have honce := h.once
  have hy := weight_mono Frame.yields_le_runs fs
  have hruns := hi.bits.runs
  unfold active at hruns
  cases hc : has t.state complete with
  | false =>
      have := Bool.toNat_le (has t.state running && !false)
      rw [hc] at hruns honce
      simp only [Bool.toNat_false] at honce
      omega
  | true =>
      rw [hc] at hruns honce
      simp only [Bool.not_true, Bool.and_false, Bool.toNat_false, Bool.toNat_true] at hruns honce
      omega

/-- One output, conserved, was moved out, was dropped, or is still elsewhere. -/
theorem fate_of_conserved {v : V} {moved dropped : List V} {elsewhere : Multiset V}
    (h : ({v} : Multiset V) = elsewhere + moved + dropped) :
    (moved = [] ∧ dropped = [] ∧ elsewhere = {v}) ∨ (moved = [v] ∧ dropped = [])
      ∨ (moved = [] ∧ dropped = [v]) := by
  have hcard : 1 = elsewhere.card + moved.length + dropped.length := by
    have := congrArg Multiset.card h
    simpa using this
  -- a place that has one leaves none for the others
  have hzero : elsewhere.card = 0 → elsewhere = 0 := Multiset.card_eq_zero.mp
  rcases moved with _ | ⟨a, _ | ⟨a', moved⟩⟩
  · rcases dropped with _ | ⟨b, _ | ⟨b', dropped⟩⟩
    · left
      simpa using h.symm
    · right; right
      rw [hzero (by simp only [List.length_nil, List.length_singleton] at hcard; omega)] at h
      have hb : v = b := by simpa using h
      rw [hb]
      exact ⟨rfl, rfl⟩
    · simp only [List.length_nil, List.length_cons] at hcard
      omega
  · rcases dropped with _ | ⟨b, dropped⟩
    · right; left
      rw [hzero (by simp only [List.length_nil, List.length_singleton] at hcard; omega)] at h
      have ha : v = a := by simpa using h
      rw [ha]
      exact ⟨rfl, rfl⟩
    · simp only [List.length_nil, List.length_cons] at hcard
      omega
  · simp only [List.length_cons] at hcard
    omega

/-- A settled task whose handle is done has disposed of its output. -/
theorem TaskInv.empty_of_settled {w : World V W} (h : TaskInv w.task w.frames) (hs : w.Settled)
    (hh : w.task.handle.disposes = 0) : w.task.cell = .empty := by
  obtain ⟨hc, hlate⟩ := hs
  obtain ⟨hp, hdis⟩ := h.cell.after hc
  have hle := weight_mono Frame.disposes_le_late w.frames
  exact Stage.eq_empty (by omega) hp

theorem carried_of_complete {t : RawTask V W} {fs : Multiset (Frame V W)} (h : TaskInv t fs)
    (hc : has t.state complete = true) : carried fs = 0 := by
  have hruns := h.bits.runs
  rw [active, hc] at hruns
  simp only [Bool.not_true, Bool.and_false, Bool.toNat_false] at hruns
  rw [carried, Multiset.sum_eq_zero]
  intro m hm
  obtain ⟨f, hf, rfl⟩ := Multiset.mem_map.mp hm
  have hf0 := eq_zero_of_weight hf hruns
  cases f with
  | writeReady wk v => exact absurd hf0 (by simp [Frame.runs])
  | _ => rfl

section

variable [DecidableEq V] [DecidableEq W]

/--
**The output is delivered or destroyed exactly once.**

The future returns at most one output `v`; in every reachable state `v` has been
moved out to the owner of the `JoinHandle` once, or dropped once, or neither yet,
and nothing else was moved or dropped. When the completing `poll_fn` is past the
cell and the handle has yielded or was dropped, the cell is empty and exactly one
of the two has happened: the yielded value is `v`, and a dropped handle leaves it
dropped.
-/
theorem output_once {w : World V W} (h : (taskSystem V W).Reachable w) :
    (w.task.returned = [] ∧ w.task.moved = [] ∧ w.task.dropped = []
      ∨ ∃ v, w.task.returned = [v]
        ∧ (w.task.moved = [] ∧ w.task.dropped = [] ∨ w.task.moved = [v] ∧ w.task.dropped = []
          ∨ w.task.moved = [] ∧ w.task.dropped = [v]))
    ∧ (w.Settled → (∃ x, w.task.handle = .yielded x) ∨ w.task.handle = .dropped →
        w.task.cell = .empty ∧ ∃ v, w.task.returned = [v]
        ∧ (w.task.handle = .yielded v ∧ w.task.moved = [v] ∧ w.task.dropped = []
          ∨ w.task.handle = .dropped ∧ w.task.moved = [] ∧ w.task.dropped = [v])) := by
  have hinv := taskInv_reachable h
  have hout := outInv_reachable h
  have hcons := hout.conserved
  have hle := hout.returned_le hinv
  constructor
  · rcases hr : w.task.returned with _ | ⟨v, _ | ⟨v', rest⟩⟩
    · left
      rw [hr] at hcons
      have hcard := congrArg Multiset.card hcons
      simp only [Multiset.coe_nil, Multiset.card_zero, Multiset.card_add, Multiset.coe_card] at hcard
      exact ⟨rfl, List.length_eq_zero_iff.mp (by omega), List.length_eq_zero_iff.mp (by omega)⟩
    · right
      rw [hr, Multiset.coe_singleton] at hcons
      refine ⟨v, rfl, ?_⟩
      rcases fate_of_conserved hcons with ⟨h1, h2, _⟩ | h2 | h3
      · exact .inl ⟨h1, h2⟩
      · exact .inr (.inl h2)
      · exact .inr (.inr h3)
    · rw [hr] at hle; simp at hle
  · intro hset hdone
    have hdis : w.task.handle.disposes = 0 := by
      rcases hdone with ⟨x, hx⟩ | hx <;> rw [hx] <;> rfl
    have hcell := hinv.empty_of_settled hset hdis
    have honce := hout.once
    rw [hset.1, Bool.toNat_true] at honce
    obtain ⟨v, hv⟩ := List.length_eq_one_iff.mp (by omega : w.task.returned.length = 1)
    rw [hv, Multiset.coe_singleton, carried_of_complete hinv hset.1, hcell] at hcons
    refine ⟨hcell, v, hv, ?_⟩
    have hmoved := hout.moved
    -- nothing is left elsewhere, so it was moved or dropped; the handle says which
    rcases fate_of_conserved hcons with ⟨_, _, h3⟩ | ⟨h1, h2⟩ | ⟨h1, h2⟩
    · exact absurd h3 (by simp [Stage.output])
    · rcases hdone with ⟨x, hx⟩ | hx
      · rw [hx, h1] at hmoved
        have : v = x := by simpa [Handle.taken] using hmoved
        exact .inl ⟨by rw [hx, this], h1, h2⟩
      · rw [hx, h1] at hmoved; exact absurd hmoved (by simp [Handle.taken])
    · rcases hdone with ⟨x, hx⟩ | hx
      · rw [hx, h1] at hmoved; exact absurd hmoved (by simp [Handle.taken])
      · exact .inr ⟨hx, h1, h2⟩

end

/-- The handle is dropped between the worker's write of the output and its `COMPLETE`. -/
def detachRace : List (Label Nat Unit) :=
  [.thread .spawnPush .go, .thread .spawnJoin .go, .pop, .thread .popped .go,
   .thread (.cas (notified ||| joinInterest)) .go, .thread .mkWaker .go,
   .thread (.matchStage 0) .go, .thread (.polling 0) (.ready 7), .thread (.writeReady 0 7) .go,
   .handle .drop, .handle .step, .thread (.setComplete 0) .go, .handle .step,
   .thread (.clearRunning 0 (running ||| complete)) .go, .thread (.writeEmpty 0) .go]

/-- In that race the worker drops the output. -/
theorem output_once_detached :
    ((taskSystem Nat Unit).exec World.spawnRaw detachRace).task.cell = .empty
      ∧ ((taskSystem Nat Unit).exec World.spawnRaw detachRace).task.moved = []
      ∧ ((taskSystem Nat Unit).exec World.spawnRaw detachRace).task.dropped = [7] := by
  have hr : (taskSystem Nat Unit).Reachable ((taskSystem Nat Unit).exec World.spawnRaw detachRace) :=
    .exec (.init rfl)
  have hd : ((taskSystem Nat Unit).exec World.spawnRaw detachRace).task.handle = .dropped := by
    decide +kernel
  have hv : ((taskSystem Nat Unit).exec World.spawnRaw detachRace).task.returned = [7] := by
    decide +kernel
  obtain ⟨hcell, v, hret, hfate⟩ :=
    (output_once hr).2 ⟨by decide +kernel, by decide +kernel⟩ (.inr hd)
  rcases hfate with ⟨hy, _⟩ | ⟨_, hm, hdrop⟩
  · rw [hd] at hy; exact absurd hy (by simp)
  · rw [hv] at hret
    rw [hdrop, ← hret]
    exact ⟨hcell, hm, rfl⟩

end Nanorun.Task
