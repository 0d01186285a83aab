import Nanorun.Task.Model

/-!
# What one task step can do

`FrameStep` and `HandleStep` list the outcomes of `frameNext` and `handleNext`
with their guards; `WorldStep` does the same for a whole step. A thread step
replaces one frame of the multiset and leaves the `rest`, so an invariant about
the frames is proved from `f ::ₘ rest` to `f' ::ₘ rest`.
-/

namespace Nanorun.Task

open Bits

variable {V W : Type}

/-- The outcomes of `frameNext`. -/
inductive FrameStep (t : RawTask V W) (lent : Nat → Bool) :
    Frame V W → RawTask V W → Frame V W → Prop where
  | spawnPush : FrameStep t lent .spawnPush { t with queued := t.queued + 1 } .spawnJoin
  | spawnJoin : FrameStep t lent .spawnJoin { t with handle := .idle none } .done
  | stolen : FrameStep t lent .stolen { t with queued := t.queued + 1 } .done
  | load : FrameStep t lent .popped t (.cas t.state)
  | bail {st : Word} : bails st = true → FrameStep t lent (.cas st) t .dropArc
  | casWon : bails t.state = false → FrameStep t lent (.cas t.state)
      { t with state := (t.state ||| running) &&& ~~~notified } .mkWaker
  | casLost {st : Word} : bails st = false → FrameStep t lent (.cas st) t (.cas t.state)
  | mkWaker : FrameStep t lent .mkWaker
      { t with strong := t.strong + 1, wakers := t.wakers ++ [.kept] }
      (.matchStage t.wakers.length)
  | matchPending {wk : Nat} : t.cell = .pending →
      FrameStep t lent (.matchStage wk) (t.setWaker wk .lent) (.polling wk)
  | matchPanic {wk : Nat} : t.cell ≠ .pending → FrameStep t lent (.matchStage wk) t (.panicked wk)
  | ready {wk : Nat} {v : V} : lent wk = false → FrameStep t lent (.polling wk)
      { t.setWaker wk .kept with returned := t.returned ++ [v] } (.writeReady wk v)
  | pending {wk : Nat} : lent wk = false →
      FrameStep t lent (.polling wk) (t.setWaker wk .kept) (.clearPending wk)
  | writeReady {wk : Nat} {v : V} :
      FrameStep t lent (.writeReady wk v) (t.writeCell (.ready v)) (.setComplete wk)
  | setComplete {wk : Nat} : FrameStep t lent (.setComplete wk)
      { t with state := t.state ||| complete } (.clearRunning wk (t.state ||| complete))
  | clearRunning {wk : Nat} {merged : Word} : FrameStep t lent (.clearRunning wk merged)
      { t with state := t.state &&& ~~~running } (afterComplete wk merged)
  | writeEmpty {wk : Nat} :
      FrameStep t lent (.writeEmpty wk) (t.writeCell .empty) (.dropWaker wk)
  | takeJoin {wk : Nat} {w : W} : t.joinSlot = some w →
      FrameStep t lent (.takeJoin wk) { t with joinSlot := none } (.wakeJoin wk w)
  | takeNone {wk : Nat} : t.joinSlot = none → FrameStep t lent (.takeJoin wk) t (.dropWaker wk)
  | wakeJoin {wk : Nat} {w : W} :
      FrameStep t lent (.wakeJoin wk w) { t with woken := t.woken ++ [w] } (.dropWaker wk)
  | resched {wk : Nat} : has t.state notified = true → FrameStep t lent (.clearPending wk)
      { t with state := t.state &&& ~~~running } (.incResched wk)
  | park {wk : Nat} : has t.state notified = false → FrameStep t lent (.clearPending wk)
      { t with state := t.state &&& ~~~running } (.dropWaker wk)
  | incResched {wk : Nat} : FrameStep t lent (.incResched wk)
      { t with strong := t.strong + 1 } (.schedShutdown (.poll wk))
  | dropWaker {wk : Nat} :
      FrameStep t lent (.dropWaker wk) (t.setWaker wk .dead).release .dropArc
  | dropArc : FrameStep t lent .dropArc t.release .done
  | wakeClone {wk : Nat} : FrameStep t lent (.wakeClone wk)
      { t with strong := t.strong + 1 } (.fetchNotified (.byRef wk))
  | wokeBusy {who : Caller} : has t.state (running ||| notified ||| complete) = true →
      FrameStep t lent (.fetchNotified who) { t with state := t.state ||| notified }
        (.release who)
  | wokeIdle {who : Caller} : has t.state (running ||| notified ||| complete) = false →
      FrameStep t lent (.fetchNotified who) { t with state := t.state ||| notified }
        (.schedShutdown who)
  | schedRefused {who : Caller} : t.shutdown = true →
      FrameStep t lent (.schedShutdown who) t (.release who)
  | schedAccepted {who : Caller} : t.shutdown = false →
      FrameStep t lent (.schedShutdown who) t (.schedPush who)
  | schedPush {who : Caller} : FrameStep t lent (.schedPush who)
      { t with queued := t.queued + 1 } (.schedParked who)
  | schedParked {who : Caller} : FrameStep t lent (.schedParked who) t (.schedUnpark who)
  | schedUnpark {who : Caller} : FrameStep t lent (.schedUnpark who) t who.back
  | release {who : Caller} : FrameStep t lent (.release who) t.release who.back

/-- The outcomes of `handleNext`. -/
inductive HandleStep (t : RawTask V W) : Handle V W → RawTask V W → Prop where
  | poll {last : Option (W × Nat)} {w : W} : HandleStep t (.idle last) { t with handle := .load1 w }
  | load1Done {w : W} : has t.state complete = true →
      HandleStep t (.load1 w) { t with handle := .takeLoad }
  | load1 {w : W} : has t.state complete = false →
      HandleStep t (.load1 w) { t with handle := .install w }
  | install {w : W} : HandleStep t (.install w) { t with joinSlot := some w, handle := .setBit w }
  | setBit {w : W} :
      HandleStep t (.setBit w) { t with state := t.state ||| joinWaker, handle := .load2 w }
  | load2Done {w : W} : has t.state complete = true →
      HandleStep t (.load2 w) { t with handle := .takeLoad }
  | load2 {w : W} : has t.state complete = false →
      HandleStep t (.load2 w) { t with handle := .idle (some (w, t.woken.length)) }
  | takeLoad : has t.state complete = true →
      HandleStep t .takeLoad { t with handle := .takeCell }
  | takeLoadPanic : has t.state complete = false →
      HandleStep t .takeLoad { t with handle := .panicked }
  | takeCell {v : V} : t.cell = .ready v →
      HandleStep t .takeCell
        { t with cell := .empty, moved := t.moved ++ [v], handle := .dropRaw v }
  | takeCellPanic : (∀ v, t.cell ≠ .ready v) →
      HandleStep t .takeCell { t with cell := .empty, handle := .panicked }
  | dropRaw {v : V} : HandleStep t (.dropRaw v) { t.release with handle := .yielded v }
  | drop {last : Option (W × Nat)} : HandleStep t (.idle last) { t with handle := .dropFetch }
  | dropFetchDone : has t.state complete = true →
      HandleStep t .dropFetch
        { t with state := t.state &&& ~~~joinInterest, handle := .dropCell }
  | dropFetch : has t.state complete = false →
      HandleStep t .dropFetch
        { t with state := t.state &&& ~~~joinInterest, handle := .dropRef }
  | dropCell : HandleStep t .dropCell { t.writeCell .empty with handle := .dropRef }
  | dropRef : HandleStep t .dropRef { t.release with handle := .dropped }
  | park {w : W} {since : Nat} :
      HandleStep t (.idle (some (w, since))) { t with handle := .parked w since }
  | unpark {w : W} {since : Nat} :
      HandleStep t (.parked w since) { t with handle := .load1 w }

/-- The references that leave the run queues, and who holds them then. -/
inductive Dequeued (t : RawTask V W) : Frame V W → Prop where
  | pop : Dequeued t .popped
  | steal : Dequeued t .stolen
  | drain : t.shutdown = true → Dequeued t .dropArc

/-- The outcomes of `World.step`: the task and the frames before and after. -/
inductive WorldStep :
    RawTask V W → Multiset (Frame V W) → RawTask V W → Multiset (Frame V W) → Prop where
  | thread {t t' : RawTask V W} {f f' : Frame V W} {rest : Multiset (Frame V W)} :
      FrameStep t (borrowed (f ::ₘ rest)) f t' f' → WorldStep t (f ::ₘ rest) t' (f' ::ₘ rest)
  | dequeue {t : RawTask V W} {f : Frame V W} {fs : Multiset (Frame V W)} :
      0 < t.queued → Dequeued t f →
      WorldStep t fs { t with queued := t.queued - 1 } (f ::ₘ fs)
  | shutdown {t : RawTask V W} {fs : Multiset (Frame V W)} :
      WorldStep t fs { t with shutdown := true } fs
  | wake {t : RawTask V W} {wk : Nat} {fs : Multiset (Frame V W)} :
      t.wakers[wk]? = some .owned → borrowed fs wk = false →
      WorldStep t fs (t.setWaker wk .dead) (.fetchNotified .value ::ₘ fs)
  | wakeByRef {t : RawTask V W} {wk : Nat} {fs : Multiset (Frame V W)} :
      t.usable wk = true → WorldStep t fs t (.wakeClone wk ::ₘ fs)
  | cloneWaker {t : RawTask V W} {wk : Nat} {fs : Multiset (Frame V W)} :
      t.usable wk = true →
      WorldStep t fs { t with strong := t.strong + 1, wakers := t.wakers ++ [.owned] } fs
  | dropWaker {t : RawTask V W} {wk : Nat} {fs : Multiset (Frame V W)} :
      t.wakers[wk]? = some .owned → borrowed fs wk = false →
      WorldStep t fs (t.setWaker wk .dead).release fs
  | handle {t t' : RawTask V W} {fs : Multiset (Frame V W)} :
      HandleStep t t.handle t' → WorldStep t fs t' fs

/-- Having completed the task, a worker empties the cell, wakes the joiner, or leaves. -/
theorem afterComplete_ind {P : Frame V W → Prop} {wk : Nat} {merged : Word}
    (hempty : P (.writeEmpty wk)) (hjoin : P (.takeJoin wk)) (hleave : P (.dropWaker wk)) :
    P (afterComplete wk merged) := by
  unfold afterComplete
  split
  · exact hempty
  · split
    · exact hjoin
    · exact hleave

/-- After `Spawner::schedule` the call is over, but for the end of `poll_fn`. -/
theorem back_ind {P : Frame V W → Prop} (who : Caller) (hdone : P .done)
    (hpoll : ∀ wk, P (.dropWaker wk)) : P who.back := by
  cases who with
  | poll wk => exact hpoll wk
  | _ => exact hdone

/-! ## Inversion -/

theorem frameNext_step {t t' : RawTask V W} {lent : Nat → Bool} {f f' : Frame V W} {c : Choice V}
    (h : frameNext t lent f c = some (t', f')) : FrameStep t lent f t' f' := by
  unfold frameNext at h
  split at h
  case h_5 st =>
    split at h
    · rename_i hb; cases h; exact .bail hb
    · rename_i hb
      have hb' : bails st = false := by simpa using hb
      split at h
      · rename_i hst; subst hst; cases h; exact .casWon hb'
      · cases h; exact .casLost hb'
  case h_6 st =>
    split at h
    · exact absurd h (by simp)
    · rename_i hb; cases h; exact .casLost (by simpa using hb)
  case h_8 wk =>
    split at h
    · rename_i hcell; cases h; exact .matchPending hcell
    · rename_i hcell; cases h; exact .matchPanic hcell
  case h_9 wk v =>
    split at h
    · exact absurd h (by simp)
    · rename_i hl; cases h; exact .ready (by simpa using hl)
  case h_10 wk =>
    split at h
    · exact absurd h (by simp)
    · rename_i hl; cases h; exact .pending (by simpa using hl)
  case h_15 wk =>
    split at h
    · rename_i hw; cases h; exact .takeJoin hw
    · rename_i hw; cases h; exact .takeNone hw
  case h_17 wk =>
    cases h
    by_cases hn : has t.state notified = true
    · rw [if_pos hn]; exact .resched hn
    · rw [if_neg hn]; exact .park (by simpa using hn)
  case h_22 who =>
    cases h
    by_cases hn : has t.state (running ||| notified ||| complete) = true
    · rw [if_pos hn]; exact .wokeBusy hn
    · rw [if_neg hn]; exact .wokeIdle (by simpa using hn)
  case h_23 who =>
    cases h
    by_cases hs : t.shutdown = true
    · rw [if_pos hs]; exact .schedRefused hs
    · rw [if_neg hs]; exact .schedAccepted (by simpa using hs)
  case h_28 => exact absurd h (by simp)
  all_goals cases h; constructor

theorem handleNext_step {t t' : RawTask V W} {op : HandleOp W} (h : handleNext t op = some t') :
    HandleStep t t.handle t' := by
  unfold handleNext at h
  split at h
  case h_2 w hh =>
    rw [hh]; cases h
    by_cases hc : has t.state complete = true
    · rw [if_pos hc]; exact .load1Done hc
    · rw [if_neg hc]; exact .load1 (by simpa using hc)
  case h_5 w hh =>
    rw [hh]; cases h
    by_cases hc : has t.state complete = true
    · rw [if_pos hc]; exact .load2Done hc
    · rw [if_neg hc]; exact .load2 (by simpa using hc)
  case h_6 hh =>
    rw [hh]; cases h
    by_cases hc : has t.state complete = true
    · rw [if_pos hc]; exact .takeLoad hc
    · rw [if_neg hc]; exact .takeLoadPanic (by simpa using hc)
  case h_7 hh =>
    rw [hh]
    split at h
    · rename_i v hcell; cases h; exact .takeCell hcell
    · rename_i hcell; cases h; exact .takeCellPanic hcell
  case h_10 hh =>
    rw [hh]; cases h
    by_cases hc : has t.state complete = true
    · rw [if_pos hc]; exact .dropFetchDone hc
    · rw [if_neg hc]; exact .dropFetch (by simpa using hc)
  case h_15 => exact absurd h (by simp)
  all_goals (rename_i hh; rw [hh]; cases h; constructor)

theorem dequeue_step {w w' : World V W} {f : Frame V W} (hd : Dequeued w.task f)
    (h : w.dequeue f = some w') : WorldStep w.task w.frames w'.task w'.frames := by
  unfold World.dequeue at h
  split at h
  · rename_i hq; cases h; exact .dequeue hq hd
  · exact absurd h (by simp)

theorem owns_iff {w : World V W} {wk : Nat} (h : w.owns wk = true) :
    w.task.wakers[wk]? = some .owned ∧ borrowed w.frames wk = false := by
  simpa [World.owns] using h

section

variable [DecidableEq V] [DecidableEq W]

/-- **Every step of the task is one of the listed outcomes.** -/
theorem step_worldStep {w w' : World V W} {l : Label V W} (h : w.step l = some w') :
    WorldStep w.task w.frames w'.task w'.frames := by
  cases l with
  | thread f c =>
      rw [World.step] at h
      split at h
      · rename_i hmem
        obtain ⟨⟨t', f'⟩, hr, rfl⟩ := Option.map_eq_some_iff.mp h
        have hsplit : w.frames = f ::ₘ w.frames.erase f := (Multiset.cons_erase hmem).symm
        have hstep := frameNext_step hr
        rw [hsplit] at hstep
        have := WorldStep.thread hstep
        rwa [← hsplit] at this
      · exact absurd h (by simp)
  | pop => exact dequeue_step .pop h
  | steal => exact dequeue_step .steal h
  | drain =>
      rw [World.step] at h
      split at h
      · rename_i hs; exact dequeue_step (.drain hs) h
      · exact absurd h (by simp)
  | shutdown => cases h; exact .shutdown
  | wake wk =>
      rw [World.step] at h
      split at h
      · rename_i ho; cases h; exact .wake (owns_iff ho).1 (owns_iff ho).2
      · exact absurd h (by simp)
  | wakeByRef wk =>
      rw [World.step] at h
      split at h
      · rename_i hu; cases h; exact .wakeByRef hu
      · exact absurd h (by simp)
  | cloneWaker wk =>
      rw [World.step] at h
      split at h
      · rename_i hu; cases h; exact .cloneWaker hu
      · exact absurd h (by simp)
  | dropWaker wk =>
      rw [World.step] at h
      split at h
      · rename_i ho; cases h; exact .dropWaker (owns_iff ho).1 (owns_iff ho).2
      · exact absurd h (by simp)
  | handle op =>
      obtain ⟨t', hr, rfl⟩ := Option.map_eq_some_iff.mp h
      exact .handle (handleNext_step hr)

theorem reachable_step {w w' : World V W} {l : Label V W} (h : (taskSystem V W).Reachable w)
    (hs : w.step l = some w') : (taskSystem V W).Reachable w' :=
  .tail (S := taskSystem V W) (a := l) h trivial hs

/-- The invariant rule of the task system. -/
theorem task_invariant {I : RawTask V W → Multiset (Frame V W) → Prop}
    (h0 : I (World.spawnRaw (V := V) (W := W)).task (World.spawnRaw (V := V) (W := W)).frames)
    (hs : ∀ {t fs t' fs'}, I t fs → WorldStep t fs t' fs' → I t' fs')
    {w : World V W} (h : (taskSystem V W).Reachable w) : I w.task w.frames := by
  refine h.invariant (I := fun w => I w.task w.frames) ?_ ?_
  · intro s hi; cases hi; exact h0
  · intro s l s' hinv hstep; exact hs hinv (step_worldStep hstep)

end

end Nanorun.Task
