import Nanorun.Lib.Pool
import Nanorun.Task.Steps

/-!
# The run token

A reference that will lead to a poll is a *run token*: it sits in a run queue, or
a thread that decided to schedule or spawn has not pushed it yet, or a worker
popped it and has not yet won the `RUNNING` bit. Before shutdown there is exactly
one token when `NOTIFIED` is set and `RUNNING` and `COMPLETE` are clear, and none
otherwise; after shutdown a token may have been dropped, but there is never more
than one.

The other half is who owns the `RUNNING` bit: exactly one thread is between
winning it and clearing it.
-/

namespace Nanorun.Task

open Bits Pool

variable {V W : Type}

/-! ## Three readings of the state word -/

/-- 1 if the word asks for a poll: notified, and neither running nor complete. -/
def wants (s : Word) : Nat := (has s notified && !has s running && !has s complete).toNat

/-- 1 if a worker runs the task and has not completed it. -/
def active (s : Word) : Nat := (has s running && !has s complete).toNat

/-- 1 if the completing worker has not yet cleared `RUNNING`. -/
def closing (s : Word) : Nat := (has s running && has s complete).toNat

theorem word_cas {s : Word} (h : bails s = false) :
    wants ((s ||| running) &&& ~~~notified) = 0 ∧ active ((s ||| running) &&& ~~~notified) = 1
      ∧ closing ((s ||| running) &&& ~~~notified) = 0 ∧ active s = 0 ∧ closing s = 0 := by
  unfold bails at h
  simp only [Bool.or_eq_false_iff] at h
  simp [wants, active, closing, h.1, h.2]

theorem word_complete {s : Word} (h : active s = 1) :
    wants (s ||| complete) = 0 ∧ active (s ||| complete) = 0 ∧ closing (s ||| complete) = 1
      ∧ wants s = 0 ∧ closing s = 0 := by
  unfold active at h
  cases hr : has s running <;> cases hc : has s complete <;> simp [hr, hc] at h
  simp [wants, active, closing, hr, hc]

theorem word_close {s : Word} (h : closing s = 1) :
    wants (s &&& ~~~running) = 0 ∧ active (s &&& ~~~running) = 0
      ∧ closing (s &&& ~~~running) = 0 ∧ wants s = 0 ∧ active s = 0 := by
  unfold closing at h
  cases hr : has s running <;> cases hc : has s complete <;> simp [hr, hc] at h
  simp [wants, active, closing, hr, hc]

theorem word_pause {s : Word} (h : active s = 1) :
    wants (s &&& ~~~running) = (has s notified).toNat ∧ active (s &&& ~~~running) = 0
      ∧ closing (s &&& ~~~running) = 0 ∧ wants s = 0 ∧ closing s = 0 := by
  unfold active at h
  cases hr : has s running <;> cases hc : has s complete <;> simp [hr, hc] at h
  simp [wants, active, closing, hr, hc]

theorem word_notify_busy {s : Word} (h : has s (running ||| notified ||| complete) = true) :
    wants (s ||| notified) = wants s ∧ active (s ||| notified) = active s
      ∧ closing (s ||| notified) = closing s := by
  rw [has_or_mask, has_or_mask] at h
  cases hr : has s running <;> cases hn : has s notified <;> cases hc : has s complete <;>
    simp [hr, hn, hc] at h <;> simp [wants, active, closing, hr, hn, hc]

theorem word_notify_idle {s : Word} (h : has s (running ||| notified ||| complete) = false) :
    wants (s ||| notified) = 1 ∧ active (s ||| notified) = active s
      ∧ closing (s ||| notified) = closing s ∧ wants s = 0 := by
  rw [has_or_mask, has_or_mask] at h
  simp only [Bool.or_eq_false_iff] at h
  simp [wants, active, closing, h.1.1, h.1.2, h.2]

theorem word_join (s : Word) :
    (wants (s ||| joinWaker) = wants s ∧ active (s ||| joinWaker) = active s
      ∧ closing (s ||| joinWaker) = closing s)
    ∧ wants (s &&& ~~~joinInterest) = wants s ∧ active (s &&& ~~~joinInterest) = active s
      ∧ closing (s &&& ~~~joinInterest) = closing s := by
  simp [wants, active, closing]

theorem bails_of_wants {s : Word} (h : 0 < wants s) : bails s = false := by
  unfold wants at h
  unfold bails
  cases hr : has s running <;> cases hc : has s complete <;> simp [hr, hc] at h ⊢

theorem wants_le_one (s : Word) : wants s ≤ 1 := Bool.toNat_le _

theorem active_le_one (s : Word) : active s ≤ 1 := Bool.toNat_le _

theorem closing_le_one (s : Word) : closing s ≤ 1 := Bool.toNat_le _

/-! ## What each frame counts for -/

/-- The thread holds a run token. -/
def Frame.token : Frame V W → Nat
  | .spawnPush | .stolen | .popped | .cas _ | .incResched _ | .schedShutdown _
  | .schedPush _ => 1
  | _ => 0

/-- The thread won `RUNNING` and has neither completed the task nor given the bit back. -/
def Frame.runs : Frame V W → Nat
  | .mkWaker | .matchStage _ | .polling _ | .writeReady _ _ | .setComplete _
  | .clearPending _ | .panicked _ => 1
  | _ => 0

/-- The thread completed the task and has yet to clear `RUNNING`. -/
def Frame.clears : Frame V W → Nat
  | .clearRunning _ _ => 1
  | _ => 0

/-! ## The invariant -/

/-- The state word against the threads. -/
structure BitsInv (t : RawTask V W) (fs : Multiset (Frame V W)) : Prop where
  /-- Never more tokens than the word asks for. -/
  tokens_le : weight Frame.token fs + t.queued ≤ wants t.state
  /-- Before shutdown, exactly as many. -/
  tokens_eq : t.shutdown = false → weight Frame.token fs + t.queued = wants t.state
  /-- `RUNNING` without `COMPLETE` has exactly one owner. -/
  runs : weight Frame.runs fs = active t.state
  /-- `RUNNING` with `COMPLETE` has exactly one owner. -/
  clears : weight Frame.clears fs = closing t.state
  /-- The word a worker compares against lets it run. -/
  cas : ∀ st, .cas st ∈ fs → bails st = false

theorem word_spawn :
    wants (notified ||| joinInterest) = 1 ∧ active (notified ||| joinInterest) = 0
      ∧ closing (notified ||| joinInterest) = 0 := by
  decide

theorem bitsInv_init : BitsInv (V := V) (W := W)
    (World.spawnRaw (V := V) (W := W)).task (World.spawnRaw (V := V) (W := W)).frames := by
  obtain ⟨hw, ha, hc⟩ := word_spawn
  refine ⟨?_, ?_, ?_, ?_, ?_⟩
  · simp only [World.spawnRaw, weight_singleton, Frame.token, hw]; omega
  · intro _; simp only [World.spawnRaw, weight_singleton, Frame.token, hw]
  · simp only [World.spawnRaw, weight_singleton, Frame.runs, ha]
  · simp only [World.spawnRaw, weight_singleton, Frame.clears, hc]
  · intro st h; simp [World.spawnRaw] at h

/--
A thread step keeps the invariant if the tokens and the two owners of `RUNNING`
change exactly as the word's readings do.
-/
theorem BitsInv.replace {t t' : RawTask V W} {f f' : Frame V W} {rest : Multiset (Frame V W)}
    (h : BitsInv t (f ::ₘ rest)) (hsd : t'.shutdown = t.shutdown)
    (htok : f'.token + t'.queued + wants t.state = f.token + t.queued + wants t'.state)
    (hruns : f'.runs + active t.state = f.runs + active t'.state)
    (hclears : f'.clears + closing t.state = f.clears + closing t'.state)
    (hcas : ∀ st, f' = .cas st → bails st = false) : BitsInv t' (f' ::ₘ rest) where
  tokens_le := by
    have := h.tokens_le
    rw [weight_cons] at this ⊢
    omega
  tokens_eq := by
    intro hs
    have := h.tokens_eq (hsd ▸ hs)
    rw [weight_cons] at this ⊢
    omega
  runs := by
    have := h.runs
    rw [weight_cons] at this ⊢
    omega
  clears := by
    have := h.clears
    rw [weight_cons] at this ⊢
    omega
  cas := by
    intro st hst
    rcases Multiset.mem_cons.mp hst with heq | hmem
    · exact hcas st heq.symm
    · exact h.cas st (Multiset.mem_cons_of_mem hmem)

/-- A thread that holds a token stands before a word that asks for a poll. -/
theorem BitsInv.wants_of_token {t : RawTask V W} {f : Frame V W} {rest : Multiset (Frame V W)}
    (h : BitsInv t (f ::ₘ rest)) (hf : f.token = 1) : wants t.state = 1 := by
  have h1 := h.tokens_le
  have h2 := wants_le_one t.state
  rw [weight_cons] at h1
  omega

theorem BitsInv.active_of_runs {t : RawTask V W} {f : Frame V W} {rest : Multiset (Frame V W)}
    (h : BitsInv t (f ::ₘ rest)) (hf : f.runs = 1) : active t.state = 1 := by
  have h1 := h.runs
  have h2 := active_le_one t.state
  rw [weight_cons] at h1
  omega

theorem BitsInv.closing_of_clears {t : RawTask V W} {f : Frame V W}
    {rest : Multiset (Frame V W)} (h : BitsInv t (f ::ₘ rest)) (hf : f.clears = 1) :
    closing t.state = 1 := by
  have h1 := h.clears
  have h2 := closing_le_one t.state
  rw [weight_cons] at h1
  omega

/-- A thread leaves `Spawner::schedule` without a token. -/
theorem BitsInv.leave {t t' : RawTask V W} {f : Frame V W} {rest : Multiset (Frame V W)}
    {who : Caller} (h : BitsInv t (f ::ₘ rest)) (hstate : t'.state = t.state)
    (hq : t'.queued = t.queued) (hsd : t'.shutdown = t.shutdown) (htok : f.token = 0)
    (hruns : f.runs = 0) (hclears : f.clears = 0) : BitsInv t' (who.back ::ₘ rest) := by
  obtain ⟨htok', hruns', hclears', hcas⟩ := back_ind (V := V) (W := W)
    (P := fun f => f.token = 0 ∧ f.runs = 0 ∧ f.clears = 0 ∧ ∀ st, f ≠ .cas st) who
    ⟨rfl, rfl, rfl, by simp⟩ (fun _ => ⟨rfl, rfl, rfl, by simp⟩)
  refine h.replace hsd ?_ ?_ ?_ (fun st he => absurd he (hcas st))
  · rw [htok, htok', hstate, hq]
  · rw [hruns, hruns', hstate]
  · rw [hclears, hclears', hstate]

theorem bitsInv_thread {t t' : RawTask V W} {lent : Nat → Bool} {f f' : Frame V W}
    {rest : Multiset (Frame V W)} (h : BitsInv t (f ::ₘ rest)) (hs : FrameStep t lent f t' f') :
    BitsInv t' (f' ::ₘ rest) := by
  cases hs with
  | spawnPush => exact h.replace rfl (by simp [Frame.token]; omega) rfl rfl (by simp)
  | stolen => exact h.replace rfl (by simp [Frame.token]; omega) rfl rfl (by simp)
  | schedPush => exact h.replace rfl (by simp [Frame.token]; omega) rfl rfl (by simp)
  | load =>
      have hb : bails t.state = false := bails_of_wants (by rw [h.wants_of_token rfl]; omega)
      exact h.replace rfl rfl rfl rfl (fun st he => Frame.cas.inj he ▸ hb)
  | casLost _ =>
      have hb : bails t.state = false := bails_of_wants (by rw [h.wants_of_token rfl]; omega)
      exact h.replace rfl rfl rfl rfl (fun st he => Frame.cas.inj he ▸ hb)
  | bail hb => rw [h.cas _ (Multiset.mem_cons_self _ _)] at hb; exact absurd hb (by simp)
  | casWon hb =>
      have hw := h.wants_of_token rfl
      obtain ⟨hw', ha', hcl', ha, hcl⟩ := word_cas hb
      refine h.replace rfl ?_ ?_ ?_ (by simp)
      · simp only [Frame.token, hw, hw']; omega
      · simp only [Frame.runs, ha, ha']
      · simp only [Frame.clears, hcl, hcl']
  | setComplete =>
      obtain ⟨hw', ha', hcl', hw, hcl⟩ := word_complete (h.active_of_runs rfl)
      have ha := h.active_of_runs rfl
      refine h.replace rfl ?_ ?_ ?_ (by simp)
      · simp only [Frame.token, hw, hw']
      · simp only [Frame.runs, ha, ha']
      · simp only [Frame.clears, hcl, hcl']
  | clearRunning =>
      obtain ⟨hw', ha', hcl', hw, ha⟩ := word_close (h.closing_of_clears rfl)
      have hcl := h.closing_of_clears rfl
      obtain ⟨htok, hruns, hclears, hcas⟩ := afterComplete_ind (V := V) (W := W)
        (P := fun f => f.token = 0 ∧ f.runs = 0 ∧ f.clears = 0 ∧ ∀ st, f ≠ .cas st)
        ⟨rfl, rfl, rfl, by simp⟩ ⟨rfl, rfl, rfl, by simp⟩ ⟨rfl, rfl, rfl, by simp⟩
      refine h.replace rfl ?_ ?_ ?_ (fun st he => absurd he (hcas st))
      · rw [htok]; simp only [Frame.token, hw, hw']
      · rw [hruns]; simp only [Frame.runs, ha, ha']
      · rw [hclears]; simp only [Frame.clears, hcl, hcl']
  | resched hn =>
      obtain ⟨hw', ha', hcl', hw, hcl⟩ := word_pause (h.active_of_runs rfl)
      have ha := h.active_of_runs rfl
      refine h.replace rfl ?_ ?_ ?_ (by simp)
      · simp only [Frame.token, hw, hw', hn, Bool.toNat_true]; omega
      · simp only [Frame.runs, ha, ha']
      · simp only [Frame.clears, hcl, hcl']
  | park hn =>
      obtain ⟨hw', ha', hcl', hw, hcl⟩ := word_pause (h.active_of_runs rfl)
      have ha := h.active_of_runs rfl
      refine h.replace rfl ?_ ?_ ?_ (by simp)
      · simp only [Frame.token, hw, hw', hn, Bool.toNat_false]
      · simp only [Frame.runs, ha, ha']
      · simp only [Frame.clears, hcl, hcl']
  | wokeBusy hb =>
      obtain ⟨hw', ha', hcl'⟩ := word_notify_busy hb
      refine h.replace rfl ?_ ?_ ?_ (by simp)
      · simp only [Frame.token, hw']
      · simp only [Frame.runs, ha']
      · simp only [Frame.clears, hcl']
  | wokeIdle hb =>
      obtain ⟨hw', ha', hcl', hw⟩ := word_notify_idle hb
      refine h.replace rfl ?_ ?_ ?_ (by simp)
      · simp only [Frame.token, hw, hw']; omega
      · simp only [Frame.runs, ha']
      · simp only [Frame.clears, hcl']
  | schedRefused hsd =>
      -- shutdown: the token is dropped, not pushed
      have htl := h.tokens_le
      have hr := h.runs
      have hc := h.clears
      rw [weight_cons] at htl hr hc
      refine ⟨?_, ?_, ?_, ?_, ?_⟩
      · rw [weight_cons]; simp only [Frame.token] at htl ⊢; omega
      · intro hf; rw [hsd] at hf; exact absurd hf (by simp)
      · rw [weight_cons]; exact hr
      · rw [weight_cons]; exact hc
      · intro st hst; exact h.cas st (by simpa using hst)
  | schedUnpark =>
      exact h.leave rfl rfl rfl rfl rfl rfl
  | release =>
      exact h.leave rfl rfl rfl rfl rfl rfl
  | _ => exact h.replace rfl rfl rfl rfl (by simp)

/-- A thread appears that counts for as much as has left the queue. -/
theorem BitsInv.join {t t' : RawTask V W} {f : Frame V W} {fs : Multiset (Frame V W)}
    (h : BitsInv t fs) (hstate : t'.state = t.state) (hsd : t'.shutdown = t.shutdown)
    (htok : f.token + t'.queued ≤ t.queued)
    (heq : t.shutdown = false → f.token + t'.queued = t.queued)
    (hruns : f.runs = 0) (hclears : f.clears = 0) (hcas : ∀ st, f ≠ .cas st) :
    BitsInv t' (f ::ₘ fs) where
  tokens_le := by
    have := h.tokens_le
    rw [weight_cons, hstate]
    omega
  tokens_eq := by
    intro hs
    rw [hsd] at hs
    have h1 := h.tokens_eq hs
    have h2 := heq hs
    rw [weight_cons, hstate]
    omega
  runs := by rw [weight_cons, hruns, hstate, h.runs]; omega
  clears := by rw [weight_cons, hclears, hstate, h.clears]; omega
  cas := by
    intro st hst
    rcases Multiset.mem_cons.mp hst with he | hmem
    · exact absurd he.symm (hcas st)
    · exact h.cas st hmem

theorem bitsInv_handle {t t' : RawTask V W} {fs : Multiset (Frame V W)} (h : BitsInv t fs)
    (hs : HandleStep t t.handle t') : BitsInv t' fs := by
  obtain ⟨⟨hw, ha, hcl⟩, hw', ha', hcl'⟩ := word_join t.state
  have key : (wants t'.state = wants t.state ∧ active t'.state = active t.state
      ∧ closing t'.state = closing t.state) ∧ t'.queued = t.queued ∧ t'.shutdown = t.shutdown := by
    generalize t.handle = hd at hs
    cases hs with
    | setBit => exact ⟨⟨hw, ha, hcl⟩, rfl, rfl⟩
    | dropFetchDone _ => exact ⟨⟨hw', ha', hcl'⟩, rfl, rfl⟩
    | dropFetch _ => exact ⟨⟨hw', ha', hcl'⟩, rfl, rfl⟩
    | _ => exact ⟨⟨rfl, rfl, rfl⟩, rfl, rfl⟩
  obtain ⟨⟨h1, h2, h3⟩, hq, hsd⟩ := key
  refine ⟨?_, ?_, ?_, ?_, h.cas⟩
  · rw [h1, hq]; exact h.tokens_le
  · rw [h1, hq, hsd]; exact h.tokens_eq
  · rw [h2]; exact h.runs
  · rw [h3]; exact h.clears

/-- **The token invariant is preserved by every step.** -/
theorem bitsInv_step {t t' : RawTask V W} {fs fs' : Multiset (Frame V W)} (h : BitsInv t fs)
    (hs : WorldStep t fs t' fs') : BitsInv t' fs' := by
  cases hs with
  | thread hf => exact bitsInv_thread h hf
  | dequeue hq hd =>
      cases hd with
      | drain hsd =>
          refine h.join rfl rfl ?_ (fun hf => ?_) rfl rfl (by simp)
          · simp only [Frame.token]; omega
          · rw [hsd] at hf; exact absurd hf (by simp)
      | _ =>
          refine h.join rfl rfl ?_ (fun _ => ?_) rfl rfl (by simp)
          · simp only [Frame.token]; omega
          · simp only [Frame.token]; omega
  | shutdown =>
      exact ⟨h.tokens_le, fun hf => absurd hf (by simp), h.runs, h.clears, h.cas⟩
  | wake _ _ =>
      exact h.join rfl rfl (Nat.le_of_eq (Nat.zero_add _)) (fun _ => Nat.zero_add _) rfl rfl
        (by simp)
  | wakeByRef _ =>
      exact h.join rfl rfl (Nat.le_of_eq (Nat.zero_add _)) (fun _ => Nat.zero_add _) rfl rfl
        (by simp)
  | cloneWaker _ => exact ⟨h.tokens_le, h.tokens_eq, h.runs, h.clears, h.cas⟩
  | dropWaker _ _ => exact ⟨h.tokens_le, h.tokens_eq, h.runs, h.clears, h.cas⟩
  | handle hh => exact bitsInv_handle h hh

/-! ## What it says about runs -/

/-- The run tokens of the task: in a queue, not yet pushed, or popped and not yet running. -/
def World.tokens (w : World V W) : Nat := weight Frame.token w.frames + w.task.queued

/-- The workers between winning `RUNNING` and completing the task or giving the bit back. -/
def World.runners (w : World V W) : Nat := weight Frame.runs w.frames

/-- A poll is owed: `NOTIFIED` is set and the task is not complete. -/
def owed (s : Word) : Prop := has s notified = true ∧ has s complete = false

/-- An owed poll has a token, or a worker that runs the task. -/
theorem served_of_owed {s : Word} (h : owed s) : wants s = 1 ∨ active s = 1 := by
  obtain ⟨hn, hc⟩ := h
  unfold wants active
  cases hr : has s running <;> simp [hn, hc]

/-- `NOTIFIED` goes away only when a worker wins `RUNNING`, which starts the owed poll. -/
theorem notified_step {t t' : RawTask V W} {fs fs' : Multiset (Frame V W)}
    (hs : WorldStep t fs t' fs') (hn : has t.state notified = true) :
    has t'.state notified = true
      ∨ ∃ rest, fs = .cas t.state ::ₘ rest ∧ fs' = .mkWaker ::ₘ rest := by
  cases hs with
  | @thread _ f f' rest hf =>
      cases hf with
      | casWon _ => exact .inr ⟨rest, rfl, rfl⟩
      | setComplete => left; simp [hn]
      | clearRunning => left; simp [hn]
      | resched _ => left; simp [hn]
      | park _ => left; simp [hn]
      | wokeBusy _ => left; simp
      | wokeIdle _ => left; simp
      | _ => exact .inl hn
  | handle hh =>
      generalize t.handle = hd at hh
      cases hh with
      | setBit => left; simp [hn]
      | dropFetchDone _ => left; simp [hn]
      | dropFetch _ => left; simp [hn]
      | _ => exact .inl hn
  | _ => exact .inl hn

section

variable [DecidableEq V] [DecidableEq W]

theorem bitsInv_reachable {w : World V W} (h : (taskSystem V W).Reachable w) :
    BitsInv w.task w.frames :=
  task_invariant bitsInv_init bitsInv_step h

/-- What is owed is served, in every reachable state before shutdown. -/
theorem served_reachable {w : World V W} (h : (taskSystem V W).Reachable w)
    (hsd : w.task.shutdown = false) (ho : owed w.task.state) : w.tokens = 1 ∨ w.runners = 1 := by
  have hinv := bitsInv_reachable h
  rcases served_of_owed ho with hw | ha
  · left; rw [World.tokens, hinv.tokens_eq hsd, hw]
  · right; rw [World.runners, hinv.runs, ha]

/-- A thread that holds a token holds the only one. -/
theorem token_held {w : World V W} (h : (taskSystem V W).Reachable w)
    (hsd : w.task.shutdown = false) {f : Frame V W} (hf : f ∈ w.frames) (h1 : f.token = 1) :
    w.tokens = 1 := by
  have heq := (bitsInv_reachable h).tokens_eq hsd
  have hle := wants_le_one w.task.state
  have hpos := le_weight (g := Frame.token) hf
  rw [World.tokens]
  omega

/--
**The run-token invariant.**

Before shutdown there is exactly one run token when `NOTIFIED` is set and
`RUNNING` and `COMPLETE` are clear, and none otherwise. So the task is never
queued twice, and a worker at its exchange never holds a word that makes
`poll_fn` bail out. A wake that lands before completion leaves a poll owed; an
owed poll has a token or a running worker, and stays owed until the task
completes or a worker starts that poll; a worker that gives `RUNNING` back with a
poll owed holds the token.
-/
theorem run_token {w : World V W} (h : (taskSystem V W).Reachable w)
    (hsd : w.task.shutdown = false) :
    w.tokens = (if has w.task.state notified = true ∧ has w.task.state running = false
        ∧ has w.task.state complete = false then 1 else 0)
    ∧ w.task.queued ≤ 1
    ∧ (∀ st, .cas st ∈ w.frames → bails st = false)
    ∧ (∀ who w', has w.task.state complete = false →
        w.step (.thread (.fetchNotified who) .go) = some w' →
        owed w'.task.state ∧ (w'.tokens = 1 ∨ w'.runners = 1))
    ∧ (∀ l w', owed w.task.state → w.step l = some w' → w'.task.shutdown = false →
        has w'.task.state complete = true
        ∨ (∃ rest, w.frames = .cas w.task.state ::ₘ rest ∧ w'.frames = .mkWaker ::ₘ rest)
        ∨ owed w'.task.state ∧ (w'.tokens = 1 ∨ w'.runners = 1))
    ∧ (∀ wk w', owed w.task.state → w.step (.thread (.clearPending wk) .go) = some w' →
        .incResched wk ∈ w'.frames ∧ w'.tokens = 1) := by
  have hinv := bitsInv_reachable h
  have htok := hinv.tokens_eq hsd
  refine ⟨?_, ?_, hinv.cas, ?_, ?_, ?_⟩
  · rw [World.tokens, htok, wants]
    cases has w.task.state notified <;> cases has w.task.state running <;>
      cases has w.task.state complete <;> rfl
  · have := wants_le_one w.task.state
    omega
  · intro who w' hc hstep
    have hr' : (taskSystem V W).Reachable w' := reachable_step h hstep
    rw [World.step] at hstep
    split at hstep
    · cases hstep
      have ho : owed (w.task.state ||| notified) := ⟨by simp, by simp [hc]⟩
      exact ⟨ho, served_reachable hr' hsd ho⟩
    · exact absurd hstep (by simp)
  · intro l w' ho hstep hsd'
    have hr' : (taskSystem V W).Reachable w' := reachable_step h hstep
    rcases notified_step (step_worldStep hstep) ho.1 with hn | hcas
    · cases hc : has w'.task.state complete with
      | true => exact .inl rfl
      | false => exact .inr (.inr ⟨⟨hn, hc⟩, served_reachable hr' hsd' ⟨hn, hc⟩⟩)
    · exact .inr (.inl hcas)
  · intro wk w' ho hstep
    have hr' : (taskSystem V W).Reachable w' := reachable_step h hstep
    rw [World.step] at hstep
    split at hstep
    · cases hstep
      have hmem : .incResched wk ∈ (if has w.task.state notified = true then
          (.incResched wk : Frame V W) else .dropWaker wk) ::ₘ w.frames.erase (.clearPending wk) := by
        rw [if_pos ho.1]; exact Multiset.mem_cons_self _ _
      exact ⟨hmem, token_held hr' hsd hmem rfl⟩
    · exact absurd hstep (by simp)

end

/-- A run in which the future wakes its own task and then returns `Pending`. -/
def selfWake : List (Label Unit Unit) :=
  [.thread .spawnPush .go, .thread .spawnJoin .go, .pop, .thread .popped .go,
   .thread (.cas (notified ||| joinInterest)) .go, .thread .mkWaker .go,
   .thread (.matchStage 0) .go, .wakeByRef 0, .thread (.wakeClone 0) .go,
   .thread (.fetchNotified (.byRef 0)) .go, .thread (.release (.byRef 0)) .go,
   .thread (.polling 0) .pending, .thread (.clearPending 0) .go]

/-- After that run the worker that polled holds the one token. -/
theorem run_token_self_wake :
    .incResched 0 ∈ ((taskSystem Unit Unit).exec World.spawnRaw selfWake).frames
      ∧ ((taskSystem Unit Unit).exec World.spawnRaw selfWake).tokens = 1 := by
  have hr : (taskSystem Unit Unit).Reachable ((taskSystem Unit Unit).exec World.spawnRaw selfWake) :=
    .exec (.init rfl)
  have htok := (run_token hr (by decide +kernel)).1
  have hw : has ((taskSystem Unit Unit).exec World.spawnRaw selfWake).task.state notified = true
      ∧ has ((taskSystem Unit Unit).exec World.spawnRaw selfWake).task.state running = false
      ∧ has ((taskSystem Unit Unit).exec World.spawnRaw selfWake).task.state complete = false := by
    decide +kernel
  rw [if_pos hw] at htok
  exact ⟨by decide +kernel, htok⟩

end Nanorun.Task
