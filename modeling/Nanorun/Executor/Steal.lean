import Mathlib.Logic.Relation
import Nanorun.Executor.Steps
import Nanorun.Lib.Buckets

/-!
# Stealing

`steal` and `steal_from` of `executor/multi/worker.rs` as the functions they are, for a
worker that nobody interferes with. The scan begins at a random worker, goes round once
and skips the thief. `steal_steps` says that the executor's worker, left alone, does the
same one lock at a time.

The victim's queue is split in two: the older half is taken, the oldest task to be polled
and the others behind the thief's own. Nothing here depends on the number that the
generator gives, only on the scan's going all the way round.
-/

namespace Nanorun.Executor

open Function

variable {n : Nat} {τ : Type}

/-- `steal_from` -/
def stealFrom (sh : Shared n τ) (victim me : Fin n) : Option τ × Shared n τ :=
  let total := (sh.workers victim).localQueue.length
  if total = 0 then (none, sh)
  else
    let take := (total + 1) / 2
    let stolen := (sh.workers victim).localQueue.take take
    let sh := sh.setLocal victim ((sh.workers victim).localQueue.drop take)
    -- `stolen.pop_front()`, then the thief's lock if there is more
    let rest := stolen.tail
    (stolen.head?,
      if rest.isEmpty then sh else sh.setLocal me ((sh.workers me).localQueue ++ rest))

theorem victim_lt (me : Fin n) (start i : Nat) : (start + i) % n < n := Nat.mod_lt _ me.pos

/-- The worker that the scan looks at in turn `i`. -/
def victimAt (me : Fin n) (start i : Nat) : Fin n := ⟨(start + i) % n, victim_lt me start i⟩

/-- The `for` loop of `steal`, with the turns still to come. -/
def stealScan (sh : Shared n τ) (me : Fin n) (start : Nat) : List Nat → Option τ × Shared n τ
  | [] => (none, sh)
  | i :: turns =>
      if victimAt me start i = me then stealScan sh me start turns
      else
        match stealFrom sh (victimAt me start i) me with
        | (some t, sh') => (some t, sh')
        | (none, sh') => stealScan sh' me start turns

/-- What `steal` returns and leaves, and the generator's next state. -/
structure Steal (n : Nat) (τ : Type) where
  returned : Option τ
  shared : Shared n τ
  rng : UInt64

/-- `steal` -/
def steal (sh : Shared n τ) (me : Fin n) (rng : UInt64) : Steal n τ :=
  if n ≤ 1 then { returned := none, shared := sh, rng := rng }
  else
    let x := xorshift64 rng
    let r := stealScan sh me (x.toNat % n) (List.range n)
    { returned := r.1, shared := r.2, rng := x }

/-! ## The local queues -/

/-- The local queue of each worker. -/
def Shared.queues (sh : Shared n τ) (i : Fin n) : List τ := (sh.workers i).localQueue

@[simp] theorem queues_setLocal (sh : Shared n τ) (i : Fin n) (q : List τ) :
    (sh.setLocal i q).queues = update sh.queues i q := by
  funext j
  by_cases hj : j = i
  · subst hj; simp [Shared.queues, Shared.setLocal, Shared.setSlot]
  · simp [Shared.queues, Shared.setLocal, Shared.setSlot, hj]

/--
What a theft of `t` from `victim` leaves: the newer half there, the older one without its
first task behind the thief's own queue.
-/
structure Stolen (sh sh' : Shared n τ) (me victim : Fin n) (t : τ) : Prop where
  oldest : (sh.queues victim).head? = some t
  kept : sh'.queues victim = (sh.queues victim).drop (((sh.queues victim).length + 1) / 2)
  joined : sh'.queues me
    = sh.queues me ++ ((sh.queues victim).take (((sh.queues victim).length + 1) / 2)).tail
  others : ∀ i, i ≠ victim → i ≠ me → sh'.queues i = sh.queues i
  injector : sh'.injector = sh.injector

theorem stealFrom_empty {sh : Shared n τ} {victim : Fin n} (me : Fin n)
    (h : sh.queues victim = []) : stealFrom sh victim me = (none, sh) := by
  have hlen : (sh.workers victim).localQueue.length = 0 := congrArg List.length h
  rw [stealFrom, if_pos hlen]

/-- A queue `t :: q` is split after `t` and the older half of `q`. -/
theorem stealFrom_eq {sh : Shared n τ} {victim me : Fin n} {t : τ} {q : List τ}
    (hne : victim ≠ me) (h : sh.queues victim = t :: q) :
    stealFrom sh victim me = (some t,
      if (q.take (q.length / 2)).isEmpty then sh.setLocal victim (q.drop (q.length / 2))
      else (sh.setLocal victim (q.drop (q.length / 2))).setLocal me
        (sh.queues me ++ q.take (q.length / 2))) := by
  have hq : (sh.workers victim).localQueue = t :: q := h
  have htake : (q.length + 1 + 1) / 2 = q.length / 2 + 1 := by omega
  have hme : ((sh.setLocal victim (q.drop (q.length / 2))).workers me).localQueue
      = sh.queues me := by
    simp [Shared.queues, Shared.setLocal, Shared.setSlot, hne.symm]
  simp [stealFrom, hq, htake, hme]

theorem stealFrom_cons {sh : Shared n τ} {victim me : Fin n} {t : τ} {q : List τ}
    (hne : victim ≠ me) (h : sh.queues victim = t :: q) :
    (stealFrom sh victim me).1 = some t ∧ Stolen sh (stealFrom sh victim me).2 me victim t := by
  have htake : (q.length + 1 + 1) / 2 = q.length / 2 + 1 := by omega
  have hone := stealFrom_eq hne h
  have hqueues : (stealFrom sh victim me).2.queues
      = update (update sh.queues victim (q.drop (q.length / 2))) me
          (sh.queues me ++ q.take (q.length / 2)) := by
    rw [hone]
    simp only
    split
    · rename_i hempty
      -- nothing to append, and the thief's lock is not taken
      rw [List.isEmpty_iff.mp hempty, List.append_nil, queues_setLocal,
        update_eq_self_iff.mpr (update_of_ne hne.symm _ _).symm]
    · rw [queues_setLocal, queues_setLocal]
  refine ⟨by rw [hone], ?_, ?_, ?_, ?_, ?_⟩
  · rw [h]
    rfl
  · rw [hqueues, h, update_of_ne hne, update_self, List.length_cons, htake, List.drop_succ_cons]
  · rw [hqueues, h, update_self, List.length_cons, htake, List.take_succ_cons, List.tail_cons]
  · intro i hv hm
    rw [hqueues, update_of_ne hm, update_of_ne hv]
  · rw [hone]
    simp only
    split <;> rfl

/-- A theft moves tasks and loses none. -/
theorem Stolen.conserves {sh sh' : Shared n τ} {me victim : Fin n} {t : τ}
    (h : Stolen sh sh' me victim t) (hne : victim ≠ me) :
    Buckets.contents sh'.queues + {t} = Buckets.contents sh.queues := by
  obtain ⟨q, hq⟩ : ∃ q, sh.queues victim = t :: q := by
    have hhead := h.oldest
    cases hl : sh.queues victim with
    | nil => rw [hl] at hhead; exact absurd hhead (by simp)
    | cons x q =>
        rw [hl] at hhead
        obtain rfl := Option.some.inj hhead
        exact ⟨q, rfl⟩
  have htake : (q.length + 1 + 1) / 2 = q.length / 2 + 1 := by omega
  have hqueues : sh'.queues = update (update sh.queues victim (q.drop (q.length / 2))) me
      (sh.queues me ++ q.take (q.length / 2)) := by
    funext i
    by_cases hm : i = me
    · subst hm
      rw [update_self, h.joined, hq, List.length_cons, htake, List.take_succ_cons, List.tail_cons]
    · rw [update_of_ne hm]
      by_cases hv : i = victim
      · subst hv
        rw [update_self, h.kept, hq, List.length_cons, htake, List.drop_succ_cons]
      · rw [update_of_ne hv]
        exact h.others i hv hm
  -- what the two writes change, and what the split adds up to
  have h1 := Buckets.contents_update sh.queues victim (q.drop (q.length / 2))
  have h2 := Buckets.contents_update (update sh.queues victim (q.drop (q.length / 2))) me
    (sh.queues me ++ q.take (q.length / 2))
  have hsplit : ((q.take (q.length / 2) : List τ) : Multiset τ) + (q.drop (q.length / 2) : List τ)
      = (q : Multiset τ) := by
    rw [Multiset.coe_add, List.take_append_drop]
  rw [← hqueues, update_of_ne hne.symm, ← Multiset.coe_add] at h2
  rw [hq, ← Multiset.cons_coe, ← hsplit, ← Multiset.singleton_add] at h1
  generalize Buckets.contents (update sh.queues victim (q.drop (q.length / 2))) = between at h1 h2
  have hthief : Buckets.contents sh'.queues = between + (q.take (q.length / 2) : List τ) := by
    refine add_right_cancel (b := (sh.queues me : Multiset τ)) ?_
    rw [h2]
    ac_rfl
  refine add_right_cancel (b := ((q.drop (q.length / 2) : List τ) : Multiset τ)) ?_
  rw [← h1, hthief]
  ac_rfl

/-! ## The scan -/

/-- The scan comes to every worker. -/
theorem victimAt_surjective (me : Fin n) (start : Nat) (v : Fin n) :
    ∃ i ∈ List.range n, victimAt me start i = v := by
  refine ⟨(v.val + (n - start % n)) % n, List.mem_range.mpr (Nat.mod_lt _ me.pos), Fin.ext ?_⟩
  show (start + (v.val + (n - start % n)) % n) % n = v.val
  have hlt := Nat.mod_lt start me.pos
  have hsum : start % n + (v.val + (n - start % n)) = v.val + n := by omega
  rw [Nat.add_mod_mod, ← Nat.mod_add_mod, hsum, Nat.add_mod_right, Nat.mod_eq_of_lt v.isLt]

/-- The scan finds nothing in the queues it looks at, or robs the first that has a task. -/
theorem stealScan_cases (sh : Shared n τ) (me : Fin n) (start : Nat) (turns : List Nat) :
    (stealScan sh me start turns = (none, sh)
      ∧ ∀ i ∈ turns, victimAt me start i ≠ me → sh.queues (victimAt me start i) = [])
    ∨ ∃ victim t, victim ≠ me ∧ (stealScan sh me start turns).1 = some t
        ∧ Stolen sh (stealScan sh me start turns).2 me victim t := by
  induction turns with
  | nil => exact .inl ⟨rfl, fun _ hi => absurd hi List.not_mem_nil⟩
  | cons i turns ih =>
      rw [stealScan]
      split
      · rename_i hme
        rcases ih with ⟨hscan, hempty⟩ | hfound
        · refine .inl ⟨hscan, fun j hj hne => ?_⟩
          rcases List.mem_cons.mp hj with rfl | hj
          · exact absurd hme hne
          · exact hempty j hj hne
        · exact .inr hfound
      · rename_i hne
        cases hq : sh.queues (victimAt me start i) with
        | nil =>
            rw [stealFrom_empty me hq]
            rcases ih with ⟨hscan, hempty⟩ | hfound
            · refine .inl ⟨hscan, fun j hj hne => ?_⟩
              rcases List.mem_cons.mp hj with rfl | hj
              · exact hq
              · exact hempty j hj hne
            · exact .inr hfound
        | cons t q =>
            obtain ⟨hsome, hstolen⟩ := stealFrom_cons hne hq
            generalize stealFrom sh (victimAt me start i) me = r at hsome hstolen
            obtain ⟨first, sh'⟩ := r
            simp only at hsome
            subst hsome
            exact .inr ⟨_, t, hne, rfl, hstolen⟩

/--
**Stealing conserves tasks and finds work whenever there is some.**

For any number of workers, any thief, any state of the generator and any contents of the
local queues: `steal` returns `None` exactly if every other worker's queue is empty, and
then changes nothing. Otherwise it takes the older half of one other worker's queue,
rounded up: it returns the oldest task and appends the rest to the thief's queue, in order;
no other queue changes. All queues together with the returned task hold what they held.
-/
theorem steal_spec (sh : Shared n τ) (me : Fin n) (rng : UInt64) :
    ((steal sh me rng).returned = none ↔ ∀ i, i ≠ me → sh.queues i = [])
    ∧ ((steal sh me rng).returned = none → (steal sh me rng).shared = sh)
    ∧ (∀ t, (steal sh me rng).returned = some t →
        ∃ victim, victim ≠ me ∧ Stolen sh (steal sh me rng).shared me victim t)
    ∧ Buckets.contents (steal sh me rng).shared.queues + (steal sh me rng).returned.toList
        = Buckets.contents sh.queues := by
  -- either all peers are idle and nothing happens, or there is a theft
  have hcases : ((steal sh me rng).returned = none ∧ (steal sh me rng).shared = sh
        ∧ ∀ i, i ≠ me → sh.queues i = [])
      ∨ ∃ victim t, victim ≠ me ∧ (steal sh me rng).returned = some t
        ∧ Stolen sh (steal sh me rng).shared me victim t := by
    unfold steal
    split
    · rename_i hone
      refine .inl ⟨rfl, rfl, fun i hne => absurd (Fin.ext ?_) hne⟩
      omega
    · rcases stealScan_cases sh me ((xorshift64 rng).toNat % n) (List.range n)
        with ⟨hscan, hempty⟩ | hfound
      · refine .inl ⟨congrArg Prod.fst hscan, congrArg Prod.snd hscan, fun v hne => ?_⟩
        obtain ⟨i, hi, rfl⟩ := victimAt_surjective me ((xorshift64 rng).toNat % n) v
        exact hempty i hi hne
      · exact .inr hfound
  rcases hcases with ⟨hnone, hsame, hempty⟩ | ⟨victim, t, hne, hsome, hstolen⟩
  · refine ⟨⟨fun _ => hempty, fun _ => hnone⟩, fun _ => hsame, fun t ht => ?_, ?_⟩
    · rw [hnone] at ht
      exact absurd ht (by simp)
    · rw [hnone, hsame]
      simp
  · have hsome' : ¬ (steal sh me rng).returned = none := by
      rw [hsome]
      simp
    refine ⟨⟨fun h => absurd h hsome', fun hall => ?_⟩, fun h => absurd h hsome', fun t' ht => ?_, ?_⟩
    · have hold := hstolen.oldest
      rw [hall victim hne] at hold
      exact absurd hold (by simp)
    · rw [hsome] at ht
      obtain rfl := Option.some.inj ht
      exact ⟨victim, hne, hstolen⟩
    · rw [hsome]
      exact hstolen.conserves hne

/-! ## The executor's worker does the same -/

/-- Worker `i` takes steps that nobody else gets between. -/
def WorkerGoes (i : Fin n) : Shared n τ × Worker τ → Shared n τ × Worker τ → Prop :=
  Relation.ReflTransGen fun a b => workerNext a.1 i a.2 .go = some b

/-- Where `steal` leaves its caller. -/
def afterSteal (returned : Option τ) : WorkerPc τ := returned.elim .idleShutdown .poll

/-- One turn of the scan, as the executor makes it. -/
theorem stealStep_turn {sh : Shared n τ} {i : Fin n} (th : Worker τ) (start : Nat) {k : Nat}
    (hk : k < n) :
    stealStep sh i th start k =
      if victimAt i start k = i then (sh, th.goto (.steal start (k + 1)))
      else
        match stealTake (sh.queues (victimAt i start k)) with
        | none => (sh, th.goto (.steal start (k + 1)))
        | some (first, stolen, rest) =>
            (sh.setLocal (victimAt i start k) rest,
              th.goto (if stolen.isEmpty then .poll first else .stealExtend first stolen)) := by
  rw [stealStep, if_pos hk]
  rfl

theorem scan_goes (sh : Shared n τ) (i : Fin n) (th : Worker τ) (start : Nat) {k m : Nat}
    (h : k + m = n) :
    WorkerGoes i (sh, th.goto (.steal start k))
      ((stealScan sh i start (List.range' k m)).2,
        th.goto (afterSteal (stealScan sh i start (List.range' k m)).1)) := by
  induction m generalizing k with
  | zero =>
      refine .single ?_
      show some (stealStep sh i _ start k) = _
      rw [stealStep, if_neg (by omega)]
      rfl
  | succ m ih =>
      have hrest := ih (k := k + 1) (by omega)
      have hstep : workerNext sh i (th.goto (.steal start k)) .go
          = some (stealStep sh i (th.goto (.steal start k)) start k) := rfl
      rw [stealStep_turn _ _ (by omega)] at hstep
      rw [List.range'_succ, stealScan]
      split
      · rename_i hme
        rw [if_pos hme] at hstep
        exact .head hstep hrest
      · rename_i hne
        rw [if_neg hne] at hstep
        cases hq : sh.queues (victimAt i start k) with
        | nil =>
            rw [hq, stealTake_nil] at hstep
            rw [stealFrom_empty i hq]
            exact .head hstep hrest
        | cons t q =>
            rw [hq, stealTake_cons] at hstep
            rw [stealFrom_eq hne hq]
            refine .head hstep ?_
            -- the thief's own lock is a second step, if there is anything to append
            simp only
            split
            · exact .refl
            · refine .single ?_
              have hown : ((sh.setLocal (victimAt i start k) (q.drop (q.length / 2))).workers i).localQueue
                  = sh.queues i := by
                have hq' := congrFun (queues_setLocal sh (victimAt i start k) (q.drop (q.length / 2))) i
                rw [update_of_ne (Ne.symm hne)] at hq'
                exact hq'
              show some _ = some _
              rw [hown]
              rfl

/-- **A worker that is left alone steals as `steal` does.** -/
theorem steal_steps (sh : Shared n τ) (i : Fin n) (th : Worker τ) :
    WorkerGoes i (sh, th.beginSteal n)
      ((steal sh i th.rng).shared,
        { th with pc := afterSteal (steal sh i th.rng).returned, rng := (steal sh i th.rng).rng }) := by
  unfold Worker.beginSteal steal
  split
  · exact .refl
  · have h := scan_goes sh i { th with rng := xorshift64 th.rng } ((xorshift64 th.rng).toNat % n)
      (Nat.zero_add n)
    rw [← List.range_eq_range'] at h
    exact h

end Nanorun.Executor
