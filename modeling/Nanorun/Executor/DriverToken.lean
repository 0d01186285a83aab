import Nanorun.Executor.Steps

/-!
# The driver token

`driver_held` is a lock: at any moment at most one worker stands between winning
the `compare_exchange` and the `store(false)` that gives the token back, and the
flag is set exactly while one does. Two facts about sleeping follow from it.

* While a worker is between `driver_parked.store(true)` and the matching
  `store(false)`, the flag reads `true`, whoever looks.
* Some worker is always outside `thread::park`: a worker parks only after losing
  the race for the token, and then the winner is not parked.
-/

namespace Nanorun.Executor

open Function

variable {n : Nat} {τ : Type}

/-- The worker has won the driver token and not yet given it back. -/
def WorkerPc.holds : WorkerPc τ → Bool
  | .setParked | .hasWork true _ | .unsetParked | .releaseEarly | .nextDeadline
  | .reactorPoll _ | .clearParked | .releaseDriver => true
  | _ => false

/-- The worker has set `driver_parked` and not yet cleared it. -/
def WorkerPc.flagged : WorkerPc τ → Bool
  | .hasWork true _ | .unsetParked | .nextDeadline | .reactorPoll _ | .clearParked => true
  | _ => false

theorem WorkerPc.holds_of_flagged {pc : WorkerPc τ} (h : pc.flagged = true) : pc.holds = true := by
  unfold WorkerPc.flagged at h
  split at h <;> first | rfl | exact absurd h (by simp)

/-- What a worker step does to the token. -/
theorem WorkerStep.token {sh sh' : Shared n τ} {i : Fin n} {pc pc' : WorkerPc τ}
    (h : WorkerStep sh i pc sh' pc') :
    (pc = .casDriver ∧ sh.driverHeld = false ∧ pc' = .setParked ∧ sh'.driverHeld = true)
    ∨ (pc.holds = true ∧ pc'.holds = false ∧ sh'.driverHeld = false)
    ∨ (pc'.holds = pc.holds ∧ sh'.driverHeld = sh.driverHeld) := by
  cases h with
  | casWon hf => exact Or.inl ⟨rfl, hf, rfl, rfl⟩
  | releaseEarly => exact Or.inr (Or.inl ⟨rfl, rfl, rfl⟩)
  | releaseDriver => exact Or.inr (Or.inl ⟨rfl, rfl, rfl⟩)
  | takeGlobal hpc _ => rcases hpc with rfl | rfl <;> exact Or.inr (Or.inr ⟨rfl, rfl⟩)
  | takeLocal hpc _ => rcases hpc with rfl | rfl <;> exact Or.inr (Or.inr ⟨rfl, rfl⟩)
  | missSecond _ hpc => rcases hpc with rfl | ⟨_, rfl⟩ <;> exact Or.inr (Or.inr ⟨rfl, rfl⟩)
  | stealOne _ _ => split <;> exact Or.inr (Or.inr ⟨rfl, rfl⟩)
  | @lookOn recheck _ _ _ => cases recheck <;> exact Or.inr (Or.inr ⟨rfl, rfl⟩)
  | @lookYes recheck _ _ => cases recheck <;> exact Or.inr (Or.inr ⟨rfl, rfl⟩)
  | @lookNo recheck _ _ => cases recheck <;> exact Or.inr (Or.inr ⟨rfl, rfl⟩)
  | _ => exact Or.inr (Or.inr ⟨rfl, rfl⟩)

/-- Only the holder writes `driver_parked`, and it stands in the flagged section iff it set it. -/
theorem WorkerStep.parkedFlag {sh sh' : Shared n τ} {i : Fin n} {pc pc' : WorkerPc τ}
    (h : WorkerStep sh i pc sh' pc') (hf : pc.flagged = true → sh.driverParked = true) :
    (pc'.flagged = true → sh'.driverParked = true)
    ∧ (pc.holds = true ∨ sh'.driverParked = sh.driverParked) := by
  cases h with
  | setParked => exact ⟨fun _ => rfl, Or.inl rfl⟩
  | unsetParked => exact ⟨fun hc => absurd hc (by simp [WorkerPc.flagged]), Or.inl rfl⟩
  | clearParked => exact ⟨fun hc => absurd hc (by simp [WorkerPc.flagged]), Or.inl rfl⟩
  | nextDeadline => exact ⟨fun _ => hf rfl, Or.inl rfl⟩
  | pollWoken _ => exact ⟨fun _ => hf rfl, Or.inl rfl⟩
  | pollReturned => exact ⟨fun _ => hf rfl, Or.inl rfl⟩
  | @lookOn recheck _ _ _ =>
      cases recheck with
      | false => exact ⟨fun hc => absurd hc (by simp [WorkerPc.flagged]), Or.inr rfl⟩
      | true => exact ⟨fun _ => hf rfl, Or.inl rfl⟩
  | @lookYes recheck _ _ =>
      cases recheck with
      | false => exact ⟨fun hc => absurd hc (by simp [WorkerPc.flagged]), Or.inr rfl⟩
      | true => exact ⟨fun _ => hf rfl, Or.inl rfl⟩
  | @lookNo recheck _ _ =>
      cases recheck with
      | false => exact ⟨fun hc => absurd hc (by simp [WorkerPc.flagged]), Or.inr rfl⟩
      | true => exact ⟨fun _ => hf rfl, Or.inl rfl⟩
  | missSecond _ hpc =>
      refine ⟨fun hc => absurd hc ?_, Or.inr rfl⟩
      rcases hpc with rfl | ⟨_, rfl⟩ <;> simp [WorkerPc.flagged]
  | stealOne _ _ =>
      refine ⟨fun hc => absurd hc ?_, Or.inr rfl⟩
      split <;> simp [WorkerPc.flagged]
  | _ => exact ⟨fun hc => absurd hc (by simp [WorkerPc.flagged]), Or.inr rfl⟩

/-- A worker parks only when somebody holds the token. -/
theorem WorkerStep.park_held {sh sh' : Shared n τ} {i : Fin n} {pc pc' : WorkerPc τ}
    (h : WorkerStep sh i pc sh' pc') (hp : pc' = .park) :
    sh.driverHeld = true ∧ pc.holds = false := by
  cases h with
  | casLost hf => exact ⟨hf, rfl⟩
  | missSecond _ hpc => subst hp; rcases hpc with h | ⟨_, h⟩ <;> exact absurd h (by simp)
  | stealOne _ _ => split at hp <;> exact absurd hp (by simp)
  | @lookYes recheck _ _ => cases recheck <;> exact absurd hp (by simp)
  | @lookNo recheck _ _ => cases recheck <;> exact absurd hp (by simp)
  | _ => exact absurd hp (by simp)

/-- Calls and `Multi::drop` never touch the token or the parked flag. -/
theorem CallStep.driver {sh sh' : Shared n τ} {call call' : Call n τ}
    (h : CallStep sh call sh' call') :
    sh'.driverHeld = sh.driverHeld ∧ sh'.driverParked = sh.driverParked := by
  cases h <;> exact ⟨rfl, rfl⟩

theorem DropStep.driver {sh sh' : Shared n τ} {threads : Fin n → Worker τ} {d d' : DropPc}
    (h : DropStep sh threads d sh' d') :
    sh'.driverHeld = sh.driverHeld ∧ sh'.driverParked = sh.driverParked := by
  cases h <;> exact ⟨rfl, rfl⟩

/-- The driver-token invariants. -/
structure TokenInv (w : World n τ) : Prop where
  /-- The flag is set exactly while one worker holds the token. -/
  owner : ∃ o : Option (Fin n), w.shared.driverHeld = o.isSome
    ∧ ∀ i, (w.threads i).pc.holds = true ↔ o = some i
  /-- Inside the flagged section, `driver_parked` reads `true`. -/
  flag : ∀ i, (w.threads i).pc.flagged = true → w.shared.driverParked = true
  /-- Not every worker is in `thread::park`. -/
  someUp : 0 < n → ∃ i, (w.threads i).pc ≠ .park

theorem TokenInv.holder_unique {w : World n τ} (h : TokenInv w) {i j : Fin n}
    (hi : (w.threads i).pc.holds = true) (hj : (w.threads j).pc.holds = true) : i = j := by
  obtain ⟨o, _, ho⟩ := h.owner
  exact Option.some.inj (((ho i).mp hi).symm.trans ((ho j).mp hj))

theorem TokenInv.held {w : World n τ} (h : TokenInv w) {i : Fin n}
    (hi : (w.threads i).pc.holds = true) : w.shared.driverHeld = true := by
  obtain ⟨o, hh, ho⟩ := h.owner
  rw [hh, (ho i).mp hi]
  rfl

theorem tokenInv_init : TokenInv (World.new n τ) where
  owner := ⟨none, rfl, fun i => ⟨fun h => absurd h (by simp [World.new, WorkerPc.holds]),
    fun h => absurd h (by simp)⟩⟩
  flag := by intro i h; exact absurd h (by simp [World.new, WorkerPc.flagged])
  someUp := fun hn => ⟨⟨0, hn⟩, by simp [World.new]⟩

/-- The token invariants see only the two flags and the program counters. -/
theorem TokenInv.congr {w w' : World n τ} (h : TokenInv w)
    (hd : w'.shared.driverHeld = w.shared.driverHeld
      ∧ w'.shared.driverParked = w.shared.driverParked)
    (ht : w'.threads = w.threads) : TokenInv w' where
  owner := by rw [hd.1, ht]; exact h.owner
  flag := by rw [hd.2, ht]; exact h.flag
  someUp := by rw [ht]; exact h.someUp

theorem owner_worker {w : World n τ} {i : Fin n} {sh' : Shared n τ} {th' : Worker τ}
    (h : TokenInv w) (hs : WorkerStep w.shared i (w.threads i).pc sh' th'.pc) :
    ∃ o : Option (Fin n), sh'.driverHeld = o.isSome
      ∧ ∀ j, (update w.threads i th' j).pc.holds = true ↔ o = some j := by
  obtain ⟨o, hh, ho⟩ := h.owner
  rcases hs.token with ⟨hpc, hfree, hpc', hheld⟩ | ⟨hpc, hpc', hheld⟩ | ⟨hpc, hheld⟩
  · -- the token was free, so nobody held it
    have ho0 : o = none := by
      rw [hh] at hfree
      cases o with
      | none => rfl
      | some _ => exact absurd hfree (by simp)
    refine ⟨some i, by rw [hheld]; rfl, ?_⟩
    intro j
    by_cases hji : j = i
    · subst hji; rw [update_self, hpc']; simp [WorkerPc.holds]
    · rw [update_of_ne hji, ho j, ho0]
      simp [Ne.symm hji]
  · have hoi : o = some i := (ho i).mp hpc
    refine ⟨none, by rw [hheld]; rfl, ?_⟩
    intro j
    by_cases hji : j = i
    · subst hji; rw [update_self, hpc']; simp
    · rw [update_of_ne hji, ho j, hoi]
      simp [Ne.symm hji]
  · refine ⟨o, by rw [hheld, hh], ?_⟩
    intro j
    by_cases hji : j = i
    · subst hji; rw [update_self, hpc]; exact ho j
    · rw [update_of_ne hji]; exact ho j

theorem flag_worker {w : World n τ} {i : Fin n} {sh' : Shared n τ} {th' : Worker τ}
    (h : TokenInv w) (hs : WorkerStep w.shared i (w.threads i).pc sh' th'.pc) :
    ∀ j, (update w.threads i th' j).pc.flagged = true → sh'.driverParked = true := by
  intro j hj
  obtain ⟨hself, hother⟩ := hs.parkedFlag (h.flag i)
  by_cases hji : j = i
  · subst hji; rw [update_self] at hj; exact hself hj
  · rw [update_of_ne hji] at hj
    rcases hother with hold | hsame
    -- only the token holder lowers the flag, and that is `j` itself
    · exact absurd (h.holder_unique (WorkerPc.holds_of_flagged hj) hold) hji
    · rw [hsame]; exact h.flag j hj

theorem someUp_worker {w : World n τ} {i : Fin n} {sh' : Shared n τ} {th' : Worker τ}
    (h : TokenInv w) (hs : WorkerStep w.shared i (w.threads i).pc sh' th'.pc) :
    ∃ j, (update w.threads i th' j).pc ≠ .park := by
  by_cases hp : th'.pc = .park
  · -- the worker lost the token to somebody, and that somebody is not parked
    obtain ⟨hheld, hnot⟩ := hs.park_held hp
    obtain ⟨o, hh, ho⟩ := h.owner
    cases o with
    | none => rw [hh] at hheld; exact absurd hheld (by simp)
    | some j =>
        have hj : (w.threads j).pc.holds = true := (ho j).mpr rfl
        have hji : j ≠ i := by
          intro he; rw [he, hnot] at hj; exact absurd hj (by simp)
        refine ⟨j, ?_⟩
        rw [update_of_ne hji]
        intro hc; rw [hc] at hj; exact absurd hj (by simp [WorkerPc.holds])
  · exact ⟨i, by rw [update_self]; exact hp⟩

/-- **The token invariants are preserved by every step.** -/
theorem tokenInv_step {w w' : World n τ} {l : Label n τ} (h : TokenInv w)
    (hs : WorldStep w l w') : TokenInv w' := by
  cases hs with
  | worker hw => exact ⟨owner_worker h hw, flag_worker h hw, fun _ => someUp_worker h hw⟩
  | enter _ _ => exact h.congr ⟨rfl, rfl⟩ rfl
  | call hc => exact h.congr hc.driver rfl
  | drop hd => exact h.congr hd.driver rfl

theorem tokenInv_reachable {w : World n τ} (h : (executor n τ).Reachable w) : TokenInv w :=
  executor_invariant tokenInv_init tokenInv_step h

end Nanorun.Executor
