import Nanorun.Lib.Transition

/-!
# Simulations between transition systems

A simulation reads the concrete states as abstract ones, and each concrete step as the
abstract steps it `shows`: none, one, or several. It carries the invariant under which
that works. So every concrete run is an abstract run of what it shows, and every
reachable concrete state reads as a reachable abstract one.
-/

namespace Transition

variable {σ α τ β : Type}

namespace System

@[simp] theorem run_singleton (S : System σ α) (s : σ) (a : α) : S.run s [a] = S.step s a := by
  rw [run]
  cases S.step s a <;> rfl

theorem run_append (S : System σ α) (s : σ) (as bs : List α) :
    S.run s (as ++ bs) = (S.run s as).bind fun m => S.run m bs := by
  induction as generalizing s with
  | nil => rfl
  | cons a as ih =>
      rw [List.cons_append, run, run, Option.bind_assoc]
      exact Option.bind_congr fun m _ => ih m

end System

/-- The steps of `C`, read as steps of `A`. -/
structure Simulation (C : System σ α) (A : System τ β) where
  inv : σ → Prop
  abs : σ → τ
  shows : σ → α → List β
  init : ∀ s, C.init s → inv s ∧ A.init (abs s)
  step : ∀ s a s', inv s → C.step s a = some s' →
    inv s' ∧ A.run (abs s) (shows s a) = some (abs s')

namespace Simulation

variable {C : System σ α} {A : System τ β}

/-- **Every run shows a run.** -/
theorem run (sim : Simulation C A) {s s' : σ} {as : List α} (hi : sim.inv s)
    (hr : C.run s as = some s') :
    sim.inv s' ∧ A.run (sim.abs s) (C.record sim.shows s as) = some (sim.abs s') := by
  induction as generalizing s with
  | nil =>
      obtain rfl := Option.some.inj hr
      exact ⟨hi, rfl⟩
  | cons a as ih =>
      rw [System.run] at hr
      obtain ⟨m, hm, hr⟩ := Option.bind_eq_some_iff.mp hr
      obtain ⟨him, hshow⟩ := sim.step s a m hi hm
      obtain ⟨hi', hrest⟩ := ih him hr
      refine ⟨hi', ?_⟩
      rw [System.record, hm, Option.elim_some, System.run_append, hshow, Option.bind_some]
      exact hrest

theorem reachable (sim : Simulation C A) {s : σ} (h : C.Reachable s) :
    sim.inv s ∧ A.Reachable (sim.abs s) := by
  refine h.invariant (I := fun s => sim.inv s ∧ A.Reachable (sim.abs s)) ?_ ?_
  · intro s hs
    obtain ⟨hi, ha⟩ := sim.init s hs
    exact ⟨hi, .init ha⟩
  · intro s a s' hs hstep
    obtain ⟨hi, hshow⟩ := sim.step s a s' hs.1 hstep
    exact ⟨hi, hs.2.run hshow⟩

end Simulation

end Transition
