import Mathlib.Algebra.Order.Ring.Int
import Mathlib.Tactic.Common
import Nanorun.Lib.Transition

/-!
# Amortised cost

A step may cost more than it is charged if an earlier step was charged more than it
cost. The difference lies in a potential of the state: where every step costs at most
what it is charged and what the potential drops by, a whole run costs at most what it is
charged and the potential it began with.
-/

namespace Transition

variable {σ α : Type}

namespace System

/-- What the steps of a run add up to. -/
def total (S : System σ α) (f : σ → α → Nat) : σ → List α → Nat
  | _, [] => 0
  | s, a :: as => f s a + (S.step s a).elim 0 fun s' => S.total f s' as

theorem total_cons {S : System σ α} {f : σ → α → Nat} {s s' : σ} {a : α} (as : List α)
    (hs : S.step s a = some s') : S.total f s (a :: as) = f s a + S.total f s' as := by
  rw [total, hs, Option.elim_some]

/-- A sum that only looks at the labels. -/
theorem total_label {S : System σ α} {s s' : σ} {as : List α} (f : α → Nat)
    (hr : S.run s as = some s') : S.total (fun _ a => f a) s as = (as.map f).sum := by
  induction as generalizing s with
  | nil => rfl
  | cons a as ih =>
      rw [run] at hr
      obtain ⟨m, hstep, hr⟩ := Option.bind_eq_some_iff.mp hr
      rw [total_cons as hstep, ih hr, List.map_cons, List.sum_cons]

/-- Every allowed step keeps `I`, and its charge and the potential pay for it. -/
def Accounts (S : System σ α) (ok : σ → α → Prop) (I : σ → Prop) (Φ : σ → Int)
    (cost charge : σ → α → Nat) : Prop :=
  ∀ s a s', I s → ok s a → S.step s a = some s' →
    I s' ∧ (cost s a : Int) + Φ s' ≤ Φ s + charge s a

/-- **What is saved in the potential pays for the run.** -/
theorem Accounts.total_le {S : System σ α} {ok : σ → α → Prop} {I : σ → Prop} {Φ : σ → Int}
    {cost charge : σ → α → Nat} (h : S.Accounts ok I Φ cost charge) {s s' : σ} {as : List α}
    (hI : I s) (hm : S.Meets ok s as) (hr : S.run s as = some s') :
    I s' ∧ (S.total cost s as : Int) + Φ s' ≤ Φ s + S.total charge s as := by
  induction as generalizing s with
  | nil =>
      obtain rfl := Option.some.inj hr
      exact ⟨hI, by simp [total]⟩
  | cons a as ih =>
      obtain ⟨hok, m, hstep, hm⟩ := hm
      rw [run, hstep, Option.bind_some] at hr
      obtain ⟨hI', hle⟩ := h s a m hI hok hstep
      obtain ⟨hI'', hrest⟩ := ih hI' hm hr
      refine ⟨hI'', ?_⟩
      rw [total_cons as hstep, total_cons as hstep]
      push_cast
      omega

end System

end Transition
