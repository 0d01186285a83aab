import Mathlib.Logic.Function.Basic

/-!
# Ledgers

A table of things that can be taken and given back, and the holders that claim them. Where
every entry is claimed by the holder it names and every claim is an entry, nothing is held
twice, nothing is held that is not there, and nothing is there that nobody holds. The two
are kept apart by different parties, so each operation changes both sides and has one rule.
-/

namespace Ledger

variable {ν δ ο : Type}

/-- The entry under `n` names its holder, who claims it under `n`. -/
structure Balanced (owner : δ → ο) (table : ν → Option δ) (claim : ο → Option (ν × δ)) : Prop where
  claimed : ∀ n d, table n = some d → claim (owner d) = some (n, d)
  entered : ∀ o n d, claim o = some (n, d) → owner d = o ∧ table n = some d

namespace Balanced

variable {owner : δ → ο} {table : ν → Option δ} {claim : ο → Option (ν × δ)}

theorem empty : Balanced owner (fun _ : ν => none) (fun _ => none) where
  claimed := by intro n d h; exact absurd h (by simp)
  entered := by intro o n d h; exact absurd h (by simp)

/-- **Nothing is held twice.** -/
theorem unique (h : Balanced owner table claim) {o o' : ο} {n : ν} {d d' : δ}
    (ho : claim o = some (n, d)) (ho' : claim o' = some (n, d')) : o = o' := by
  obtain ⟨hown, hd⟩ := h.entered o n d ho
  obtain ⟨hown', hd'⟩ := h.entered o' n d' ho'
  obtain rfl := Option.some.inj (hd.symm.trans hd')
  exact hown.symm.trans hown'

/-- The same entries and claims, differently computed. -/
theorem congr (h : Balanced owner table claim) {table' : ν → Option δ}
    {claim' : ο → Option (ν × δ)} (ht : ∀ n, table' n = table n) (hc : ∀ o, claim' o = claim o) :
    Balanced owner table' claim' := by
  obtain rfl : table' = table := funext ht
  obtain rfl : claim' = claim := funext hc
  exact h

variable [DecidableEq ο]

/-- A free thing goes to a holder that has none. -/
theorem acquire [DecidableEq ν] (h : Balanced owner table claim) {n : ν} {d : δ} (hn : table n = none)
    (ho : claim (owner d) = none) :
    Balanced owner (Function.update table n (some d))
      (Function.update claim (owner d) (some (n, d))) where
  claimed := by
    intro n' d' h'
    by_cases hn' : n' = n
    · subst hn'
      rw [Function.update_self] at h'
      obtain rfl := Option.some.inj h'
      exact Function.update_self ..
    · rw [Function.update_of_ne hn'] at h'
      have hclaim := h.claimed n' d' h'
      -- who holds the other entry is someone else
      have hne : owner d' ≠ owner d := by
        intro heq
        rw [heq, ho] at hclaim
        exact absurd hclaim (by simp)
      rw [Function.update_of_ne hne]
      exact hclaim
  entered := by
    intro o n' d' h'
    by_cases ho' : o = owner d
    · subst ho'
      rw [Function.update_self] at h'
      obtain ⟨rfl, rfl⟩ := Prod.mk.inj (Option.some.inj h')
      exact ⟨rfl, Function.update_self ..⟩
    · rw [Function.update_of_ne ho'] at h'
      obtain ⟨hown, hd⟩ := h.entered o n' d' h'
      have hne : n' ≠ n := by
        rintro rfl
        rw [hn] at hd
        exact absurd hd (by simp)
      rw [Function.update_of_ne hne]
      exact ⟨hown, hd⟩

/-- A holder gives back what it has. -/
theorem release [DecidableEq ν] (h : Balanced owner table claim) {o : ο} {n : ν} {d : δ}
    (ho : claim o = some (n, d)) :
    Balanced owner (Function.update table n none) (Function.update claim o none) where
  claimed := by
    intro n' d' h'
    by_cases hn' : n' = n
    · subst hn'
      rw [Function.update_self] at h'
      exact absurd h' (by simp)
    · rw [Function.update_of_ne hn'] at h'
      have hclaim := h.claimed n' d' h'
      have hne : owner d' ≠ o := by
        intro heq
        rw [heq, ho] at hclaim
        exact hn' (Prod.mk.inj (Option.some.inj hclaim)).1.symm
      rw [Function.update_of_ne hne]
      exact hclaim
  entered := by
    intro o' n' d' h'
    by_cases ho' : o' = o
    · subst ho'
      rw [Function.update_self] at h'
      exact absurd h' (by simp)
    · rw [Function.update_of_ne ho'] at h'
      have hne : n' ≠ n := by
        rintro rfl
        exact ho' (h.unique h' ho)
      rw [Function.update_of_ne hne]
      exact h.entered o' n' d' h'

/-! Holders in some state, which says what they claim; one holder changes its state. -/

section States

variable {σ : Type} {f : ο → σ → Option (ν × δ)} {st : ο → σ} {o : ο} {x : σ}

theorem claim_update :
    (fun o' => f o' (Function.update st o x o'))
      = Function.update (fun o' => f o' (st o')) o (f o x) := by
  funext o'
  by_cases ho : o' = o
  · subst ho
    rw [Function.update_self, Function.update_self]
  · rw [Function.update_of_ne ho, Function.update_of_ne ho]

theorem keep (h : Balanced owner table fun o' => f o' (st o')) (hx : f o x = f o (st o)) :
    Balanced owner table fun o' => f o' (Function.update st o x o') := by
  rw [claim_update, hx, Function.update_eq_self]
  exact h

theorem take [DecidableEq ν] (h : Balanced owner table fun o' => f o' (st o')) {n : ν} {d : δ}
    (hn : table n = none) (hold : f o (st o) = none) (hx : f o x = some (n, d))
    (ho : owner d = o) :
    Balanced owner (Function.update table n (some d))
      fun o' => f o' (Function.update st o x o') := by
  subst ho
  rw [claim_update, hx]
  exact h.acquire hn hold

theorem give [DecidableEq ν] (h : Balanced owner table fun o' => f o' (st o')) {n : ν} {d : δ}
    (hold : f o (st o) = some (n, d)) (hx : f o x = none) :
    Balanced owner (Function.update table n none)
      fun o' => f o' (Function.update st o x o') := by
  rw [claim_update, hx]
  exact h.release hold

end States

end Balanced

end Ledger
