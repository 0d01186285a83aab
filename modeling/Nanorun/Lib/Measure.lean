import Nanorun.Lib.Transition

/-!
# Runs that come to an end

A measure that every step of some kind lowers bounds the length of every run of
such steps, in whatever order they are taken. So such runs can only be continued
until no step of the kind is enabled, and what is true of the `Stuck` states is
true in the end, whichever run it was. Where the other steps leave the measure alone,
it bounds the steps of the kind in every run.
-/

namespace Transition

/-- Two measures in one: the first counts, and the second where the first stays. -/
theorem lex_lt {a a' b b' k : Nat} (hb : b' ≤ k) (h : a' < a ∨ a' ≤ a ∧ b' < b) :
    a' * (k + 1) + b' < a * (k + 1) + b := by
  rcases h with hlt | ⟨hle, hlt⟩
  · have hmul := Nat.mul_le_mul_right (k + 1) (show a' + 1 ≤ a from hlt)
    rw [Nat.add_mul, Nat.one_mul] at hmul
    omega
  · have hmul := Nat.mul_le_mul_right (k + 1) hle
    omega

variable {σ α : Type}

namespace System

/-- No step of the kind is enabled. -/
def Stuck (S : System σ α) (ok : σ → α → Prop) (s : σ) : Prop := ∀ a, ok s a → S.step s a = none

/-- Every step of the kind keeps `I` and lowers `μ`. -/
def Lowers (S : System σ α) (ok : σ → α → Prop) (I : σ → Prop) (μ : σ → Nat) : Prop :=
  ∀ s a s', I s → ok s a → S.step s a = some s' → I s' ∧ μ s' < μ s

variable {S : System σ α} {ok : σ → α → Prop} {I : σ → Prop} {μ : σ → Nat}

/-- **The measure pays for every step.** -/
theorem Lowers.length_le (hl : S.Lowers ok I μ) {s s' : σ} {as : List α} (hI : I s)
    (hm : S.Meets ok s as) (hr : S.run s as = some s') : I s' ∧ as.length + μ s' ≤ μ s := by
  induction as generalizing s with
  | nil =>
      obtain rfl := Option.some.inj hr
      exact ⟨hI, by simp⟩
  | cons a as ih =>
      obtain ⟨hok, m, hstep, hm⟩ := hm
      rw [run, hstep, Option.bind_some] at hr
      obtain ⟨hI', hlt⟩ := hl s a m hI hok hstep
      obtain ⟨hI'', hle⟩ := ih hI' hm hr
      refine ⟨hI'', ?_⟩
      rw [List.length_cons]
      omega

/-- **Some run goes on until nothing of the kind is enabled.** -/
theorem Lowers.exists_stuck (hl : S.Lowers ok I μ) {s : σ} (hI : I s) :
    ∃ as s', S.Meets ok s as ∧ S.run s as = some s' ∧ I s' ∧ S.Stuck ok s' := by
  induction hk : μ s using Nat.strongRecOn generalizing s with
  | ind k ih =>
      by_cases hstuck : S.Stuck ok s
      · exact ⟨[], s, trivial, rfl, hI, hstuck⟩
      · obtain ⟨a, ha⟩ := Classical.not_forall.mp hstuck
        obtain ⟨hok, hne⟩ := Classical.not_imp.mp ha
        obtain ⟨m, hstep⟩ := Option.ne_none_iff_exists'.mp hne
        obtain ⟨hI', hlt⟩ := hl s a m hI hok hstep
        obtain ⟨as, s', hm, hr, hI'', hend⟩ := ih (μ m) (hk ▸ hlt) hI' rfl
        refine ⟨a :: as, s', ⟨hok, m, hstep, hm⟩, ?_, hI'', hend⟩
        rw [run, hstep, Option.bind_some]
        exact hr

/-- Every step keeps `I`, and the measure pays for the steps of `own` and for no other. -/
def Pays (S : System σ α) (own : α → Bool) (I : σ → Prop) (μ : σ → Nat) : Prop :=
  ∀ s a s', I s → S.step s a = some s' → I s' ∧ (own a).toNat + μ s' ≤ μ s

/-- However many other steps lie between them. -/
theorem Pays.count_le {own : α → Bool} (hp : S.Pays own I μ) {s s' : σ} {as : List α} (hI : I s)
    (hr : S.run s as = some s') : I s' ∧ as.countP own + μ s' ≤ μ s := by
  induction as generalizing s with
  | nil =>
      obtain rfl := Option.some.inj hr
      exact ⟨hI, by simp⟩
  | cons a as ih =>
      rw [run] at hr
      obtain ⟨m, hstep, hr⟩ := Option.bind_eq_some_iff.mp hr
      obtain ⟨hI', hle⟩ := hp s a m hI hstep
      obtain ⟨hI'', hrest⟩ := ih hI' hr
      refine ⟨hI'', ?_⟩
      have hhead : (if own a then 1 else 0) = (own a).toNat := by cases own a <;> rfl
      rw [List.countP_cons, hhead]
      omega

end System

end Transition
