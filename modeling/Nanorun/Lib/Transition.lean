/-!
# Labelled transition systems

A system is a set of initial states and a partial step function driven by
labels. A label names everything the step leaves open (which thread moves, what
the environment answers), so that the step itself is a function and a run is a
list of labels.

`ReachableVia ok` restricts runs to steps that satisfy `ok`, a condition on the
state before the step and its label; `Reachable` is the unrestricted case. Both
come with one induction rule each, which is all a safety proof needs. `record` collects
what the steps of a run show; its rule is for invariants that speak of the history.
-/

namespace Transition

/-- A labelled transition system with a partial step function. -/
structure System (σ α : Type) where
  /-- Where runs begin. -/
  init : σ → Prop
  /-- One step; `none` when the label is not enabled. -/
  step : σ → α → Option σ

variable {σ α : Type}

namespace System

/-- Reached from an initial state by steps that all satisfy `ok`. -/
inductive ReachableVia (S : System σ α) (ok : σ → α → Prop) : σ → Prop where
  | init {s : σ} : S.init s → ReachableVia S ok s
  | tail {s s' : σ} {a : α} :
      ReachableVia S ok s → ok s a → S.step s a = some s' → ReachableVia S ok s'

/-- Reached from an initial state by any steps at all. -/
def Reachable (S : System σ α) : σ → Prop := S.ReachableVia (fun _ _ => True)

/-- **The invariant rule.** What holds initially and survives every allowed step holds. -/
theorem ReachableVia.invariant {S : System σ α} {ok : σ → α → Prop} {I : σ → Prop}
    (h0 : ∀ s, S.init s → I s)
    (hs : ∀ s a s', I s → ok s a → S.step s a = some s' → I s')
    {s : σ} (h : S.ReachableVia ok s) : I s := by
  induction h with
  | init hi => exact h0 _ hi
  | tail _ hok hstep ih => exact hs _ _ _ ih hok hstep

/-- The invariant rule for unrestricted runs. -/
theorem Reachable.invariant {S : System σ α} {I : σ → Prop}
    (h0 : ∀ s, S.init s → I s)
    (hs : ∀ s a s', I s → S.step s a = some s' → I s')
    {s : σ} (h : S.Reachable s) : I s :=
  ReachableVia.invariant h0 (fun s a s' hi _ hst => hs s a s' hi hst) h

/-- A weaker restriction on the steps keeps every state. -/
theorem ReachableVia.mono {S : System σ α} {ok ok' : σ → α → Prop}
    (hok : ∀ s a, ok s a → ok' s a) {s : σ} (h : S.ReachableVia ok s) : S.ReachableVia ok' s := by
  induction h with
  | init hi => exact .init hi
  | tail _ ha hstep ih => exact .tail ih (hok _ _ ha) hstep

/-- A restriction on the steps only removes states. -/
theorem ReachableVia.reachable {S : System σ α} {ok : σ → α → Prop} {s : σ}
    (h : S.ReachableVia ok s) : S.Reachable s :=
  h.mono fun _ _ _ => trivial

/-- The same steps, from one state on. -/
def startedAt (S : System σ α) (s : σ) : System σ α := { S with init := fun s' => s' = s }

/-- Follow a list of labels. -/
def run (S : System σ α) : σ → List α → Option σ
  | s, [] => some s
  | s, a :: as => (S.step s a).bind fun s' => S.run s' as

/-- Following labels from a reachable state stays reachable. -/
theorem Reachable.run {S : System σ α} {s s' : σ} {as : List α}
    (h : S.Reachable s) (hr : S.run s as = some s') : S.Reachable s' := by
  induction as generalizing s with
  | nil => rw [System.run] at hr; exact Option.some.inj hr ▸ h
  | cons a as ih =>
      rw [System.run] at hr
      obtain ⟨m, hm, hr⟩ := Option.bind_eq_some_iff.mp hr
      exact ih (.tail h trivial hm) hr

/-- Where a list of labels ends, or the start if some label is not enabled. -/
def exec (S : System σ α) (s : σ) (as : List α) : σ := (S.run s as).getD s

theorem Reachable.exec {S : System σ α} {s : σ} {as : List α} (h : S.Reachable s) :
    S.Reachable (S.exec s as) := by
  unfold System.exec
  cases hr : S.run s as with
  | none => exact h
  | some s' => exact h.run hr

/-- Every label of the list is enabled, at a state where it satisfies `ok`. -/
def Meets (S : System σ α) (ok : σ → α → Prop) : σ → List α → Prop
  | _, [] => True
  | s, a :: as => ok s a ∧ ∃ s' ∈ S.step s a, S.Meets ok s' as

instance decidableMeets (S : System σ α) (ok : σ → α → Prop) [∀ s a, Decidable (ok s a)] :
    ∀ (s : σ) (as : List α), Decidable (S.Meets ok s as)
  | _, [] => .isTrue trivial
  | s, a :: as =>
      match h : S.step s a with
      | none => .isFalse (by rintro ⟨_, s', hs', _⟩; rw [h] at hs'; exact absurd hs' (by simp))
      | some s' =>
          have := decidableMeets S ok s' as
          decidable_of_iff (ok s a ∧ S.Meets ok s' as) (by simp [Meets, h])

/-- A list of labels that all satisfy `ok` has a run, and it stays within the restricted ones. -/
theorem Meets.run {S : System σ α} {ok : σ → α → Prop} {s : σ} {as : List α}
    (hm : S.Meets ok s as) (h : S.ReachableVia ok s) :
    ∃ s', S.run s as = some s' ∧ S.ReachableVia ok s' := by
  induction as generalizing s with
  | nil => exact ⟨s, rfl, h⟩
  | cons a as ih =>
      obtain ⟨hok, m, hstep, hm⟩ := hm
      obtain ⟨s', hr, h'⟩ := ih hm (.tail h hok hstep)
      exact ⟨s', by rw [System.run, hstep]; exact hr, h'⟩

theorem ReachableVia.exec {S : System σ α} {ok : σ → α → Prop} {s : σ} {as : List α}
    (h : S.ReachableVia ok s) (hm : S.Meets ok s as) : S.ReachableVia ok (S.exec s as) := by
  obtain ⟨s', hr, h'⟩ := hm.run h
  rw [System.exec, hr]
  exact h'

/-- What `f` sees in the steps of a run, in order. -/
def record {β : Type} (S : System σ α) (f : σ → α → List β) : σ → List α → List β
  | _, [] => []
  | s, a :: as => f s a ++ (S.step s a).elim [] fun s' => S.record f s' as

/-- **The invariant rule with a record.** An invariant may speak of what the run has recorded. -/
theorem record_invariant {β : Type} {S : System σ α} {ok : σ → α → Prop} {f : σ → α → List β}
    {I : σ → List β → Prop}
    (hs : ∀ s a s' seen, I s seen → ok s a → S.step s a = some s' → I s' (seen ++ f s a))
    {s s' : σ} {as : List α} (h0 : I s []) (hm : S.Meets ok s as) (hr : S.run s as = some s') :
    I s' (S.record f s as) := by
  have key : ∀ (as : List α) (s : σ) (seen : List β), I s seen → S.Meets ok s as →
      S.run s as = some s' → I s' (seen ++ S.record f s as) := by
    intro as
    induction as with
    | nil =>
        intro s seen hi _ hr
        obtain rfl := Option.some.inj hr
        rw [record, List.append_nil]
        exact hi
    | cons a as ih =>
        intro s seen hi hm hr
        obtain ⟨hok, m, hstep, hm⟩ := hm
        rw [run, hstep, Option.bind_some] at hr
        rw [record, hstep, Option.elim_some, ← List.append_assoc]
        exact ih m _ (hs s a m seen hi hok hstep) hm hr
  exact key as s [] h0 hm hr

end System

end Transition
