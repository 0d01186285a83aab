/-!
# Critical sections of one thread

What a thread does to a set of mutexes, as far as its own progress goes: a sequence of
critical sections, each with the sections it goes through while it holds the lock. A
mutex is not reentrant, so a thread that comes to lock one it holds waits for itself.

`run` goes through the sections with the mutexes held so far. `run_ok_iff` says when it
gets through: no section locks what is held from outside, and no section of a mutex lies
inside another one of the same.
-/

namespace Sections

/-- The critical sections that a thread goes through, in order. -/
inductive Script (μ : Type) where
  | done
  /-- Lock `m`, go through `inside`, unlock it, and go on with `next`. -/
  | under (m : μ) (inside next : Script μ)
  deriving DecidableEq, Repr

variable {μ : Type}

namespace Script

def append : Script μ → Script μ → Script μ
  | .done, t => t
  | .under m inside next, t => .under m inside (next.append t)

instance instAppend : Append (Script μ) := ⟨append⟩

@[simp] theorem done_append (t : Script μ) : done ++ t = t := rfl

@[simp] theorem under_append (m : μ) (inside next t : Script μ) :
    under m inside next ++ t = under m inside (next ++ t) := rfl

/-- One script after the other. -/
def concat : List (Script μ) → Script μ
  | [] => .done
  | s :: ss => s ++ concat ss

variable [DecidableEq μ]

/-- Go through the sections, holding `held`; the error is a mutex that is locked while held. -/
def run (held : List μ) : Script μ → Except μ Unit
  | .done => .ok ()
  | .under m inside next =>
      if m ∈ held then .error m
      else do
        inside.run (m :: held)
        next.run held

/-- Some section is one of `m`. -/
def locks (m : μ) : Script μ → Bool
  | .done => false
  | .under m' inside next => m' == m || inside.locks m || next.locks m

/-- Some section of `m` lies inside another section of `m`. -/
def nests (m : μ) : Script μ → Bool
  | .done => false
  | .under m' inside next => (m' == m && inside.locks m) || inside.nests m || next.nests m

@[simp] theorem locks_append (m : μ) (s t : Script μ) :
    (s ++ t).locks m = (s.locks m || t.locks m) := by
  induction s with
  | done => rfl
  | under m' inside next _ ih =>
      rw [under_append, locks, locks, ih]
      simp only [Bool.or_assoc]

@[simp] theorem nests_append (m : μ) (s t : Script μ) :
    (s ++ t).nests m = (s.nests m || t.nests m) := by
  induction s with
  | done => rfl
  | under m' inside next _ ih =>
      rw [under_append, nests, nests, ih]
      simp only [Bool.or_assoc]

/-- What is never locked is never locked inside itself. -/
theorem nests_of_not_locks {m : μ} {s : Script μ} (h : s.locks m = false) : s.nests m = false := by
  induction s with
  | done => rfl
  | under m' inside next ihin ihnext =>
      rw [locks, Bool.or_eq_false_iff, Bool.or_eq_false_iff] at h
      obtain ⟨⟨_, hin⟩, hnext⟩ := h
      rw [nests, hin, ihin hin, ihnext hnext, Bool.and_false]
      rfl

theorem locks_concat (m : μ) (ss : List (Script μ)) :
    (concat ss).locks m = false ↔ ∀ s ∈ ss, s.locks m = false := by
  induction ss with
  | nil => simp [concat, locks]
  | cons s ss ih => simp [concat, ih]

theorem nests_concat (m : μ) (ss : List (Script μ)) :
    (concat ss).nests m = false ↔ ∀ s ∈ ss, s.nests m = false := by
  induction ss with
  | nil => simp [concat, nests]
  | cons s ss ih => simp [concat, ih]

theorem bind_ok {ε : Type} {x : Except ε Unit} {y : Except ε Unit} :
    (x >>= fun _ => y) = .ok () ↔ x = .ok () ∧ y = .ok () := by
  cases x with
  | error e => simp [bind, Except.bind]
  | ok u => simp [bind, Except.bind]

/-- **A thread gets through exactly if it never locks what it holds.** -/
theorem run_ok_iff (held : List μ) (s : Script μ) :
    s.run held = .ok () ↔ (∀ m ∈ held, s.locks m = false) ∧ ∀ m, s.nests m = false := by
  induction s generalizing held with
  | done => simp [run, locks, nests]
  | under m inside next ihin ihnext =>
      by_cases hm : m ∈ held
      · -- the first section locks a mutex that is held
        rw [run, if_pos hm]
        constructor
        · intro h
          exact absurd h (by simp)
        · intro h
          have hlock := h.1 m hm
          simp [locks] at hlock
      · rw [run, if_neg hm, bind_ok, ihin, ihnext]
        constructor
        · intro h
          obtain ⟨⟨hin, hnin⟩, hnext, hnnext⟩ := h
          refine ⟨?_, ?_⟩
          · intro m' hm'
            have hne : m ≠ m' := by
              intro heq
              subst heq
              exact hm hm'
            simp [locks, hne, hin m' (List.mem_cons_of_mem m hm'), hnext m' hm']
          · intro m'
            have hself : (m == m' && inside.locks m') = false := by
              by_cases heq : m = m'
              · subst heq
                simp [hin m List.mem_cons_self]
              · simp [heq]
            simp [nests, hself, hnin m', hnnext m']
        · intro h
          obtain ⟨hlock, hnest⟩ := h
          have hnest' : ∀ m', (m == m' && inside.locks m') = false
              ∧ inside.nests m' = false ∧ next.nests m' = false := by
            intro m'
            have hn := hnest m'
            rw [nests, Bool.or_eq_false_iff, Bool.or_eq_false_iff] at hn
            exact ⟨hn.1.1, hn.1.2, hn.2⟩
          refine ⟨⟨?_, fun m' => (hnest' m').2.1⟩, ?_, fun m' => (hnest' m').2.2⟩
          · intro m' hm'
            rcases List.mem_cons.mp hm' with heq | hmem
            · subst heq
              have hself := (hnest' m').1
              simpa using hself
            · have hl := hlock m' hmem
              rw [locks, Bool.or_eq_false_iff, Bool.or_eq_false_iff] at hl
              exact hl.1.2
          · intro m' hm'
            have hl := hlock m' hm'
            rw [locks, Bool.or_eq_false_iff] at hl
            exact hl.2

/-- Starting with nothing held, only nesting is in the way. -/
theorem run_nil_iff (s : Script μ) : s.run [] = .ok () ↔ ∀ m, s.nests m = false := by
  rw [run_ok_iff]
  simp

end Script

end Sections
