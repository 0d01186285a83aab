/-!
# Objects and their callers

An object is a state and a function that answers calls. `run` makes a list of
calls and collects the replies. A specification is a relation between the state
before a call, the call, its reply and the state after; `Allows` is its closure
under lists of calls. To show that an object refines a specification it is enough
to look at one call.
-/

namespace Calls

variable {σ τ ι ρ : Type}

/-- Make the calls in turn. -/
def run (call : σ → ι → σ × ρ) : σ → List ι → σ × List ρ
  | s, [] => (s, [])
  | s, i :: is =>
      let r := call s i
      let rest := run call r.1 is
      (rest.1, r.2 :: rest.2)

/-- `P` holds in every state the calls go through. -/
def Stays (call : σ → ι → σ × ρ) (P : σ → Prop) : σ → List ι → Prop
  | s, [] => P s
  | s, i :: is => P s ∧ Stays call P (call s i).1 is

instance decidableStays (call : σ → ι → σ × ρ) (P : σ → Prop) [DecidablePred P] :
    ∀ (s : σ) (is : List ι), Decidable (Stays call P s is)
  | s, [] => inferInstanceAs (Decidable (P s))
  | s, i :: is =>
      have := decidableStays call P (call s i).1 is
      inferInstanceAs (Decidable (P s ∧ _))

/-- Replies that the specification allows to a list of calls. -/
inductive Allows (spec : τ → ι → ρ → τ → Prop) : τ → List ι → List ρ → τ → Prop where
  | nil {t : τ} : Allows spec t [] [] t
  | cons {t t' t'' : τ} {i : ι} {r : ρ} {is : List ι} {rs : List ρ} :
      spec t i r t' → Allows spec t' is rs t'' → Allows spec t (i :: is) (r :: rs) t''

theorem Stays.head {call : σ → ι → σ × ρ} {P : σ → Prop} {s : σ} {is : List ι}
    (h : Stays call P s is) : P s := by
  cases is with
  | nil => exact h
  | cons i is => exact h.1

theorem Stays.last {call : σ → ι → σ × ρ} {P : σ → Prop} {s : σ} {is : List ι}
    (h : Stays call P s is) : P (run call s is).1 := by
  induction is generalizing s with
  | nil => exact h
  | cons i is ih => exact ih h.2

theorem run_append (call : σ → ι → σ × ρ) (s : σ) (is js : List ι) :
    run call s (is ++ js) = ((run call (run call s is).1 js).1,
      (run call s is).2 ++ (run call (run call s is).1 js).2) := by
  induction is generalizing s with
  | nil => rfl
  | cons i is ih => rw [List.cons_append, run, ih]; rfl

/-- **Forward simulation.** If one call refines the specification, so does every list of calls. -/
theorem allows_of_simulation {call : σ → ι → σ × ρ} {spec : τ → ι → ρ → τ → Prop} (abs : σ → τ)
    {I P : σ → Prop}
    (hsim : ∀ s i, I s → P s → P (call s i).1 →
      I (call s i).1 ∧ spec (abs s) i (call s i).2 (abs (call s i).1))
    {s : σ} {is : List ι} (hI : I s) (hP : Stays call P s is) :
    I (run call s is).1 ∧ Allows spec (abs s) is (run call s is).2 (abs (run call s is).1) := by
  induction is generalizing s with
  | nil => exact ⟨hI, .nil⟩
  | cons i is ih =>
      obtain ⟨hs, hrest⟩ := hP
      obtain ⟨hI', hspec⟩ := hsim s i hI hs hrest.head
      obtain ⟨hI'', hallows⟩ := ih hI' hrest
      exact ⟨hI'', .cons hspec hallows⟩

end Calls
