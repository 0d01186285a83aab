import Nanorun.Time.Sleep

/-!
# Timers of several runtimes

Every runtime has a driver of its own, and a worker thread installs the driver of
its runtime. A `Sleep` talks to the driver of the thread it happens to be on: it
registers where it is first polled and cancels where it is dropped. Ids are counted
from zero in every driver, and the sleep keeps the id alone.

A waker is named by the sleep that registered it. `issued` remembers, beside the
code's own state, which driver gave a sleep its id.
-/

namespace Nanorun.Time

open Transition

namespace Runtimes

variable {R : Type}

structure World (R : Type) where
  drivers : R → Driver Nat
  sleeps : Nat → Option Sleep
  nextSleep : Nat
  /-- The driver a sleep registered with, and the id it was given. -/
  issued : Nat → Option (R × Nat)

inductive Label (R : Type) where
  | create (deadline : Nat)
  /-- `Sleep::poll` on a worker of `r`, at `now`. -/
  | poll (sleep : Nat) (r : R) (now : Nat)
  /-- `Sleep::drop` on a thread with this driver installed, if any. -/
  | drop (sleep : Nat) (current : Option R)
  | advance (r : R) (now : Nat)
  | clear (r : R)
  deriving DecidableEq, Repr

section

variable [DecidableEq R]

/-- The registering part of a poll. -/
def registered (w : World R) (i : Nat) (s : Sleep) (r : R) : World R :=
  let res := (w.drivers r).register s.deadline i
  { w with
    drivers := Function.update w.drivers r res.1
    sleeps := Function.update w.sleeps i (some { s with entryId := res.2.id })
    issued := Function.update w.issued i (res.2.id.map fun id => (r, id)) }

/-- `Sleep::drop` -/
def dropped (w : World R) (i : Nat) (s : Sleep) (current : Option R) : World R :=
  let w := { w with sleeps := Function.update w.sleeps i none }
  match s.entryId, current with
  | some id, some r => { w with drivers := Function.update w.drivers r ((w.drivers r).cancel id) }
  | _, _ => w

def next (w : World R) : Label R → Option (World R)
  | .create deadline =>
      some { w with
        sleeps := Function.update w.sleeps w.nextSleep (some ⟨deadline, none⟩)
        nextSleep := w.nextSleep + 1 }
  | .poll i r now =>
      match w.sleeps i with
      | some s => if s.poll now = .registers then some (registered w i s r) else some w
      | none => none
  | .drop i current =>
      match w.sleeps i with
      | some s => some (dropped w i s current)
      | none => none
  | .advance r now =>
      some { w with drivers := Function.update w.drivers r ((w.drivers r).advance now).1 }
  | .clear r => some { w with drivers := Function.update w.drivers r (w.drivers r).clear }

end

def Init (w : World R) : Prop :=
  (∀ r, w.drivers r = Driver.new (w.drivers r).epoch) ∧ w.nextSleep = 0
    ∧ ∀ i, w.sleeps i = none ∧ w.issued i = none

def system (R : Type) [DecidableEq R] : System (World R) (Label R) where
  init := Init
  step := next

/-- A waker leaves a driver by firing there, by `clear`, or by the drop of its own sleep. -/
def Lawful (w : World R) (a : Label R) (w' : World R) : Prop :=
  ∀ r id i, (w.drivers r).wakers id = some i → (w'.drivers r).wakers id ≠ some i →
    (∃ now, a = .advance r now ∧ (id, i) ∈ ((w.drivers r).advance now).2)
    ∨ a = .clear r ∨ ∃ current, a = .drop i current

/-- The id of a dropped sleep, or of a new registration, is another sleep's in that driver. -/
def Collides (w : World R) : Label R → Prop
  | .poll i r now => ∃ s, w.sleeps i = some s ∧ s.poll now = .registers
      ∧ ((w.drivers r).register s.deadline i).2 = .armed (w.drivers r).nextId
      ∧ ∃ j, (w.drivers r).wakers (w.drivers r).nextId = some j ∧ j ≠ i
  | .drop i (some r) => ∃ s id, w.sleeps i = some s ∧ s.entryId = some id
      ∧ ∃ j, (w.drivers r).wakers id = some j ∧ j ≠ i
  | _ => False

/-- A sleep is dropped where it registered, or where no driver is installed; ids do not wrap. -/
def AtHome (w : World R) : Label R → Prop
  | .poll _ r _ => (w.drivers r).nextId + 1 < 2 ^ 64
  | .drop i (some r) => ∀ id r', w.issued i = some (r', id) → r' = r
  | _ => True

/-! ## Sleeps that stay at home -/

/-- A driver's wakers and the sleeps' ids are the registrations on record, each with its own id. -/
structure HomeInv (w : World R) : Prop where
  /-- A stored waker is that of the sleep which the id was issued to. -/
  wakers : ∀ r id i, (w.drivers r).wakers id = some i → w.issued i = some (r, id)
  /-- A sleep has the id that was issued to it. -/
  ids : ∀ i s id, w.sleeps i = some s → s.entryId = some id → ∃ r, w.issued i = some (r, id)
  /-- Without an id it has never registered. -/
  unissued : ∀ i s, w.sleeps i = some s → s.entryId = none → w.issued i = none
  /-- What was issued is behind the counter of its driver. -/
  used : ∀ i r id, w.issued i = some (r, id) → id < (w.drivers r).nextId
  /-- No id was issued twice by one driver. -/
  own : ∀ i j r id, w.issued i = some (r, id) → w.issued j = some (r, id) → i = j
  /-- Sleeps that are still to be made. -/
  fresh : ∀ i, w.nextSleep ≤ i → w.sleeps i = none ∧ w.issued i = none

theorem homeInv_init {w : World R} (h : Init w) : HomeInv w := by
  obtain ⟨hd, _, hnone⟩ := h
  have hissued : ∀ i p, w.issued i ≠ some p := by
    intro i p hp
    rw [(hnone i).2] at hp
    exact absurd hp (by simp)
  have hsleeps : ∀ i s, w.sleeps i ≠ some s := by
    intro i s hs
    rw [(hnone i).1] at hs
    exact absurd hs (by simp)
  refine ⟨?_, ?_, ?_, ?_, ?_, fun i _ => hnone i⟩
  · intro r id i hi
    rw [hd r] at hi
    exact absurd hi (by simp [Driver.new])
  · intro i s id hs; exact absurd hs (hsleeps i s)
  · intro i s hs; exact absurd hs (hsleeps i s)
  · intro i r id hi; exact absurd hi (hissued i _)
  · intro i j r id hi; exact absurd hi (hissued i _)

/-- A sleep that changes nothing about its registration, or goes away. -/
theorem HomeInv.sleep {w : World R} (h : HomeInv w) {i : Nat} {s : Sleep} {o : Option Sleep}
    (hi : w.sleeps i = some s) (ho : ∀ s', o = some s' → s'.entryId = s.entryId) :
    HomeInv { w with sleeps := Function.update w.sleeps i o } := by
  have hlook : ∀ j s', Function.update w.sleeps i o j = some s' →
      ∃ t, w.sleeps j = some t ∧ s'.entryId = t.entryId := by
    intro j s' hj
    by_cases heq : j = i
    · subst heq
      rw [Function.update_self] at hj
      exact ⟨s, hi, ho s' hj⟩
    · rw [Function.update_of_ne heq] at hj
      exact ⟨s', hj, rfl⟩
  refine ⟨h.wakers, ?_, ?_, h.used, h.own, ?_⟩
  · intro j s' id hj hid
    obtain ⟨t, ht, heq⟩ := hlook j s' hj
    exact h.ids j t id ht (heq ▸ hid)
  · intro j s' hj hid
    obtain ⟨t, ht, heq⟩ := hlook j s' hj
    exact h.unissued j t ht (heq ▸ hid)
  · intro j hj
    obtain ⟨hs, hiss⟩ := h.fresh j hj
    refine ⟨?_, hiss⟩
    have hne : j ≠ i := by
      rintro rfl
      rw [hs] at hi
      exact absurd hi (by simp)
    show Function.update w.sleeps i o j = none
    rw [Function.update_of_ne hne]
    exact hs

/-- A new sleep has no registration yet. -/
theorem HomeInv.created {w : World R} (h : HomeInv w) (deadline : Nat) :
    HomeInv { w with
      sleeps := Function.update w.sleeps w.nextSleep (some ⟨deadline, none⟩)
      nextSleep := w.nextSleep + 1 } := by
  have hnew := h.fresh w.nextSleep (Nat.le_refl _)
  have hlook : ∀ i s, Function.update w.sleeps w.nextSleep (some ⟨deadline, none⟩) i = some s →
      (i = w.nextSleep ∧ s.entryId = none) ∨ w.sleeps i = some s := by
    intro i s hi
    by_cases heq : i = w.nextSleep
    · subst heq
      rw [Function.update_self] at hi
      obtain rfl := Option.some.inj hi
      exact .inl ⟨rfl, rfl⟩
    · rw [Function.update_of_ne heq] at hi
      exact .inr hi
  refine ⟨h.wakers, ?_, ?_, h.used, h.own, ?_⟩
  · intro i s id hi hid
    rcases hlook i s hi with ⟨_, hnone⟩ | hold
    · rw [hnone] at hid; exact absurd hid (by simp)
    · exact h.ids i s id hold hid
  · intro i s hi hid
    rcases hlook i s hi with ⟨rfl, _⟩ | hold
    · exact hnew.2
    · exact h.unissued i s hold hid
  · intro i hi
    have hi' : w.nextSleep + 1 ≤ i := hi
    have hne : i ≠ w.nextSleep := by omega
    show Function.update w.sleeps w.nextSleep _ i = none ∧ w.issued i = none
    rw [Function.update_of_ne hne]
    exact h.fresh i (by omega)

/-- At home an id is nobody else's. -/
theorem HomeInv.free {w : World R} {a : Label R} (h : HomeInv w) (hhome : AtHome w a) :
    ¬ Collides w a := by
  intro hcol
  cases a with
  | create deadline => exact hcol
  | advance r now => exact hcol
  | clear r => exact hcol
  | poll i r now =>
      obtain ⟨_, _, _, _, j, hj, _⟩ := hcol
      -- an id in use is below the next one
      have hlt := h.used j r _ (h.wakers r _ j hj)
      exact Nat.lt_irrefl _ hlt
  | drop i current =>
      cases current with
      | none => exact hcol
      | some r =>
          obtain ⟨s, id, hi, hid, j, hj, hji⟩ := hcol
          obtain ⟨r', hiss⟩ := h.ids i s id hi hid
          obtain rfl := hhome id r' hiss
          exact hji (h.own j i r' id (h.wakers r' id j hj) hiss)

variable [DecidableEq R]

/-! ## What a step can do -/

inductive StepTo (w : World R) : Label R → World R → Prop where
  | create {deadline : Nat} :
      StepTo w (.create deadline)
        { w with
          sleeps := Function.update w.sleeps w.nextSleep (some ⟨deadline, none⟩)
          nextSleep := w.nextSleep + 1 }
  | registered {i now : Nat} {r : R} {s : Sleep} : w.sleeps i = some s →
      s.poll now = .registers → StepTo w (.poll i r now) (registered w i s r)
  /-- A poll that does not reach the driver. -/
  | polled {i now : Nat} {r : R} {s : Sleep} : w.sleeps i = some s →
      s.poll now ≠ .registers → StepTo w (.poll i r now) w
  | dropped {i : Nat} {current : Option R} {s : Sleep} : w.sleeps i = some s →
      StepTo w (.drop i current) (dropped w i s current)
  | advance {r : R} {now : Nat} :
      StepTo w (.advance r now)
        { w with drivers := Function.update w.drivers r ((w.drivers r).advance now).1 }
  | clear {r : R} :
      StepTo w (.clear r) { w with drivers := Function.update w.drivers r (w.drivers r).clear }

theorem next_spec {w w' : World R} {a : Label R} (hs : next w a = some w') : StepTo w a w' := by
  cases a with
  | create deadline =>
      obtain rfl := Option.some.inj hs
      exact .create
  | poll i r now =>
      simp only [next] at hs
      split at hs
      · rename_i s hi
        split at hs
        · rename_i hreg
          obtain rfl := Option.some.inj hs
          exact .registered hi hreg
        · rename_i hreg
          obtain rfl := Option.some.inj hs
          exact .polled hi hreg
      · exact absurd hs (by simp)
  | drop i current =>
      simp only [next] at hs
      split at hs
      · rename_i s hi
        obtain rfl := Option.some.inj hs
        exact .dropped hi
      · exact absurd hs (by simp)
  | advance r now =>
      obtain rfl := Option.some.inj hs
      exact .advance
  | clear r =>
      obtain rfl := Option.some.inj hs
      exact .clear

/-! ## What a step does to the maps of wakers -/

theorem update_wakers {w : R → Driver Nat} {r r' : R} {d : Driver Nat} {id i : Nat}
    (hne : (Function.update w r d r').wakers id ≠ some i) (h : (w r').wakers id = some i) :
    r' = r ∧ d.wakers id ≠ some i := by
  by_cases heq : r' = r
  · subst heq; rw [Function.update_self] at hne; exact ⟨rfl, hne⟩
  · rw [Function.update_of_ne heq] at hne; exact absurd h hne

/-- Registering takes a waker out of the map only by giving its id away again. -/
theorem register_lost {d : Driver Nat} {deadline i j id : Nat} (h : d.wakers id = some j)
    (hne : (d.register deadline i).1.wakers id ≠ some j) :
    (d.register deadline i).2 = .armed d.nextId ∧ id = d.nextId ∧ j ≠ i := by
  rcases register_cases d deadline i with ⟨harm, hws⟩ | ⟨_, hws⟩ <;> rw [hws] at hne
  · by_cases hid : id = d.nextId
    · subst hid
      rw [Function.update_self] at hne
      exact ⟨harm, rfl, fun heq => hne (by rw [heq])⟩
    · rw [Function.update_of_ne hid] at hne
      exact absurd h hne
  · exact absurd h hne

theorem cancel_lost {d : Driver Nat} {i j id : Nat} (h : d.wakers id = some j)
    (hne : (d.cancel i).wakers id ≠ some j) : id = i := by
  by_contra hid
  have : (d.cancel i).wakers id = d.wakers id := Function.update_of_ne hid _ _
  exact hne (this.trans h)

theorem lawful_of_free {w w' : World R} {a : Label R} (hs : next w a = some w')
    (hfree : ¬ Collides w a) : Lawful w a w' := by
  intro r id j hj hne
  cases next_spec hs with
  | create => exact absurd hj hne
  | @registered i now r' s hi hreg =>
      obtain ⟨rfl, hne⟩ := update_wakers hne hj
      obtain ⟨harm, rfl, hji⟩ := register_lost hj hne
      exact absurd ⟨s, hi, hreg, harm, j, hj, hji⟩ hfree
  | polled => exact absurd hj hne
  | @dropped i current s hi =>
      unfold Runtimes.dropped at hne
      simp only at hne
      split at hne
      · rename_i id' r' hid
        obtain ⟨rfl, hne⟩ := update_wakers hne hj
        obtain rfl := cancel_lost hj hne
        -- the sleep's own waker, or a stranger's that happens to have the id
        by_cases hji : j = i
        · exact .inr (.inr ⟨some r, by rw [hji]⟩)
        · exact absurd ⟨s, id, hi, hid, j, hj, hji⟩ hfree
      · exact absurd hj hne
  | @advance r' now =>
      obtain ⟨rfl, hne⟩ := update_wakers hne hj
      rcases advance_keeps (w.drivers r) now hj with hfire | hkeep
      · exact .inl ⟨now, rfl, hfire⟩
      · exact absurd hkeep hne
  | clear =>
      obtain ⟨rfl, _⟩ := update_wakers hne hj
      exact .inr (.inl rfl)

/-- A collision takes another sleep's waker out of the map. -/
theorem unlawful_of_collision {w w' : World R} {a : Label R} (hs : next w a = some w')
    (hcol : Collides w a) : ¬ Lawful w a w' := by
  intro hlaw
  cases a with
  | create deadline => exact hcol
  | advance r now => exact hcol
  | clear r => exact hcol
  | poll i r now =>
      obtain ⟨s, hi, hreg, harm, j, hj, hji⟩ := hcol
      simp only [next, hi, hreg, if_true] at hs
      obtain rfl := Option.some.inj hs
      have hafter : ((registered w i s r).drivers r).wakers (w.drivers r).nextId = some i := by
        show (Function.update w.drivers r _ r).wakers _ = _
        rw [Function.update_self]
        rcases register_cases (w.drivers r) s.deadline i with ⟨_, hws⟩ | ⟨hdue, _⟩
        · rw [hws, Function.update_self]
        · exact absurd (harm.symm.trans hdue) (by simp)
      rcases hlaw r _ j hj (by rw [hafter]; simpa using fun heq => hji heq.symm) with
        ⟨_, heq, _⟩ | heq | ⟨_, heq⟩ <;> exact absurd heq (by simp)
  | drop i current =>
      cases current with
      | none => exact hcol
      | some r =>
          obtain ⟨s, id, hi, hid, j, hj, hji⟩ := hcol
          simp only [next, hi] at hs
          obtain rfl := Option.some.inj hs
          have hafter : ((dropped w i s (some r)).drivers r).wakers id = none := by
            simp only [dropped, hid, Function.update_self]
            exact Function.update_self ..
          rcases hlaw r id j hj (by rw [hafter]; simp) with ⟨_, heq, _⟩ | heq | ⟨_, heq⟩
          · exact absurd heq (by simp)
          · exact absurd heq (by simp)
          · exact hji (Label.drop.inj heq).1.symm

/-! ## Runs at home -/

/-- A driver that only loses wakers, or uses up an id. -/
theorem HomeInv.shrink {w : World R} (h : HomeInv w) {r : R} {d : Driver Nat}
    (hsub : ∀ id i, d.wakers id = some i → (w.drivers r).wakers id = some i)
    (hnext : (w.drivers r).nextId ≤ d.nextId) :
    HomeInv { w with drivers := Function.update w.drivers r d } := by
  refine ⟨?_, h.ids, h.unissued, ?_, h.own, h.fresh⟩
  · intro r' id i hi
    by_cases heq : r' = r
    · subst heq
      have hi' : (Function.update w.drivers r' d r').wakers id = some i := hi
      rw [Function.update_self] at hi'
      exact h.wakers r' id i (hsub id i hi')
    · have hi' : (Function.update w.drivers r d r').wakers id = some i := hi
      rw [Function.update_of_ne heq] at hi'
      exact h.wakers r' id i hi'
  · intro i r' id hi
    have hlt := h.used i r' id hi
    show id < (Function.update w.drivers r d r').nextId
    by_cases heq : r' = r
    · subst heq
      rw [Function.update_self]
      exact Nat.lt_of_lt_of_le hlt hnext
    · rw [Function.update_of_ne heq]
      exact hlt

theorem entryId_of_registers {s : Sleep} {now : Nat} (h : s.poll now = .registers) :
    s.entryId = none := by
  unfold Sleep.poll at h
  split at h
  · exact absurd h (by simp)
  · split at h
    · rename_i hnone; exact Option.isNone_iff_eq_none.mp hnone
    · exact absurd h (by simp)

omit [DecidableEq R] in
/-- A record for a sleep that has none leaves the others as they are. -/
theorem issue_keeps {w : World R} {i : Nat} (hiss : w.issued i = none) (q : R × Nat) {j : Nat}
    {p : R × Nat} (hj : w.issued j = some p) : Function.update w.issued i (some q) j = some p := by
  have hne : j ≠ i := by
    rintro rfl
    rw [hiss] at hj
    exact absurd hj (by simp)
  rw [Function.update_of_ne hne]
  exact hj

omit [DecidableEq R] in
/-- With it, a record is the new one, or an old one of another id. -/
theorem HomeInv.issue_cases {w : World R} (h : HomeInv w) {i j id : Nat} {r r' : R}
    (hj : Function.update w.issued i (some (r, (w.drivers r).nextId)) j = some (r', id)) :
    (j = i ∧ r' = r ∧ id = (w.drivers r).nextId)
    ∨ (w.issued j = some (r', id) ∧ ¬ (r' = r ∧ id = (w.drivers r).nextId)) := by
  by_cases hji : j = i
  · subst hji
    rw [Function.update_self] at hj
    obtain ⟨rfl, rfl⟩ := Prod.mk.inj (Option.some.inj hj)
    exact .inl ⟨rfl, rfl, rfl⟩
  · rw [Function.update_of_ne hji] at hj
    refine .inr ⟨hj, ?_⟩
    rintro ⟨rfl, rfl⟩
    exact absurd (h.used j r' _ hj) (Nat.lt_irrefl _)

/-- A sleep without a registration is given the next id of a driver. -/
theorem HomeInv.arm {w : World R} (h : HomeInv w) {i : Nat} {s t : Sleep} {r : R} {d : Driver Nat}
    (hi : w.sleeps i = some s) (hnone : s.entryId = none)
    (ht : t.entryId = some (w.drivers r).nextId)
    (hws : d.wakers = Function.update (w.drivers r).wakers (w.drivers r).nextId (some i))
    (hnext : d.nextId = (w.drivers r).nextId + 1) :
    HomeInv { w with
      drivers := Function.update w.drivers r d
      sleeps := Function.update w.sleeps i (some t)
      issued := Function.update w.issued i (some (r, (w.drivers r).nextId)) } := by
  have hiss := h.unissued i s hi hnone
  refine ⟨?_, ?_, ?_, ?_, ?_, ?_⟩
  · intro r' id j hj
    by_cases hr : r' = r
    · subst hr
      simp only [Function.update_self, hws] at hj
      by_cases hid : id = (w.drivers r').nextId
      · subst hid
        rw [Function.update_self] at hj
        obtain rfl := Option.some.inj hj
        exact Function.update_self ..
      · rw [Function.update_of_ne hid] at hj
        exact issue_keeps hiss _ (h.wakers r' id j hj)
    · simp only [Function.update_of_ne hr] at hj
      exact issue_keeps hiss _ (h.wakers r' id j hj)
  · intro j u id hj hid
    by_cases hji : j = i
    · subst hji
      simp only [Function.update_self, Option.some.injEq] at hj
      subst hj
      obtain rfl := Option.some.inj (ht.symm.trans hid)
      exact ⟨r, Function.update_self ..⟩
    · simp only [Function.update_of_ne hji] at hj
      obtain ⟨r', hr'⟩ := h.ids j u id hj hid
      exact ⟨r', issue_keeps hiss _ hr'⟩
  · intro j u hj hid
    by_cases hji : j = i
    · subst hji
      simp only [Function.update_self, Option.some.injEq] at hj
      subst hj
      exact absurd (ht.symm.trans hid) (by simp)
    · simp only [Function.update_of_ne hji] at hj ⊢
      exact h.unissued j u hj hid
  · intro j r' id hj
    show id < (Function.update w.drivers r d r').nextId
    rcases h.issue_cases hj with ⟨_, rfl, rfl⟩ | ⟨hold, _⟩
    · rw [Function.update_self, hnext]
      exact Nat.lt_succ_self _
    · have hlt := h.used j r' id hold
      by_cases hr : r' = r
      · subst hr
        rw [Function.update_self, hnext]
        exact Nat.lt_succ_of_lt hlt
      · rw [Function.update_of_ne hr]
        exact hlt
  · intro j k r' id hj hk
    rcases h.issue_cases hj with ⟨rfl, hnew⟩ | ⟨hold, hne⟩ <;>
      rcases h.issue_cases hk with ⟨rfl, hnew'⟩ | ⟨hold', hne'⟩
    · rfl
    · exact absurd hnew hne'
    · exact absurd hnew' hne
    · exact h.own j k r' id hold hold'
  · intro j hj
    have hne : j ≠ i := by
      rintro rfl
      rw [(h.fresh j hj).1] at hi
      exact absurd hi (by simp)
    show Function.update w.sleeps i _ j = none ∧ Function.update w.issued i _ j = none
    rw [Function.update_of_ne hne, Function.update_of_ne hne]
    exact h.fresh j hj

theorem homeInv_registered {w : World R} (h : HomeInv w) {i now : Nat} {s : Sleep} {r : R}
    (hi : w.sleeps i = some s) (hreg : s.poll now = .registers)
    (hroom : (w.drivers r).nextId + 1 < 2 ^ 64) : HomeInv (registered w i s r) := by
  have hnone := entryId_of_registers hreg
  have hnext : ((w.drivers r).register s.deadline i).1.nextId = (w.drivers r).nextId + 1 :=
    (registerAt_frame (w.drivers r) _ i).1.trans (Nat.mod_eq_of_lt hroom)
  rcases register_cases (w.drivers r) s.deadline i with ⟨harm, hws⟩ | ⟨hdue, hws⟩
  -- armed: a new record; due: nothing but the id is used up
  · have hnew := h.arm hi hnone (t := { s with entryId := some (w.drivers r).nextId }) rfl hws hnext
    simpa only [registered, harm, Registration.id, Option.map_some] using hnew
  · have hkeep : Function.update w.issued i none = w.issued := by
      rw [← h.unissued i s hi hnone]; exact Function.update_eq_self i w.issued
    have hsub : ∀ id j, ((w.drivers r).register s.deadline i).1.wakers id = some j →
        (w.drivers r).wakers id = some j := by
      intro id j hj
      rw [hws] at hj
      exact hj
    have hold := (h.shrink hsub (by omega)).sleep hi (o := some { s with entryId := none })
      (by intro s' hs'; obtain rfl := Option.some.inj hs'; exact hnone.symm)
    simpa only [registered, hdue, Registration.id, Option.map_none, hkeep] using hold

theorem homeInv_step {w w' : World R} {a : Label R} (h : HomeInv w) (hhome : AtHome w a)
    (hs : next w a = some w') : HomeInv w' := by
  cases next_spec hs with
  | create => exact h.created _
  | registered hi hreg => exact homeInv_registered h hi hreg hhome
  | polled => exact h
  | dropped hi =>
      have hgone := h.sleep hi (o := none) (by simp)
      unfold Runtimes.dropped
      simp only
      split
      · exact hgone.shrink (fun _ _ hj => cancel_subset hj) (Nat.le_refl _)
      · exact hgone
  | @advance r now => exact h.shrink (fun id j hj => advance_subset _ now hj) (Nat.le_refl _)
  | clear =>
      refine h.shrink (fun id j hj => ?_) (Nat.le_refl _)
      exact absurd hj (by simp [Driver.clear])

theorem homeInv_reachable {w : World R} (h : (system R).ReachableVia AtHome w) : HomeInv w :=
  h.invariant (fun _ => homeInv_init) (fun _ _ _ hi hhome hs => homeInv_step hi hhome hs)

/--
**A waker leaves a driver only by firing there, by `clear`, or by the drop of its own sleep,
as long as ids do not collide.**

A step keeps the rule exactly when it neither drops a sleep on a thread whose driver
holds another sleep's waker under the same id, nor gives out an id that is still in
use. In every run in which sleeps are dropped where they registered, or where no
driver is installed, and no id counter wraps, every step keeps it.
-/
theorem timer_ids_stay_home :
    (∀ (w w' : World R) (a : Label R), (system R).step w a = some w' →
      (Lawful w a w' ↔ ¬ Collides w a))
    ∧ ∀ (w w' : World R) (a : Label R), (system R).ReachableVia AtHome w → AtHome w a →
        (system R).step w a = some w' → Lawful w a w' := by
  refine ⟨?_, ?_⟩
  · intro w w' a hs
    exact ⟨fun hlaw hcol => unlawful_of_collision hs hcol hlaw, lawful_of_free hs⟩
  · intro w w' a hreach hhome hs
    exact lawful_of_free hs ((homeInv_reachable hreach).free hhome)

/-- Two runtimes. -/
def start : World Bool where
  drivers _ := Driver.new 0
  sleeps _ := none
  nextSleep := 0
  issued _ := none

theorem start_init : Init start := ⟨fun _ => rfl, rfl, fun _ => ⟨rfl, rfl⟩⟩

instance decidableAtHome (w : World Bool) : ∀ a : Label Bool, Decidable (AtHome w a)
  | .poll _ r _ => inferInstanceAs (Decidable ((w.drivers r).nextId + 1 < 2 ^ 64))
  | .drop i (some r) =>
      match h : w.issued i with
      | some (r', _) => decidable_of_iff (r' = r) (by simp [AtHome, h])
      | none => .isTrue (by simp [AtHome, h])
  | .drop _ none | .create _ | .advance _ _ | .clear _ => .isTrue trivial

/-- A sleep on each of the two, both with id 0. -/
def oneEach : List (Label Bool) :=
  [.create 5000000, .create 5000000, .poll 0 false 0, .poll 1 true 0]

/-- Dropping the first one at home leaves the second one's waker alone. -/
theorem timer_ids_stay_home_oneEach :
    Lawful ((system Bool).exec start oneEach) (.drop 0 (some false))
      ((system Bool).exec start (oneEach ++ [.drop 0 (some false)])) :=
  timer_ids_stay_home.2 _ _ _
    (System.ReachableVia.exec (.init start_init) (by decide +kernel)) (by decide +kernel) rfl

/-- Dropping it on a worker of the other runtime cancels the second one. -/
theorem timer_ids_collide : ∃ w w' : World Bool, (system Bool).Reachable w
    ∧ (system Bool).step w (.drop 0 (some true)) = some w' ∧ ¬ Lawful w (.drop 0 (some true)) w' := by
  refine ⟨(system Bool).exec start oneEach, _, System.Reachable.exec (.init start_init), rfl, ?_⟩
  refine unlawful_of_collision rfl ⟨⟨5000000, some 0⟩, 0, ?_, rfl, 1, ?_, by decide⟩
  · decide +kernel
  · decide +kernel

end Runtimes

end Nanorun.Time
