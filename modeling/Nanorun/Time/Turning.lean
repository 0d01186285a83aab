import Mathlib.Logic.Relation
import Nanorun.Lib.Calls
import Nanorun.Lib.Transition
import Nanorun.Time.Flat

/-!
# The wheel, one step at a time

`Wheel.lean` has `advance_to` as a function. Here it is a loop with a program counter, so
that the wheel can be looked at in the middle of a turn: one step moves the cursor, drains
the current slot of one level, puts back one drained entry, or jumps over the ticks left
once nothing is stored. `advanceTo_steps` says that the steps of a call end where the
function does.

The invariant is `Staged` at the level the counter stands at. A turn begins with every
level fitting the tick before, and brings the levels up to date from the top down.
-/

namespace Nanorun.Time

open Transition

/-! The steps name the levels by literals. -/

local instance neZero_six : NeZero 6 := ⟨by decide⟩

/-- Where a call of `advance_to` stands. -/
inductive WheelPc where
  /-- Between two calls. -/
  | rest
  /-- The test of the `while` loop. -/
  | loop (now : Nat)
  /-- In `advance_one`, about to look at level `k`. -/
  | level (now : Nat) (k : Fin 6)
  /-- In `advance_one`, with the entries drained from level `j + 1` still to put back. -/
  | entries (now : Nat) (j : Fin 5) (drained : List Entry)
  /-- After `advance_one`: the test for an empty wheel. -/
  | after (now : Nat)
  deriving DecidableEq, Repr

/-- A wheel, where its caller stands, and the vector of expired entries. -/
structure Turning where
  wheel : Wheel
  pc : WheelPc
  expired : List Entry

inductive Act where
  | insert (entry : Entry)
  | advanceTo (now : Nat)
  | clear
  /-- The call under way goes on. -/
  | go
  deriving DecidableEq, Repr

namespace Turning

def new : Turning where
  wheel := Wheel.new
  pc := .rest
  expired := []

/-- `self.cursor = now`, and the call returns. -/
def jump (s : Turning) (now : Nat) : Turning :=
  { s with wheel := { s.wheel with cursor := now }, pc := .rest }

/-- One step. -/
def step (s : Turning) (a : Act) : Option Turning :=
  match s.pc, a with
  | .rest, .insert entry => some { s with wheel := (s.wheel.insert entry).1 }
  | .rest, .clear => some { s with wheel := s.wheel.clear }
  | .rest, .advanceTo now =>
      let s := { s with expired := [] }
      some (if now ≤ s.wheel.cursor then s
        else if s.wheel.count = 0 then s.jump now
        else { s with pc := .loop now })
  | .loop now, .go =>
      some (if s.wheel.cursor < now then
          { s with wheel := { s.wheel with cursor := s.wheel.cursor + 1 }, pc := .level now 5 }
        else { s with pc := .rest })
  | .level now ⟨0, _⟩, .go =>
      let d := s.wheel.drain 0 (slotOf 0 s.wheel.cursor)
      some { wheel := d.1, pc := .after now, expired := s.expired ++ d.2 }
  | .level now ⟨j + 1, h⟩, .go =>
      let k : Fin 6 := ⟨j + 1, h⟩
      let period := 1 <<< (6 * k.val)
      some (if s.wheel.cursor % period = 0 then
          let d := s.wheel.drain k (slotOf k s.wheel.cursor)
          { s with wheel := d.1, pc := .entries now ⟨j, by omega⟩ d.2 }
        else { s with pc := .level now ⟨j, by omega⟩ })
  | .entries now j [], .go => some { s with pc := .level now j.castSucc }
  | .entries now j (entry :: rest), .go =>
      let r := Wheel.reinsert (s.wheel, s.expired) entry
      some { wheel := r.1, pc := .entries now j rest, expired := r.2 }
  | .after now, .go => some (if s.wheel.count = 0 then s.jump now else { s with pc := .loop now })
  | _, _ => none

end Turning

/-- The wheel and its caller. -/
def turning : System Turning Act where
  init s := s = Turning.new
  step := Turning.step

/-- The entry that the step hands to `Wheel::insert`. -/
def Turning.inserts (s : Turning) (a : Act) : Option Entry :=
  match s.pc, a with
  | .rest, .insert entry => some entry
  | .entries _ _ (entry :: _), .go => some entry
  | _, _ => none

/-- `self.cursor + MAX_TICKS` does not overflow, where `insert` computes it. -/
def NoOverflow (s : Turning) (a : Act) : Prop :=
  ∀ e ∈ s.inserts a, s.wheel.cursor < e.deadline → s.wheel.cursor ≤ cursorMax

instance decidableNoOverflow (s : Turning) (a : Act) : Decidable (NoOverflow s a) :=
  inferInstanceAs (Decidable (∀ e ∈ s.inserts a, _))

/-- Everything a step can do. -/
inductive TurningStep : Turning → Act → Turning → Prop where
  | insert {w : Wheel} {ex : List Entry} {e : Entry} :
      TurningStep ⟨w, .rest, ex⟩ (.insert e) ⟨(w.insert e).1, .rest, ex⟩
  | clear {w : Wheel} {ex : List Entry} : TurningStep ⟨w, .rest, ex⟩ .clear ⟨w.clear, .rest, ex⟩
  | stay {w : Wheel} {ex : List Entry} {now : Nat} : now ≤ w.cursor →
      TurningStep ⟨w, .rest, ex⟩ (.advanceTo now) ⟨w, .rest, []⟩
  | jump {w : Wheel} {ex : List Entry} {now : Nat} : w.cursor < now → w.count = 0 →
      TurningStep ⟨w, .rest, ex⟩ (.advanceTo now) ⟨{ w with cursor := now }, .rest, []⟩
  | enter {w : Wheel} {ex : List Entry} {now : Nat} : w.cursor < now → w.count ≠ 0 →
      TurningStep ⟨w, .rest, ex⟩ (.advanceTo now) ⟨w, .loop now, []⟩
  | tick {w : Wheel} {ex : List Entry} {now : Nat} : w.cursor < now →
      TurningStep ⟨w, .loop now, ex⟩ .go ⟨{ w with cursor := w.cursor + 1 }, .level now 5, ex⟩
  | leave {w : Wheel} {ex : List Entry} {now : Nat} : now ≤ w.cursor →
      TurningStep ⟨w, .loop now, ex⟩ .go ⟨w, .rest, ex⟩
  | skip {w : Wheel} {ex : List Entry} {now : Nat} {j : Fin 5} : w.cursor % 64 ^ j.succ.val ≠ 0 →
      TurningStep ⟨w, .level now j.succ, ex⟩ .go ⟨w, .level now j.castSucc, ex⟩
  | drain {w : Wheel} {ex : List Entry} {now : Nat} {j : Fin 5} : w.cursor % 64 ^ j.succ.val = 0 →
      TurningStep ⟨w, .level now j.succ, ex⟩ .go
        ⟨(w.drain j.succ (slotOf j.succ w.cursor)).1,
          .entries now j (w.drain j.succ (slotOf j.succ w.cursor)).2, ex⟩
  | reinsert {w : Wheel} {ex : List Entry} {now : Nat} {j : Fin 5} {e : Entry} {es : List Entry} :
      TurningStep ⟨w, .entries now j (e :: es), ex⟩ .go
        ⟨(Wheel.reinsert (w, ex) e).1, .entries now j es, (Wheel.reinsert (w, ex) e).2⟩
  | next {w : Wheel} {ex : List Entry} {now : Nat} {j : Fin 5} :
      TurningStep ⟨w, .entries now j [], ex⟩ .go ⟨w, .level now j.castSucc, ex⟩
  | finish {w : Wheel} {ex : List Entry} {now : Nat} :
      TurningStep ⟨w, .level now 0, ex⟩ .go
        ⟨(w.drain 0 (slotOf 0 w.cursor)).1, .after now, ex ++ (w.drain 0 (slotOf 0 w.cursor)).2⟩
  | jumpAfter {w : Wheel} {ex : List Entry} {now : Nat} : w.count = 0 →
      TurningStep ⟨w, .after now, ex⟩ .go ⟨{ w with cursor := now }, .rest, ex⟩
  | again {w : Wheel} {ex : List Entry} {now : Nat} : w.count ≠ 0 →
      TurningStep ⟨w, .after now, ex⟩ .go ⟨w, .loop now, ex⟩

theorem step_cases {s s' : Turning} {a : Act} (h : s.step a = some s') : TurningStep s a s' := by
  obtain ⟨w, pc, expired⟩ := s
  cases pc with
  | rest =>
      cases a with
      | insert e => cases h; exact .insert
      | clear => cases h; exact .clear
      | advanceTo now =>
          obtain rfl := Option.some.inj h
          split
          · rename_i hle
            exact .stay hle
          · rename_i hlt
            have hlt : w.cursor < now := Nat.lt_of_not_le hlt
            split
            · rename_i h0
              exact .jump hlt h0
            · rename_i h0
              exact .enter hlt h0
      | go => exact absurd h (by simp [Turning.step])
  | loop now =>
      cases a with
      | go =>
          obtain rfl := Option.some.inj h
          split
          · rename_i hlt
            exact .tick hlt
          · rename_i hge
            exact .leave (Nat.le_of_not_lt hge)
      | _ => exact absurd h (by simp [Turning.step])
  | level now k =>
      cases a with
      | go =>
          obtain ⟨k, hk⟩ := k
          cases k with
          | zero => cases h; exact .finish
          | succ j =>
              obtain rfl := Option.some.inj h
              have hj : j < 5 := by omega
              split
              · rename_i hmod
                rw [period_eq] at hmod
                exact TurningStep.drain (j := ⟨j, hj⟩) hmod
              · rename_i hmod
                rw [period_eq] at hmod
                exact TurningStep.skip (j := ⟨j, hj⟩) hmod
      | _ => exact absurd h (by simp [Turning.step])
  | entries now j es =>
      cases a with
      | go =>
          cases es with
          | nil => cases h; exact .next
          | cons e es => cases h; exact .reinsert
      | _ => exact absurd h (by simp [Turning.step])
  | after now =>
      cases a with
      | go =>
          obtain rfl := Option.some.inj h
          split
          · rename_i h0
            exact .jumpAfter h0
          · rename_i h0
            exact .again h0
      | _ => exact absurd h (by simp [Turning.step])

/-! ## The steps of a call -/

/-- The call under way goes on for some steps. -/
def Goes : Turning → Turning → Prop :=
  Relation.ReflTransGen fun s s' => s.step .go = some s'

theorem Goes.head {s m s' : Turning} (h : s.step .go = some m) (hm : Goes m s') : Goes s s' :=
  Relation.ReflTransGen.head h hm

theorem Goes.trans {s m s' : Turning} (h : Goes s m) (hm : Goes m s') : Goes s s' :=
  Relation.ReflTransGen.trans h hm

/-- The `for` loop over a drained slot. -/
theorem entries_goes (now : Nat) (j : Fin 5) (es : List Entry) (w : Wheel) (expired : List Entry) :
    Goes ⟨w, .entries now j es, expired⟩
      ⟨(es.foldl Wheel.reinsert (w, expired)).1, .level now j.castSucc,
        (es.foldl Wheel.reinsert (w, expired)).2⟩ := by
  induction es generalizing w expired with
  | nil => exact .single rfl
  | cons e es ih => exact .head rfl (ih _ _)

/-- One level. -/
theorem level_goes (now : Nat) (j : Fin 5) (r : Wheel × List Entry) :
    Goes ⟨r.1, .level now j.succ, r.2⟩
      ⟨(Wheel.cascade r j.succ).1, .level now j.castSucc, (Wheel.cascade r j.succ).2⟩ := by
  obtain ⟨w, expired⟩ := r
  unfold Wheel.cascade
  simp only
  split
  · rename_i hmod
    exact .head (congrArg some (if_pos hmod)) (entries_goes now j _ _ expired)
  · rename_i hmod
    exact .single (congrArg some (if_neg hmod))

/-- A turn: from the cursor's move to the end of `advance_one`. -/
theorem turn_goes (now : Nat) (w : Wheel) (expired : List Entry) :
    Goes ⟨{ w with cursor := w.cursor + 1 }, .level now 5, expired⟩
      ⟨(w.advanceOne expired).1, .after now, (w.advanceOne expired).2⟩ := by
  have h5 := level_goes now 4 ({ w with cursor := w.cursor + 1 }, expired)
  have h4 := h5.trans (level_goes now 3 _)
  have h3 := h4.trans (level_goes now 2 _)
  have h2 := h3.trans (level_goes now 1 _)
  have h1 := h2.trans (level_goes now 0 _)
  exact h1.trans (.single rfl)

theorem while_goes {now fuel : Nat} {w : Wheel} (expired : List Entry)
    (hfuel : now - w.cursor ≤ fuel) :
    Goes ⟨w, .loop now, expired⟩ ⟨(Wheel.advanceWhile now fuel w expired).1, .rest,
      (Wheel.advanceWhile now fuel w expired).2⟩ := by
  -- the loop is left once the cursor has reached `now`
  have hstop : ∀ {w : Wheel} {expired : List Entry}, ¬ w.cursor < now →
      Goes ⟨w, .loop now, expired⟩ ⟨w, .rest, expired⟩ := by
    intro w expired hge
    exact .single (congrArg some (if_neg hge))
  induction fuel generalizing w expired with
  | zero => exact hstop (by omega)
  | succ fuel ih =>
      rw [Wheel.advanceWhile]
      split
      · rename_i hlt
        have hcur := advanceOne_cursor w expired
        have hbegin : Turning.step ⟨w, .loop now, expired⟩ .go
            = some ⟨{ w with cursor := w.cursor + 1 }, .level now 5, expired⟩ :=
          congrArg some (if_pos hlt)
        refine .trans (.head hbegin (turn_goes now w expired)) ?_
        simp only
        split
        · rename_i h0
          exact .single (congrArg some (if_pos h0))
        · rename_i h0
          have hfuel' : now - (w.advanceOne expired).1.cursor ≤ fuel := by omega
          exact .head (congrArg some (if_neg h0)) (ih _ hfuel')
      · rename_i hge
        exact hstop hge

/-- **The steps of a call of `advance_to` end in what the function returns.** -/
theorem advanceTo_steps (w : Wheel) (now : Nat) (expired : List Entry) :
    ∃ s, Turning.step ⟨w, .rest, expired⟩ (.advanceTo now) = some s
      ∧ Goes s ⟨(w.advanceTo now).1, .rest, (w.advanceTo now).2⟩ := by
  refine ⟨_, rfl, ?_⟩
  unfold Wheel.advanceTo
  simp only
  split
  · exact .refl
  · split
    · exact .refl
    · exact while_goes [] (Nat.le_refl _)

/-- The tick a call is on its way to. -/
def WheelPc.target : WheelPc → Option Nat
  | .rest => none
  | .loop now | .level now _ | .entries now _ _ | .after now => some now

/-- The cursor is in range, and so is where it is going. -/
structure InRange (s : Turning) : Prop where
  cursor : s.wheel.cursor ≤ cursorMax
  target : ∀ now ∈ s.pc.target, now ≤ cursorMax

theorem InRange.step {s s' : Turning} (h : InRange s) (hs : s.step .go = some s') : InRange s' := by
  have hcur := h.cursor
  have htgt := h.target
  cases step_cases hs with
  | tick hlt =>
      refine ⟨?_, htgt⟩
      have := htgt _ rfl
      show _ + 1 ≤ cursorMax
      omega
  | leave _ => exact ⟨hcur, fun _ hn => absurd hn (by simp [WheelPc.target])⟩
  | reinsert => exact ⟨by rw [reinsert_cursor]; exact hcur, htgt⟩
  | jumpAfter _ => exact ⟨htgt _ rfl, fun _ hn => absurd hn (by simp [WheelPc.target])⟩
  | skip _ | drain _ | next | finish | again _ => exact ⟨hcur, htgt⟩

/-- A call in range goes on without overflow. -/
theorem Goes.reachable {s s' : Turning} (h : Goes s s') (hb : InRange s)
    (hr : turning.ReachableVia NoOverflow s) :
    turning.ReachableVia NoOverflow s' ∧ InRange s' := by
  induction h with
  | refl => exact ⟨hr, hb⟩
  | tail _ hstep ih =>
      obtain ⟨hr, hb⟩ := ih
      exact ⟨.tail hr (fun _ _ _ => hb.cursor) hstep, hb.step hstep⟩

/-- **Whatever a list of calls leads to is a state between two calls here.** -/
theorem calls_reachable (ops : List Op)
    (h : Calls.Stays Wheel.call (fun w => w.cursor ≤ cursorMax) Wheel.new ops) :
    ∃ expired, turning.ReachableVia NoOverflow
      ⟨(Calls.run Wheel.call Wheel.new ops).1, .rest, expired⟩ := by
  have key : ∀ (ops : List Op) (w : Wheel) (expired : List Entry),
      turning.ReachableVia NoOverflow ⟨w, .rest, expired⟩ →
      Calls.Stays Wheel.call (fun w => w.cursor ≤ cursorMax) w ops →
      ∃ expired', turning.ReachableVia NoOverflow
        ⟨(Calls.run Wheel.call w ops).1, .rest, expired'⟩ := by
    intro ops
    induction ops with
    | nil => intro w expired hr _; exact ⟨expired, hr⟩
    | cons op ops ih =>
        intro w expired hr hst
        have hc : w.cursor ≤ cursorMax := hst.1
        have hok : ∀ a, NoOverflow ⟨w, .rest, expired⟩ a := fun _ _ _ _ => hc
        cases op with
        | insert e => exact ih _ expired (.tail hr (hok (.insert e)) rfl) hst.2
        | clear => exact ih _ expired (.tail hr (hok .clear) rfl) hst.2
        | advanceTo now =>
            -- the call ends in range, so it was in range all the way
            have hnow : now ≤ cursorMax := by
              have hend := hst.2.head
              simp only [Wheel.call, advanceTo_cursor] at hend
              omega
            obtain ⟨s, hstep, hgoes⟩ := advanceTo_steps w now expired
            have hb : InRange s := by
              cases step_cases hstep with
              | stay _ => exact ⟨hc, fun _ hn => absurd hn (by simp [WheelPc.target])⟩
              | jump _ _ => exact ⟨hnow, fun _ hn => absurd hn (by simp [WheelPc.target])⟩
              | enter _ _ =>
                  refine ⟨hc, fun n hn => ?_⟩
                  obtain rfl := Option.some.inj hn
                  exact hnow
            exact ih _ _ (hgoes.reachable hb (.tail hr (hok (.advanceTo now)) hstep)).1 hst.2
  exact key ops Wheel.new [] (.init rfl) h

/-! ## The invariant at every step -/

/-- The level from which on the wheel fits its cursor. -/
def WheelPc.stage : WheelPc → Nat
  | .rest | .loop _ | .after _ => 0
  | .level _ k => k + 1
  | .entries _ j _ => j + 1

/-- The wheel is staged where its caller stands. -/
structure TurningInv (s : Turning) : Prop where
  staged : Staged s.pc.stage s.wheel
  /-- Inside a turn the cursor has moved. -/
  moved : 0 < s.pc.stage → 0 < s.wheel.cursor
  /-- Drained entries are of the period that just began. -/
  drained : ∀ now j es, s.pc = .entries now j es →
    s.wheel.cursor % 64 ^ j.succ.val = 0
    ∧ ∀ e ∈ es, e.deadline / 64 ^ j.succ.val = s.wheel.cursor / 64 ^ j.succ.val

/-- Outside a turn the wheel's own invariant is enough. -/
theorem TurningInv.of_rest {s : Turning} (h0 : s.pc.stage = 0) (h : WheelInv s.wheel) :
    TurningInv s where
  staged := by rw [h0]; exact h
  moved := by intro hpos; omega
  drained := by
    intro now j es hpc
    rw [hpc] at h0
    exact absurd h0 (by simp [WheelPc.stage])

theorem TurningInv.wheel {s : Turning} (h : TurningInv s) (h0 : s.pc.stage = 0) :
    WheelInv s.wheel := by
  have hs := h.staged
  rwa [h0] at hs

theorem turningInv_new : TurningInv Turning.new := .of_rest rfl wheelInv_new

theorem turningInv_insert {w : Wheel} {e : Entry} (h : WheelInv w)
    (hc : w.cursor < e.deadline → w.cursor ≤ cursorMax) : WheelInv (w.insert e).1 := by
  by_cases hdue : e.deadline ≤ w.cursor
  · rw [insert_due hdue]
    exact h
  · exact (insert_inv h (hc (by omega)) (by omega)).1

/-- A level whose period the cursor has not entered is passed over. -/
theorem TurningInv.skip {w : Wheel} {expired : List Entry} {now : Nat} {j : Fin 5}
    (h : TurningInv ⟨w, .level now j.succ, expired⟩) (hmod : ¬ w.cursor % 64 ^ j.succ.val = 0) :
    TurningInv ⟨w, .level now j.castSucc, expired⟩ where
  staged := Staged.skip (k := j.succ) h.staged (h.moved (Nat.succ_pos _)) hmod
  moved := fun _ => h.moved (Nat.succ_pos _)
  drained := by
    intro now' j' es hpc
    exact absurd hpc (by simp)

/-- The current slot of a level is drained. -/
theorem TurningInv.drain {w : Wheel} {expired : List Entry} {now : Nat} {j : Fin 5}
    (h : TurningInv ⟨w, .level now j.succ, expired⟩) (hmod : w.cursor % 64 ^ j.succ.val = 0) :
    TurningInv ⟨(w.drain j.succ (slotOf j.succ w.cursor)).1,
      .entries now j (w.drain j.succ (slotOf j.succ w.cursor)).2, expired⟩ := by
  have hpos : 0 < w.cursor := h.moved (Nat.succ_pos _)
  obtain ⟨hs, hes⟩ := Staged.drain (k := j.succ) h.staged hpos hmod
  refine ⟨hs, fun _ => hpos, ?_⟩
  intro now' j' es hpc
  cases hpc
  exact ⟨hmod, hes⟩

/-- A drained entry goes back or expires. -/
theorem TurningInv.reinsert {w : Wheel} {expired : List Entry} {now : Nat} {j : Fin 5} {e : Entry}
    {es : List Entry} (h : TurningInv ⟨w, .entries now j (e :: es), expired⟩)
    (hc : w.cursor < e.deadline → w.cursor ≤ cursorMax) :
    TurningInv ⟨(Wheel.reinsert (w, expired) e).1, .entries now j es,
      (Wheel.reinsert (w, expired) e).2⟩ := by
  have hpos : 0 < w.cursor := h.moved (Nat.succ_pos _)
  obtain ⟨hmod, hes⟩ := h.drained now j (e :: es) rfl
  obtain ⟨_, hs, hcur, _⟩ :=
    reinsert_spec (k := j.succ) expired h.staged hc hpos hmod (hes e List.mem_cons_self)
  refine ⟨hs, fun _ => by rw [hcur]; exact hpos, ?_⟩
  intro now' j' es' hpc
  cases hpc
  rw [hcur]
  exact ⟨hmod, fun x hx => hes x (List.mem_cons_of_mem e hx)⟩

/-- Level 0 is drained last, and the wheel fits its cursor again. -/
theorem TurningInv.finish {w : Wheel} {expired : List Entry} {now : Nat}
    (h : TurningInv ⟨w, .level now 0, expired⟩) :
    WheelInv (w.drain 0 (slotOf 0 w.cursor)).1 :=
  (Staged.drain (k := 0) h.staged (h.moved (Nat.succ_pos _)) (Nat.mod_one _)).1

theorem turningInv_step {s s' : Turning} {a : Act} (h : TurningInv s) (hok : NoOverflow s a)
    (hs : s.step a = some s') : TurningInv s' := by
  cases step_cases hs with
  | insert => exact .of_rest rfl (turningInv_insert (h.wheel rfl) (hok _ rfl))
  | @clear w ex => exact .of_rest rfl (clear_spec w).1
  | stay _ => exact .of_rest rfl (h.wheel rfl)
  | jump _ h0 => exact .of_rest rfl ((h.wheel rfl).jump h0 _)
  | enter _ _ => exact .of_rest rfl (h.wheel rfl)
  | tick _ =>
      exact ⟨(h.wheel rfl).tick, fun _ => Nat.succ_pos _, fun _ _ _ hpc => absurd hpc (by simp)⟩
  | leave _ => exact .of_rest rfl (h.wheel rfl)
  | skip hmod => exact h.skip hmod
  | drain hmod => exact h.drain hmod
  | reinsert => exact h.reinsert (hok _ rfl)
  | next => exact ⟨h.staged, h.moved, fun _ _ _ hpc => absurd hpc (by simp)⟩
  | finish => exact .of_rest rfl h.finish
  | jumpAfter h0 => exact .of_rest rfl ((h.wheel rfl).jump h0 _)
  | again _ => exact .of_rest rfl (h.wheel rfl)

theorem turningInv_reachable {s : Turning} (h : turning.ReachableVia NoOverflow s) :
    TurningInv s :=
  h.invariant (fun _ hi => hi ▸ turningInv_new) (fun _ _ _ hi hok hs => turningInv_step hi hok hs)

end Nanorun.Time
