import Mathlib.Algebra.BigOperators.Ring.List
import Nanorun.Lib.Accounts
import Nanorun.Time.Descent

/-!
# What the wheel costs

A turn that crosses a boundary may put back any number of entries, so no bound on one turn
says what the timers cost. But a cascade only takes an entry down, so an entry pays for its
cascades with its level: a stored entry holds one step for each level below it, and one
that has been drained one more, for being put back. What the turns cost apart from that
depends on the ticks only.
-/

namespace Nanorun.Time

open Transition

local instance neZero_six_amortized : NeZero 6 := ⟨by decide⟩

/-! ## The levels of what is stored -/

/-- How many of the entries have such an id. -/
def picked (p : Nat → Bool) (es : Multiset Entry) : Nat := es.countP fun e => p e.id

theorem picked_add (p : Nat → Bool) (a b : Multiset Entry) :
    picked p (a + b) = picked p a + picked p b := Multiset.countP_add _ a b

theorem picked_singleton (p : Nat → Bool) (e : Entry) : picked p {e} = (p e.id).toNat := by
  unfold picked
  rw [← Multiset.cons_zero, Multiset.countP_cons]
  cases p e.id <;> simp

theorem picked_cons (p : Nat → Bool) (e : Entry) (es : List Entry) :
    picked p ((e :: es : List Entry) : Multiset Entry) = (p e.id).toNat + picked p es := by
  rw [← Multiset.cons_coe, ← Multiset.singleton_add, picked_add, picked_singleton]

/-- The levels of the stored entries with such an id, added up. -/
def Wheel.weight (p : Nat → Bool) (w : Wheel) : Nat :=
  ∑ k : Fin 6, k.val * picked p (Buckets.contents (w.levels k).slots)

theorem weight_new (p : Nat → Bool) : Wheel.new.weight p = 0 := by
  simp [Wheel.weight, Wheel.new, Level.new, Buckets.contents, picked]

theorem weight_clear (p : Nat → Bool) (w : Wheel) : w.clear.weight p = 0 := by
  simp [Wheel.weight, Wheel.clear, Level.new, Buckets.contents, picked]

/-- One level replaced. -/
theorem weight_update (p : Nat → Bool) (w : Wheel) (k : Fin 6) (l : Level) :
    ∑ i : Fin 6, i.val * picked p (Buckets.contents (Function.update w.levels k l i).slots)
        + k.val * picked p (Buckets.contents (w.levels k).slots)
      = w.weight p + k.val * picked p (Buckets.contents l.slots) := by
  have hcomp : ∀ i : Fin 6,
      i.val * picked p (Buckets.contents (Function.update w.levels k l i).slots)
        = Function.update (fun i : Fin 6 => i.val * picked p (Buckets.contents (w.levels i).slots)) k
            (k.val * picked p (Buckets.contents l.slots)) i := by
    intro i
    by_cases hi : i = k
    · subst hi; simp
    · simp [hi]
  rw [Finset.sum_congr rfl fun i _ => hcomp i]
  exact Buckets.sum_update _ k _

theorem weight_put (p : Nat → Bool) (w : Wheel) (k : Fin 6) (s : Fin 64) (e : Entry) :
    (w.put k s e).weight p = w.weight p + k.val * (p e.id).toNat := by
  have h := weight_update p w k ((w.levels k).insert s e)
  have hl : Buckets.contents ((w.levels k).insert s e).slots
      = Buckets.contents (w.levels k).slots + {e} := Buckets.contents_push _ _ _
  rw [hl, picked_add, picked_singleton, Nat.mul_add] at h
  have hw : (w.put k s e).weight p
      = ∑ i : Fin 6, i.val * picked p
          (Buckets.contents (Function.update w.levels k ((w.levels k).insert s e) i).slots) := rfl
  omega

theorem weight_drain (p : Nat → Bool) (w : Wheel) (k : Fin 6) (s : Fin 64) :
    (w.drain k s).1.weight p + k.val * picked p (w.drain k s).2 = w.weight p := by
  have h := weight_update p w k ((w.levels k).drainSlot s).1
  have hl : Buckets.contents ((w.levels k).drainSlot s).1.slots + (w.drain k s).2
      = Buckets.contents (w.levels k).slots := Buckets.contents_drain _ _
  rw [← hl, picked_add, Nat.mul_add] at h
  have hw : (w.drain k s).1.weight p
      = ∑ i : Fin 6, i.val * picked p
          (Buckets.contents (Function.update w.levels k ((w.levels k).drainSlot s).1 i).slots) := rfl
  omega

/-- Whatever level `insert` chooses, there are at most five below it. -/
theorem weight_insert_le (p : Nat → Bool) (w : Wheel) (e : Entry) :
    (w.insert e).1.weight p ≤ w.weight p + 5 * (p e.id).toNat := by
  rcases insert_cases w e with h | ⟨k, s, h⟩
  · rw [h]
    exact Nat.le_add_right _ _
  · rw [h, weight_put]
    have hk : k.val * (p e.id).toNat ≤ 5 * (p e.id).toNat := Nat.mul_le_mul_right _ (by omega)
    exact Nat.add_le_add_left hk _

/-! ## Entries that are put back -/

/-- The step puts a drained entry with such an id back. -/
def Turning.reinserts (p : Nat → Bool) (s : Turning) (a : Act) : Nat :=
  match s.pc, a with
  | .entries _ _ (entry :: _), .go => (p entry.id).toNat
  | _, _ => 0

/-- The call inserts an entry with such an id. -/
def Act.inserts (p : Nat → Bool) : Act → Nat
  | .insert entry => (p entry.id).toNat
  | _ => 0

/-- What the entries still to put back hold: a step for each level they have to fall. -/
def WheelPc.weight (p : Nat → Bool) : WheelPc → Nat
  | .entries _ j es => (j.val + 1) * picked p es
  | _ => 0

/-- A drained entry holds one step more than it takes along to its new level. -/
theorem weight_reinsert {w : Wheel} {ex : List Entry} {now : Nat} {j : Fin 5} {e : Entry}
    {rest : List Entry} (p : Nat → Bool) (h : TurningInv ⟨w, .entries now j (e :: rest), ex⟩)
    (hc : w.cursor < e.deadline → w.cursor ≤ cursorMax) :
    (p e.id).toNat + (Wheel.reinsert (w, ex) e).1.weight p
      ≤ w.weight p + (j.val + 1) * (p e.id).toNat := by
  have hone : (p e.id).toNat ≤ (j.val + 1) * (p e.id).toNat := Nat.le_mul_of_pos_left _ (by omega)
  rcases h.descends hc with ⟨_, hr⟩ | ⟨i, hij, hr, _⟩
  · rw [hr]
    show (p e.id).toNat + w.weight p ≤ _
    omega
  · rw [hr]
    show (p e.id).toNat + (w.put i _ e).weight p ≤ _
    rw [weight_put]
    have hij' : i.val + 1 ≤ j.val + 1 := hij
    have hmul := Nat.mul_le_mul_right (p e.id).toNat hij'
    rw [Nat.add_mul i.val, Nat.one_mul] at hmul
    omega

/-- Inserting an entry pays for all its cascades. -/
theorem reinserts_step (p : Nat → Bool) {s s' : Turning} {a : Act} (hI : TurningInv s)
    (hok : NoOverflow s a) (hs : s.step a = some s') :
    s.reinserts p a + (s'.wheel.weight p + s'.pc.weight p)
      ≤ s.wheel.weight p + s.pc.weight p + 5 * a.inserts p := by
  cases step_cases hs with
  | @insert w ex e =>
      have h := weight_insert_le p w e
      show 0 + ((w.insert e).1.weight p + 0) ≤ w.weight p + 0 + 5 * (p e.id).toNat
      omega
  | @clear w ex =>
      show 0 + (w.clear.weight p + 0) ≤ _
      rw [weight_clear]
      exact Nat.zero_le _
  | stay _ | jump _ _ | enter _ _ | tick _ | leave _ | skip _ | jumpAfter _ | again _ =>
      exact Nat.le_of_eq (Nat.zero_add _)
  | @drain w ex now j _ =>
      have h := weight_drain p w j.succ (slotOf j.succ w.cursor)
      show 0 + ((w.drain j.succ (slotOf j.succ w.cursor)).1.weight p
        + j.succ.val * picked p (w.drain j.succ (slotOf j.succ w.cursor)).2) ≤ w.weight p + 0 + 0
      omega
  | @reinsert w ex now j e es =>
      have h := weight_reinsert p hI (hok e rfl)
      show (p e.id).toNat + ((Wheel.reinsert (w, ex) e).1.weight p + (j.val + 1) * picked p es)
        ≤ w.weight p + (j.val + 1) * picked p ((e :: es : List Entry) : Multiset Entry) + 0
      rw [picked_cons, Nat.mul_add]
      omega
  | @next w ex now j =>
      show 0 + (w.weight p + 0) ≤ w.weight p + (j.val + 1) * picked p ([] : List Entry) + 0
      omega
  | @finish w ex now =>
      have h := weight_drain p w 0 (slotOf 0 w.cursor)
      show 0 + ((w.drain 0 (slotOf 0 w.cursor)).1.weight p + 0) ≤ w.weight p + 0 + 0
      omega

/-! ## The turns themselves -/

/-- The step does something else for a call under way. -/
def Turning.turns (s : Turning) (a : Act) : Nat :=
  match s.pc, a with
  | .entries _ _ (_ :: _), _ => 0
  | _, .go => 1
  | _, _ => 0

/-- The steps left up to the next test of the loop, and its end. -/
def WheelPc.rank : WheelPc → Nat
  | .rest => 0
  | .loop _ => 1
  | .after _ => 2
  | .level _ k => 2 * k.val + 3
  | .entries _ j _ => 2 * j.val + 4

/-- A call of `advance_to`. -/
def Act.advances : Act → Nat
  | .advanceTo _ => 1
  | _ => 0

/-- A call under way has not passed the tick it is on its way to. -/
def OnTheWay (s : Turning) : Prop := ∀ now ∈ s.pc.target, s.wheel.cursor ≤ now

theorem onTheWay_step {s s' : Turning} {a : Act} (h : OnTheWay s) (hs : s.step a = some s') :
    OnTheWay s' := by
  cases step_cases hs with
  | insert | clear | stay _ | jump _ _ | leave _ | jumpAfter _ =>
      exact fun _ hn => absurd hn (by simp [WheelPc.target])
  | @enter w ex now hlt _ =>
      rintro n hn
      obtain rfl := Option.some.inj hn
      exact Nat.le_of_lt hlt
  | @tick w ex now hlt =>
      rintro n hn
      obtain rfl := Option.some.inj hn
      exact hlt
  | reinsert =>
      intro n hn
      rw [reinsert_cursor]
      exact h n hn
  | skip _ | drain _ | next | finish | again _ => exact h

/-- Thirteen steps a tick, and one for the call. -/
theorem turns_step {s s' : Turning} {a : Act} (h : OnTheWay s) (hs : s.step a = some s') :
    s.turns a + s'.pc.rank + 13 * s.wheel.cursor
      ≤ s.pc.rank + 13 * s'.wheel.cursor + a.advances := by
  cases step_cases hs with
  | @insert w ex e =>
      show 0 + 0 + 13 * w.cursor ≤ 0 + 13 * (w.insert e).1.cursor + 0
      rw [insert_cursor]
      omega
  | @reinsert w ex now j e es =>
      show 0 + (2 * j.val + 4) + 13 * w.cursor
        ≤ 2 * j.val + 4 + 13 * (Wheel.reinsert (w, ex) e).1.cursor + 0
      have hcur : (Wheel.reinsert (w, ex) e).1.cursor = w.cursor := reinsert_cursor _ _
      omega
  | @clear w ex =>
      show 0 + 0 + 13 * w.cursor ≤ 0 + 13 * w.cursor + 0
      omega
  | @stay w ex now _ =>
      show 0 + 0 + 13 * w.cursor ≤ 0 + 13 * w.cursor + 1
      omega
  | @jump w ex now hlt _ =>
      show 0 + 0 + 13 * w.cursor ≤ 0 + 13 * now + 1
      omega
  | @enter w ex now _ _ =>
      show 0 + 1 + 13 * w.cursor ≤ 0 + 13 * w.cursor + 1
      omega
  | @tick w ex now _ =>
      show 1 + 13 + 13 * w.cursor ≤ 1 + 13 * (w.cursor + 1) + 0
      omega
  | @leave w ex now _ =>
      show 1 + 0 + 13 * w.cursor ≤ 1 + 13 * w.cursor + 0
      omega
  | @skip w ex now j _ =>
      show 1 + (2 * j.val + 3) + 13 * w.cursor ≤ 2 * (j.val + 1) + 3 + 13 * w.cursor + 0
      omega
  | @drain w ex now j _ =>
      show 1 + (2 * j.val + 4) + 13 * w.cursor ≤ 2 * (j.val + 1) + 3 + 13 * w.cursor + 0
      omega
  | @next w ex now j =>
      show 1 + (2 * j.val + 3) + 13 * w.cursor ≤ 2 * j.val + 4 + 13 * w.cursor + 0
      omega
  | @finish w ex now =>
      show 1 + 2 + 13 * w.cursor ≤ 2 * 0 + 3 + 13 * w.cursor + 0
      omega
  | @jumpAfter w ex now _ =>
      have hle : w.cursor ≤ now := h now rfl
      show 1 + 0 + 13 * w.cursor ≤ 2 + 13 * now + 0
      omega
  | @again w ex now _ =>
      show 1 + 1 + 13 * w.cursor ≤ 2 + 13 * w.cursor + 0
      omega

/-! ## Whole runs -/

/-- One step of a call under way. -/
def Act.goes : Act → Nat
  | .go => 1
  | _ => 0

/-- A step either puts an entry back or is one of the turn itself. -/
theorem goes_eq {s s' : Turning} {a : Act} (hs : s.step a = some s') :
    a.goes = s.reinserts (fun _ => true) a + s.turns a := by
  cases step_cases hs with
  | _ => rfl

theorem reinserts_accounts (p : Nat → Bool) :
    turning.Accounts NoOverflow TurningInv
      (fun s => ((s.wheel.weight p + s.pc.weight p : Nat) : Int))
      (Turning.reinserts p) (fun _ a => 5 * a.inserts p) := by
  intro s a s' hI hok hs
  have hle := reinserts_step p hI hok hs
  refine ⟨turningInv_step hI hok hs, ?_⟩
  push_cast
  omega

theorem goes_accounts :
    turning.Accounts NoOverflow (fun s => TurningInv s ∧ OnTheWay s)
      (fun s => ((s.wheel.weight (fun _ => true) + s.pc.weight (fun _ => true) + s.pc.rank : Nat)
        : Int) - 13 * s.wheel.cursor)
      (fun _ a => a.goes) (fun _ a => 5 * a.inserts (fun _ => true) + a.advances) := by
  rintro s a s' ⟨hI, hw⟩ hok hs
  have hput := reinserts_step (fun _ => true) hI hok hs
  have hturn := turns_step hw hs
  have hgoes := goes_eq hs
  refine ⟨⟨turningInv_step hI hok hs, onTheWay_step hw hs⟩, ?_⟩
  push_cast
  omega

/--
**Every entry pays for its cascades when it is inserted.**

In every run without overflow, from an empty wheel: for any set of ids, the entries with
such ids are put back by cascades at most five times as often as entries with such ids were
inserted, however many boundaries the cursor crosses. All calls of `advance_to` together
take at most thirteen steps for each tick of the cursor, five for each entry inserted, and
one for each call.
-/
theorem cascades_amortized {acts : List Act} {s : Turning}
    (hm : turning.Meets NoOverflow Turning.new acts) (hr : turning.run Turning.new acts = some s) :
    (∀ p : Nat → Bool, turning.total (Turning.reinserts p) Turning.new acts
      ≤ 5 * (acts.map (Act.inserts p)).sum)
    ∧ (acts.map Act.goes).sum ≤ 13 * s.wheel.cursor
        + 5 * (acts.map (Act.inserts fun _ => true)).sum + (acts.map Act.advances).sum := by
  -- nothing is stored at the start, and the counter stands between two calls
  have hempty : ∀ p, Turning.new.wheel.weight p = 0 := weight_new
  have hpc : ∀ p, Turning.new.pc.weight p = 0 := fun _ => rfl
  have hrank : Turning.new.pc.rank = 0 := rfl
  have hcursor : Turning.new.wheel.cursor = 0 := rfl
  constructor
  · intro p
    have hle := ((reinserts_accounts p).total_le turningInv_new hm hr).2
    rw [System.total_label _ hr, List.sum_map_mul_left, hempty, hpc] at hle
    omega
  · have hnew : OnTheWay Turning.new := fun _ hn => absurd hn (by simp [Turning.new, WheelPc.target])
    have hle := (goes_accounts.total_le ⟨turningInv_new, hnew⟩ hm hr).2
    rw [System.total_label _ hr, System.total_label _ hr, List.sum_map_add, List.sum_map_mul_left,
      hempty, hpc, hrank, hcursor] at hle
    omega

/-- Two timers, one of which is put back at the boundary 64. -/
def twoTimers : List Act :=
  [.advanceTo 60, .insert ⟨7, 63⟩, .insert ⟨8, 127⟩, .advanceTo 66] ++ List.replicate 51 .go

theorem cascades_amortized_twoTimers :
    ∃ s, turning.run Turning.new twoTimers = some s
      ∧ turning.total (Turning.reinserts (· == 8)) Turning.new twoTimers = 1
      ∧ turning.total (Turning.reinserts (· == 8)) Turning.new twoTimers
        ≤ 5 * (twoTimers.map (Act.inserts (· == 8))).sum
      ∧ (twoTimers.map Act.goes).sum ≤ 13 * s.wheel.cursor
          + 5 * (twoTimers.map (Act.inserts fun _ => true)).sum
          + (twoTimers.map Act.advances).sum := by
  have hm : turning.Meets NoOverflow Turning.new twoTimers := by decide +kernel
  obtain ⟨s, hrun, _⟩ := hm.run (.init rfl)
  obtain ⟨hput, hgo⟩ := cascades_amortized hm hrun
  exact ⟨s, hrun, by decide +kernel, hput _, hgo⟩

end Nanorun.Time
