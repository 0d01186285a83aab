import Nanorun.Lib.Calls
import Nanorun.Time.Advance

/-!
# The wheel is a flat timer list

What the wheel is for, without levels and slots: a multiset of entries under their
effective deadlines, and a cursor. The specification fixes every reply up to the
order of entries with equal deadlines; `wheel_refines_flat` says that the wheel
only ever gives replies that the flat list allows.
-/

namespace Nanorun.Time

/-- The pending entries and the cursor. -/
structure Flat where
  pending : Multiset Entry
  cursor : Nat

/-- The calls the driver makes. -/
inductive Op where
  | insert (entry : Entry)
  | advanceTo (now : Nat)
  | clear
  deriving DecidableEq, Repr

/-- What they return. -/
inductive Reply where
  | inserted (r : Except Entry Unit)
  | expired (entries : List Entry)
  | cleared

/-- One call of a wheel. -/
def Wheel.call (w : Wheel) : Op → Wheel × Reply
  | .insert entry => ((w.insert entry).1, .inserted (w.insert entry).2)
  | .advanceTo now => ((w.advanceTo now).1, .expired (w.advanceTo now).2)
  | .clear => (w.clear, .cleared)

/-- What a call of the flat list may return, and what it leaves. -/
inductive Flat.Call : Flat → Op → Reply → Flat → Prop where
  | rejected {f : Flat} {e : Entry} : e.deadline ≤ f.cursor →
      Flat.Call f (.insert e) (.inserted (.error e)) f
  | inserted {f : Flat} {e : Entry} : f.cursor < e.deadline →
      Flat.Call f (.insert e) (.inserted (.ok ()))
        { f with pending := f.pending + {e.clamped f.cursor} }
  | expired {f : Flat} {now : Nat} {entries : List Entry} :
      (entries : Multiset Entry) = f.pending.filter (fun e => e.deadline ≤ now) →
      (entries.Pairwise fun a b => a.deadline ≤ b.deadline) →
      Flat.Call f (.advanceTo now) (.expired entries)
        { pending := f.pending.filter (fun e => ¬ e.deadline ≤ now), cursor := max f.cursor now }
  | cleared {f : Flat} : Flat.Call f .clear .cleared { f with pending := 0 }

def Flat.new : Flat where
  pending := 0
  cursor := 0

/-- The flat list that a wheel stands for. -/
def Wheel.flat (w : Wheel) : Flat where
  pending := w.stored
  cursor := w.cursor

/-! ## Refinement -/

/-- One call of the wheel is a call of the flat list. -/
theorem call_refines {w : Wheel} {op : Op} (h : WheelInv w) (hc : w.cursor ≤ cursorMax)
    (hc' : (w.call op).1.cursor ≤ cursorMax) :
    WheelInv (w.call op).1 ∧ Flat.Call w.flat op (w.call op).2 (w.call op).1.flat := by
  cases op with
  | insert e =>
      by_cases hdue : e.deadline ≤ w.cursor
      · simp only [Wheel.call, insert_due hdue]
        exact ⟨h, .rejected hdue⟩
      · have hlt : w.cursor < e.deadline := by omega
        obtain ⟨hinv, hcur, hst, hok⟩ := insert_inv h hc hlt
        have hflat : (w.insert e).1.flat
            = { w.flat with pending := w.flat.pending + {e.clamped w.flat.cursor} } := by
          simp only [Wheel.flat, hcur, hst]
        simp only [Wheel.call, hok, hflat]
        exact ⟨hinv, .inserted hlt⟩
  | advanceTo now =>
      have hnow : now ≤ cursorMax := by
        simp only [Wheel.call, advanceTo_cursor] at hc'
        omega
      obtain ⟨hinv, hcur, hex, hst, hsort⟩ := advanceTo_spec h hnow
      have hflat : (w.advanceTo now).1.flat
          = { pending := w.flat.pending.filter (fun e => ¬ e.deadline ≤ now),
              cursor := max w.flat.cursor now } := by
        simp only [Wheel.flat, hcur, hst]
      simp only [Wheel.call, hflat]
      exact ⟨hinv, .expired hex hsort⟩
  | clear =>
      obtain ⟨hinv, hcur, hst⟩ := clear_spec w
      have hflat : w.clear.flat = { w.flat with pending := 0 } := by
        simp only [Wheel.flat, hcur, hst]
      simp only [Wheel.call, hflat]
      exact ⟨hinv, .cleared⟩

/--
**The hierarchical wheel refines a flat timer list.**

For every list of calls through which the cursor stays where `cursor + MAX_TICKS`
does not overflow, the replies of a new wheel are replies of an empty flat list,
which then holds what the wheel stores, at the wheel's cursor. The wheel that
rejects an entry is left as it was.
-/
theorem wheel_refines_flat (ops : List Op)
    (h : Calls.Stays Wheel.call (fun w => w.cursor ≤ cursorMax) Wheel.new ops) :
    Calls.Allows Flat.Call Flat.new ops (Calls.run Wheel.call Wheel.new ops).2
        (Calls.run Wheel.call Wheel.new ops).1.flat
    ∧ ∀ e, e.deadline ≤ (Calls.run Wheel.call Wheel.new ops).1.cursor →
        (Calls.run Wheel.call Wheel.new ops).1.insert e
          = ((Calls.run Wheel.call Wheel.new ops).1, .error e) := by
  have hnew : Wheel.new.flat = Flat.new := by
    have h0 : Wheel.new.stored = 0 := by
      rw [← Multiset.card_eq_zero, ← wheelInv_new.counted]; rfl
    rw [Wheel.flat, h0]
    rfl
  have hsim := Calls.allows_of_simulation Wheel.flat (I := WheelInv)
    (fun _ _ hi hc hc' => call_refines hi hc hc') wheelInv_new h
  rw [hnew] at hsim
  exact ⟨hsim.2, fun e he => insert_due he⟩

/-- A timer across the first cascade, one that is rejected, and a jump of the cursor. -/
def crossing : List Op :=
  [.insert ⟨7, 2⟩, .insert ⟨8, 65⟩, .advanceTo 3, .insert ⟨9, 3⟩, .advanceTo 70, .clear]

theorem wheel_refines_flat_crossing :
    Calls.Allows Flat.Call Flat.new crossing (Calls.run Wheel.call Wheel.new crossing).2
      (Calls.run Wheel.call Wheel.new crossing).1.flat :=
  (wheel_refines_flat crossing (by decide +kernel)).1

end Nanorun.Time
