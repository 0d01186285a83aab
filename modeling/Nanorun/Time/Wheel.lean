import Mathlib.Algebra.Group.Nat.Defs
import Mathlib.Tactic.Common
import Nanorun.Lib.Bits

/-!
# The timer wheel

`time/wheel.rs`: six levels of 64 slots over a base tick. A wheel is a value and
every method returns the wheel it leaves; `insert` returns it beside its `Result`,
and `advance_one`, which pushes onto a caller's `Vec`, beside that list.

Ticks are `u64`s kept as naturals. The two places where the source can overflow,
the clamp of `insert` and its `delta`, wrap as in a release build; the cursor's
own increment stays below `now`.
-/

namespace Nanorun.Time

open Bits

/-- `SLOT_MASK` -/
abbrev slotMask : Nat := 63

/-- `MAX_TICKS`, that is `64 ^ 6`. -/
abbrev maxTicks : Nat := 1 <<< 36

/-- `a - b` on `u64`. -/
def wrappingSub (a b : Nat) : Nat := (a + 2 ^ 64 - b) % 2 ^ 64

/-- `a + b` on `u64`. -/
def wrappingAdd (a b : Nat) : Nat := (a + b) % 2 ^ 64

structure Entry where
  id : Nat
  deadline : Nat
  deriving DecidableEq, Repr

/-- 64 slots, and the mask of the occupied ones. -/
structure Level where
  slots : Fin 64 → List Entry
  occupied : Word

structure Wheel where
  levels : Fin 6 → Level
  cursor : Nat
  count : Nat

def Level.new : Level where
  slots _ := []
  occupied := 0

/-- `Level::insert` -/
def Level.insert (l : Level) (slot : Fin 64) (entry : Entry) : Level where
  slots := Function.update l.slots slot (l.slots slot ++ [entry])
  occupied := l.occupied ||| bit slot

/-- `Level::drain_slot` -/
def Level.drainSlot (l : Level) (slot : Fin 64) : Level × List Entry :=
  let slots := Function.update l.slots slot []
  ({ slots := slots
     occupied := if (slots slot).isEmpty then l.occupied &&& ~~~bit slot else l.occupied },
    l.slots slot)

/-- The index `(tick >> (LEVEL_BITS * k)) & SLOT_MASK` of a tick at level `k`. -/
def slotOf (k tick : Nat) : Fin 64 :=
  ⟨(tick >>> (6 * k)) &&& slotMask, Nat.lt_succ_of_le Nat.and_le_right⟩

/-- `level_for` -/
def levelFor (delta : Nat) : Fin 6 := ⟨min (delta.log2 / 6) 5, by omega⟩

namespace Wheel

def new : Wheel where
  levels _ := Level.new
  cursor := 0
  count := 0

/-- `self.levels[k].insert(slot, entry); self.count += 1` -/
def put (w : Wheel) (k : Fin 6) (slot : Fin 64) (entry : Entry) : Wheel :=
  { w with
    levels := Function.update w.levels k ((w.levels k).insert slot entry)
    count := w.count + 1 }

/-- `self.levels[k].drain_slot(slot)` with `self.count -= drained.len()`. -/
def drain (w : Wheel) (k : Fin 6) (slot : Fin 64) : Wheel × List Entry :=
  let r := (w.levels k).drainSlot slot
  ({ w with levels := Function.update w.levels k r.1, count := w.count - r.2.length }, r.2)

/-- `Wheel::insert` -/
def insert (w : Wheel) (entry : Entry) : Wheel × Except Entry Unit :=
  if entry.deadline ≤ w.cursor then (w, .error entry)
  else
    let maxDeadline := wrappingSub (wrappingAdd w.cursor maxTicks) 1
    let entry := if entry.deadline > maxDeadline then { entry with deadline := maxDeadline } else entry
    let delta := wrappingSub entry.deadline w.cursor
    let k := levelFor delta
    (w.put k (slotOf k entry.deadline) entry, .ok ())

/-- `Wheel::next_tick` -/
def nextTick (w : Wheel) : Option Nat :=
  if w.count = 0 then none
  else
    (List.finRange 6).foldl (fun min k =>
      if (w.levels k).occupied = 0 then min
      else
        (List.finRange 64).foldl (fun min s =>
          ((w.levels k).slots s).foldl (fun min entry =>
            some (min.elim entry.deadline fun m => Nat.min m entry.deadline)) min) min) none

/-- Re-insert one drained entry; one that is due expires. -/
def reinsert (r : Wheel × List Entry) (entry : Entry) : Wheel × List Entry :=
  match r.1.insert entry with
  | (w, .ok ()) => (w, r.2)
  | (w, .error e) => (w, r.2 ++ [e])

/-- The body of `advance_one`'s loop over the levels. -/
def cascade (r : Wheel × List Entry) (k : Fin 6) : Wheel × List Entry :=
  let period := 1 <<< (6 * k.val)
  if r.1.cursor % period = 0 then
    let d := r.1.drain k (slotOf k r.1.cursor)
    d.2.foldl reinsert (d.1, r.2)
  else r

/-- `Wheel::advance_one` -/
def advanceOne (w : Wheel) (expired : List Entry) : Wheel × List Entry :=
  let w := { w with cursor := w.cursor + 1 }
  -- from the top down, so that an entry may fall through several levels in one turn
  let r := [5, 4, 3, 2, 1].foldl cascade (w, expired)
  let d := r.1.drain 0 (slotOf 0 r.1.cursor)
  (d.1, r.2 ++ d.2)

/-- The `while` loop of `advance_to`; every turn moves the cursor by one, so `now` bounds it. -/
def advanceWhile (now : Nat) : Nat → Wheel → List Entry → Wheel × List Entry
  | 0, w, expired => (w, expired)
  | fuel + 1, w, expired =>
      if w.cursor < now then
        let r := w.advanceOne expired
        if r.1.count = 0 then ({ r.1 with cursor := now }, r.2)
        else advanceWhile now fuel r.1 r.2
      else (w, expired)

/-- `Wheel::advance_to` -/
def advanceTo (w : Wheel) (now : Nat) : Wheel × List Entry :=
  if now ≤ w.cursor then (w, [])
  else if w.count = 0 then ({ w with cursor := now }, [])
  else advanceWhile now (now - w.cursor) w []

/-- `Wheel::clear` -/
def clear (w : Wheel) : Wheel :=
  { w with levels := fun _ => Level.new, count := 0 }

end Wheel

end Nanorun.Time
