import Nanorun.Time.Wheel

/-!
# The timer driver

`time/driver.rs`: the wheel, a map from entry ids to wakers, and the conversion of
instants to ticks. Every method takes the mutex once, so each is one step.

An `Instant` is a number of nanoseconds. `advance` returns the wakers it wakes
beside the ids they were registered under; the source keeps the wakers only.
-/

namespace Nanorun.Time

/-- `TICK_NS` -/
abbrev tickNs : Nat := 1000000

/-- `u64::try_from(ticks).unwrap_or(u64::MAX)` -/
def saturate (ticks : Nat) : Nat := if ticks < 2 ^ 64 then ticks else 2 ^ 64 - 1

/-- `u128::div_ceil` -/
def divCeil (a b : Nat) : Nat := if a % b = 0 then a / b else a / b + 1

/-- `instant_to_tick_ceil`: the first tick that is not before `deadline`. -/
def instantToTickCeil (epoch deadline : Nat) : Nat := saturate (divCeil (deadline - epoch) tickNs)

/-- `instant_to_tick_floor`: the last tick that is not after `now`. -/
def instantToTickFloor (epoch now : Nat) : Nat := saturate ((now - epoch) / tickNs)

/-- `tick_to_instant` -/
def tickToInstant (epoch tick : Nat) : Nat := epoch + tick * tickNs

structure Driver (W : Type) where
  wheel : Wheel
  wakers : Nat → Option W
  nextId : Nat
  epoch : Nat

/-- What became of a registration. -/
inductive Registration (W : Type) where
  /-- `Some(id)`, after a reactor wake. -/
  | armed (id : Nat)
  /-- `None`, after waking the waker. -/
  | due (woken : W)
  deriving DecidableEq, Repr

variable {W : Type}

namespace Driver

def new (epoch : Nat) : Driver W where
  wheel := Wheel.new
  wakers _ := none
  nextId := 0
  epoch := epoch

/-- `Driver::register` once the deadline is a tick. -/
def registerAt (d : Driver W) (deadlineTick : Nat) (waker : W) : Driver W × Registration W :=
  match d.wheel.insert ⟨d.nextId, deadlineTick⟩ with
  | (wheel, .ok ()) =>
      ({ d with
          nextId := wrappingAdd d.nextId 1
          wheel := wheel
          wakers := Function.update d.wakers d.nextId (some waker) }, .armed d.nextId)
  | (wheel, .error _) => ({ d with nextId := wrappingAdd d.nextId 1, wheel := wheel }, .due waker)

/-- `Driver::register` -/
def register (d : Driver W) (deadline : Nat) (waker : W) : Driver W × Registration W :=
  d.registerAt (instantToTickCeil d.epoch deadline) waker

/-- `Driver::cancel` -/
def cancel (d : Driver W) (id : Nat) : Driver W :=
  { d with wakers := Function.update d.wakers id none }

/-- `Driver::next_deadline` -/
def nextDeadline (d : Driver W) : Option Nat := d.wheel.nextTick.map (tickToInstant d.epoch)

/-- Take the wakers of the drained entries out of the map; a cancelled entry has none. -/
def collect (wakers : Nat → Option W) : List Entry → (Nat → Option W) × List (Nat × W)
  | [] => (wakers, [])
  | e :: es =>
      let r := collect (Function.update wakers e.id none) es
      match wakers e.id with
      | some w => (r.1, (e.id, w) :: r.2)
      | none => r

/-- `Driver::advance` once `now` is a tick. -/
def advanceAt (d : Driver W) (nowTick : Nat) : Driver W × List (Nat × W) :=
  let r := d.wheel.advanceTo nowTick
  let c := collect d.wakers r.2
  ({ d with wheel := r.1, wakers := c.1 }, c.2)

/-- `Driver::advance` -/
def advance (d : Driver W) (now : Nat) : Driver W × List (Nat × W) :=
  d.advanceAt (instantToTickFloor d.epoch now)

/-- `Driver::clear` -/
def clear (d : Driver W) : Driver W :=
  { d with wheel := d.wheel.clear, wakers := fun _ => none }

end Driver

/-- The calls made on a driver. -/
inductive Timer (W : Type) where
  | register (deadline : Nat) (waker : W)
  | cancel (id : Nat)
  | advance (now : Nat)
  | clear
  deriving DecidableEq, Repr

/-- What they do to wakers. -/
inductive Answer (W : Type) where
  | registered (r : Registration W)
  | fired (wakers : List (Nat × W))
  | done
  deriving DecidableEq, Repr

/-- One call of a driver. -/
def Driver.call (d : Driver W) : Timer W → Driver W × Answer W
  | .register deadline waker =>
      ((d.register deadline waker).1, .registered (d.register deadline waker).2)
  | .cancel id => (d.cancel id, .done)
  | .advance now => ((d.advance now).1, .fired (d.advance now).2)
  | .clear => (d.clear, .done)

end Nanorun.Time
