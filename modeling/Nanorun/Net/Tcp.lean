import Nanorun.Reactor.Linux

/-!
# Polling sockets

`net/tcp.rs`: the `ReadyFor` future and the loop that `TcpListener::accept`,
`TcpStream::read` and `TcpStream::write` share. What the system call answers is an
argument of the poll.
-/

namespace Nanorun.Net

open Reactor

variable {W : Type}

structure ReadyFor where
  token : Nat
  dir : Direction
  polled : Bool
  deriving DecidableEq, Repr

/-- `ReadyFor::new` -/
def ReadyFor.new (token : Nat) (dir : Direction) : ReadyFor where
  token := token
  dir := dir
  polled := false

/-- What a poll leaves: the future, the slab, and whether it is ready. -/
structure Polled (F W : Type) where
  future : F
  slots : Slab (Slot W)
  ready : Bool

/-- `ReadyFor::poll` -/
def ReadyFor.poll (f : ReadyFor) (slots : Slab (Slot W)) (waker : W) : Polled ReadyFor W :=
  -- any second poll counts as readiness, whatever it came for
  if f.polled then { future := f, slots := slots, ready := true }
  else
    { future := { f with polled := true }
      slots := setWaker slots f.token f.dir waker
      ready := false }

/-- From the top of the loop: the system call, and `ReadyFor` if it would block. -/
def ioLoop (token : Nat) (d : Direction) (blocks : Bool) (slots : Slab (Slot W)) (waker : W) :
    Polled (Option ReadyFor) W :=
  if blocks then
    let r := (ReadyFor.new token d).poll slots waker
    { future := some r.future, slots := r.slots, ready := r.ready }
  else { future := none, slots := slots, ready := true }

/-- One poll of `accept`, `read` or `write`; `awaiting` is the `ReadyFor` it is parked in. -/
def ioPoll (token : Nat) (d : Direction) (awaiting : Option ReadyFor) (blocks : Bool)
    (slots : Slab (Slot W)) (waker : W) : Polled (Option ReadyFor) W :=
  match awaiting with
  | none => ioLoop token d blocks slots waker
  | some f =>
      let r := f.poll slots waker
      if r.ready then ioLoop token d blocks r.slots waker
      else { future := some r.future, slots := r.slots, ready := false }

/-- A call that was parked has polled its `ReadyFor` already. -/
theorem ioPoll_parked {token : Nat} {d : Direction} {f : ReadyFor} (h : f.polled = true)
    (blocks : Bool) (slots : Slab (Slot W)) (w : W) :
    ioPoll token d (some f) blocks slots w = ioLoop token d blocks slots w := by
  simp [ioPoll, ReadyFor.poll, h]

end Nanorun.Net
