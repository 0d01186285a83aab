import Nanorun.Lib.Ledger
import Nanorun.Lib.Transition
import Nanorun.Net.Tcp
import Nanorun.Reactor.Poll
import Nanorun.Reactor.Windows

/-!
# Sockets and what they hold

`net/tcp.rs` on Linux, from `socket` to `close`: `TcpListener::bind`,
`TcpListener::accept` and `TcpStream::connect` with every call that may fail, and the two
`Drop`s. A socket holds up to three things: a descriptor, an item in the epoll set and a
slot in the slab, taken one after the other and given back in another order. One step is
one system call or one section under the slab's lock, so the sockets interleave.

`sys::accept` decodes the peer's address while the new descriptor is still a bare integer,
and returns early if it does not know the family. Nobody owns that descriptor.

A kernel socket has the index of the object that is made for it. One reactor; sockets that
move to another one are in `Reactor/Tokens.lean`.
-/

namespace Nanorun.Net

open Reactor Transition Ledger
open Reactor.Windows (Interest)

namespace Sockets

variable {W : Type}

inductive Kind where
  | listener
  | stream
  deriving DecidableEq, Repr

/-- `Interest::READ` and `Interest::READ_WRITE`. -/
def Kind.interest : Kind → Interest
  | .listener => { read := true, write := false }
  | .stream => { read := true, write := true }

/-- Who calls `Inner::register`; `connect` with `EINPROGRESS` goes on to wait. -/
inductive Caller where
  | bind
  | accept
  | connect (inProgress : Bool)
  deriving DecidableEq, Repr

def Caller.kind : Caller → Kind
  | .bind => .listener
  | .accept | .connect _ => .stream

/-- The mask that `Inner::register` makes of an interest. -/
def mask (interest : Interest) : BitVec 32 :=
  (if interest.read then READABLE else 0) ||| (if interest.write then WRITABLE else 0)

/-- An item of the epoll set, under its descriptor. -/
structure Watch where
  /-- The kernel socket that the descriptor stands for. -/
  source : Nat
  token : Nat
  events : BitVec 32
  deriving DecidableEq, Repr

/-- Where a socket stands, and what its owner remembers of it. -/
inductive Stage where
  | unused
  /-- `TcpListener::bind`, about to call `sys::bind` and `sys::listen`. -/
  | bind (fd : Nat)
  | listen (fd : Nat)
  /-- `TcpStream::connect`, about to call `sys::connect`. -/
  | connect (fd : Nat)
  /-- `Inner::register`: `slots.insert()`, then `epoll::add`, and `slots.remove` if it fails. -/
  | insert (caller : Caller) (fd : Nat)
  | add (caller : Caller) (fd key : Nat)
  | undo (fd key : Nat)
  /-- `TcpStream::connect` in `ReadyFor` for its token, which has been polled or not. -/
  | waiting (fd key : Nat) (polled : Bool)
  | live (kind : Kind) (fd key : Nat)
  /-- `Inner::deregister` on behalf of `drop`: `epoll::delete`, then `slots.remove`. -/
  | delete (kind : Kind) (fd key : Nat)
  | remove (fd key : Nat)
  /-- `OwnedFd::drop` -/
  | close (fd : Nat)
  /-- The same after a `deregister` that did not happen or failed. -/
  | abandon (kind : Kind) (fd key : Nat)
  /-- Accepted, and its number forgotten. -/
  | leaked (fd : Nat)
  /-- Closed; the slot that was left behind. -/
  | closed (slot : Option Nat)
  deriving DecidableEq, Repr

structure World (W : Type) where
  /-- What an open descriptor stands for. -/
  fds : Nat → Option Nat
  epoll : Nat → Option Watch
  slots : Slab (Slot W)
  objects : Nat → Stage

inductive Answer where
  | ok
  /-- `EINPROGRESS` -/
  | inProgress
  | err
  deriving DecidableEq, Repr

inductive Label (W : Type) where
  /-- `sys::stream_socket` returns `fd` for the socket `i`. -/
  | socket (i : Nat) (kind : Kind) (fd : Nat)
  /-- `accept4` on `l` returns `fd` for the socket `i`; `decodes` if the family is known. -/
  | accept (l i fd : Nat) (decodes : Bool)
  /-- The next call of `i`. -/
  | go (i : Nat) (answer : Answer)
  /-- The `connect` of `i` is polled in `ReadyFor`; `ok` if `so_error` then reads 0. -/
  | poll (i : Nat) (waker : W) (ok : Bool)
  /-- A socket, or a `connect` that waits, is dropped; `installed` if the thread has a reactor. -/
  | drop (i : Nat) (installed : Bool)
  /-- A call on `i` parks. -/
  | park (i : Nat) (d : Direction) (waker : W)
  | dispatch (events : List Event)
  deriving DecidableEq, Repr

def World.goto (s : World W) (i : Nat) (stage : Stage) : World W :=
  { s with objects := Function.update s.objects i stage }

/-- The next call of a socket that is being made or dropped. -/
def proceed (s : World W) (i : Nat) (answer : Answer) : Option (World W) :=
  match s.objects i with
  | .bind fd => some (s.goto i (if answer = .err then .close fd else .listen fd))
  | .listen fd =>
      some (s.goto i (if answer = .err then .close fd else .insert .bind fd))
  | .connect fd =>
      some (s.goto i
        (if answer = .err then .close fd else .insert (.connect (answer = .inProgress)) fd))
  | .insert caller fd =>
      -- `with_current` panics where no reactor is installed, and the descriptor unwinds
      if answer = .err then some (s.goto i (.close fd))
      else
        some { s.goto i (.add caller fd s.slots.nextKey) with
          slots := s.slots.insert (Slot.new i) }
  | .add caller fd key =>
      if answer = .err then some (s.goto i (.undo fd key))
      else
        let stage := match caller with
          | .connect true => .waiting fd key false
          | caller => .live caller.kind fd key
        let watch := { source := i, token := key + 1, events := mask caller.kind.interest }
        some { s.goto i stage with epoll := Function.update s.epoll fd (some watch) }
  | .undo fd key | .remove fd key =>
      some { s.goto i (.close fd) with slots := s.slots.remove key }
  | .delete kind fd key =>
      if answer = .err then some (s.goto i (.abandon kind fd key))
      else some { s.goto i (.remove fd key) with epoll := Function.update s.epoll fd none }
  | .close fd => some { s.goto i (.closed none) with fds := Function.update s.fds fd none }
  | .abandon _ fd key =>
      -- the kernel takes a closed descriptor out of the set
      some { s.goto i (.closed (some key)) with
        fds := Function.update s.fds fd none
        epoll := Function.update s.epoll fd none }
  | _ => none

def next (s : World W) : Label W → Option (World W)
  | .socket i kind fd =>
      if s.objects i = .unused ∧ s.fds fd = none then
        let stage := match kind with
          | .listener => .bind fd
          | .stream => .connect fd
        some { s.goto i stage with fds := Function.update s.fds fd (some i) }
      else none
  | .accept l i fd decodes =>
      match s.objects l with
      | .live .listener _ _ =>
          if s.objects i = .unused ∧ s.fds fd = none then
            let stage := if decodes then .insert .accept fd else .leaked fd
            some { s.goto i stage with fds := Function.update s.fds fd (some i) }
          else none
      | _ => none
  | .go i answer => proceed s i answer
  | .poll i waker ok =>
      match s.objects i with
      | .waiting fd key polled =>
          let future : ReadyFor := { token := key + 1, dir := .write, polled := polled }
          let r := future.poll s.slots waker
          let stage := if r.ready then (if ok then .live .stream fd key else .delete .stream fd key)
            else .waiting fd key r.future.polled
          some { s.goto i stage with slots := r.slots }
      | _ => none
  | .drop i installed =>
      match s.objects i with
      | .waiting fd key _ =>
          some (s.goto i (if installed then .delete .stream fd key else .abandon .stream fd key))
      | .live kind fd key =>
          some (s.goto i (if installed then .delete kind fd key else .abandon kind fd key))
      | _ => none
  | .park i d waker =>
      match s.objects i with
      | .live _ _ key => some { s with slots := setWaker s.slots (key + 1) d waker }
      | _ => none
  | .dispatch events => some { s with slots := (Reactor.dispatch s.slots events).1 }

def start : World W where
  fds _ := none
  epoll _ := none
  slots := Slab.new
  objects _ := .unused

def system (W : Type) : System (World W) (Label W) where
  init s := s = start
  step := next

/-! ## What each stage holds -/

/-- The descriptor it has open. -/
def Stage.fd : Stage → Option Nat
  | .unused | .closed _ => none
  | .bind fd | .listen fd | .connect fd | .insert _ fd | .add _ fd _ | .undo fd _
  | .waiting fd _ _ | .live _ fd _ | .delete _ fd _ | .remove fd _ | .close fd | .abandon _ fd _
  | .leaked fd => some fd

/-- The slot it has in the slab. -/
def Stage.key : Stage → Option Nat
  | .add _ _ key | .undo _ key | .waiting _ key _ | .live _ _ key | .delete _ _ key
  | .remove _ key | .abandon _ _ key => some key
  | .closed slot => slot
  | _ => none

/-- What it was registered as, if it is in the epoll set. -/
def Stage.watch : Stage → Option (Kind × Nat × Nat)
  | .waiting fd key _ => some (.stream, fd, key)
  | .live kind fd key | .delete kind fd key | .abandon kind fd key => some (kind, fd, key)
  | _ => none

/-- The three claims of the socket `i`. -/
def holdsFd (i : Nat) (st : Stage) : Option (Nat × Nat) := st.fd.map fun fd => (fd, i)

def holdsSlot (i : Nat) (st : Stage) : Option (Nat × Nat) := st.key.map fun key => (key, i)

def holdsWatch (i : Nat) (st : Stage) : Option (Nat × Watch) :=
  st.watch.map fun w => (w.2.1, { source := i, token := w.2.2 + 1, events := mask w.1.interest })

/-- The socket that a slot was made for. -/
def ownerAt (slots : Slab (Slot W)) (key : Nat) : Option Nat := (slots.get key).map Slot.owner

theorem ownerAt_insert (slots : Slab (Slot W)) (i : Nat) :
    ownerAt (slots.insert (Slot.new i)) = Function.update (ownerAt slots) slots.nextKey (some i) := by
  funext key
  unfold ownerAt
  rw [Slab.get_insert]
  by_cases hk : key = slots.nextKey
  · subst hk
    rw [if_pos rfl, Function.update_self]
    rfl
  · rw [if_neg hk, Function.update_of_ne hk]

theorem ownerAt_remove (slots : Slab (Slot W)) (key : Nat) :
    ownerAt (slots.remove key) = Function.update (ownerAt slots) key none := by
  funext k
  unfold ownerAt
  rw [Slab.get_remove]
  by_cases hk : k = key
  · subst hk
    rw [if_pos rfl, Function.update_self]
    rfl
  · rw [if_neg hk, Function.update_of_ne hk]

/-- The kernel's two tables and the slab, against what the sockets remember. -/
structure Books (s : World W) : Prop where
  /-- An open descriptor is that of the socket that it stands for. -/
  fds : Balanced id s.fds fun i => holdsFd i (s.objects i)
  /-- An item is that of the registered socket under its descriptor. -/
  epoll : Balanced Watch.source s.epoll fun i => holdsWatch i (s.objects i)
  /-- A slot is that of the socket that it was made for. -/
  slots : Balanced id (ownerAt s.slots) fun i => holdsSlot i (s.objects i)

theorem books_start : Books (start : World W) where
  fds := .empty
  epoll := .empty
  slots := by
    refine Balanced.empty.congr (fun key => ?_) fun _ => rfl
    rw [ownerAt, start, Slab.get_new]
    rfl

/-! ## What a step can do -/

/-- It has lost track of something: a descriptor, or a slot that outlives it. -/
def Stage.stray : Stage → Bool
  | .leaked _ | .abandon _ _ _ | .closed (some _) => true
  | _ => false

/-- Accepted addresses decode, and sockets are dropped where their reactor is installed and
`epoll::delete` succeeds. -/
def Clean (s : World W) : Label W → Prop
  | .accept _ _ _ decodes => decodes = true
  | .drop _ installed => installed = true
  | .go i answer => answer = .err → ∀ kind fd key, s.objects i ≠ .delete kind fd key
  | _ => True

/-- The two stages hold the same. -/
structure Alike (a b : Stage) : Prop where
  fd : b.fd = a.fd
  key : b.key = a.key
  watch : b.watch = a.watch

inductive StepTo (s : World W) : Label W → World W → Prop where
  | opened {a : Label W} {i fd : Nat} {st : Stage} : s.objects i = .unused → s.fds fd = none →
      st.fd = some fd → st.key = none → st.watch = none → (Clean s a → st.stray = false) →
      StepTo s a { s.goto i st with fds := Function.update s.fds fd (some i) }
  | moved {a : Label W} {i : Nat} {st : Stage} {slots : Slab (Slot W)} :
      Alike (s.objects i) st → SameOwners s.slots slots →
      (Clean s a → (s.objects i).stray = false → st.stray = false) →
      StepTo s a { s.goto i st with slots := slots }
  | inserted {a : Label W} {i fd : Nat} {caller : Caller} : s.objects i = .insert caller fd →
      StepTo s a { s.goto i (.add caller fd s.slots.nextKey) with
        slots := s.slots.insert (Slot.new i) }
  | added {a : Label W} {i fd key : Nat} {caller : Caller} {st : Stage} :
      s.objects i = .add caller fd key → st.fd = some fd → st.key = some key →
      st.watch = some (caller.kind, fd, key) → st.stray = false →
      StepTo s a { s.goto i st with
        epoll := Function.update s.epoll fd
          (some { source := i, token := key + 1, events := mask caller.kind.interest }) }
  | removed {a : Label W} {i fd key : Nat} :
      s.objects i = .undo fd key ∨ s.objects i = .remove fd key →
      StepTo s a { s.goto i (.close fd) with slots := s.slots.remove key }
  | deleted {a : Label W} {i fd key : Nat} {kind : Kind} : s.objects i = .delete kind fd key →
      StepTo s a { s.goto i (.remove fd key) with epoll := Function.update s.epoll fd none }
  | closed {a : Label W} {i fd : Nat} : s.objects i = .close fd →
      StepTo s a { s.goto i (.closed none) with fds := Function.update s.fds fd none }
  | abandoned {a : Label W} {i fd key : Nat} {kind : Kind} :
      s.objects i = .abandon kind fd key →
      StepTo s a { s.goto i (.closed (some key)) with
        fds := Function.update s.fds fd none
        epoll := Function.update s.epoll fd none }
  /-- Only wakers come and go. -/
  | wakers {a : Label W} {slots : Slab (Slot W)} : SameOwners s.slots slots →
      StepTo s a { s with slots := slots }

/-- A socket that moves on and keeps what it has. -/
theorem StepTo.onward {s : World W} {a : Label W} {i : Nat} {st : Stage}
    (hsame : Alike (s.objects i) st) (hstray : Clean s a → st.stray = false) :
    StepTo s a (s.goto i st) :=
  .moved hsame (fun _ => rfl) fun hc _ => hstray hc

theorem proceed_spec {s s' : World W} {i : Nat} {answer : Answer}
    (hs : proceed s i answer = some s') : StepTo s (.go i answer) s' := by
  unfold proceed at hs
  split at hs
  case h_1 fd hst =>
    obtain rfl := Option.some.inj hs
    refine .onward ?_ fun _ => by split <;> rfl
    rw [hst]
    split <;> exact ⟨rfl, rfl, rfl⟩
  case h_2 fd hst =>
    obtain rfl := Option.some.inj hs
    refine .onward ?_ fun _ => by split <;> rfl
    rw [hst]
    split <;> exact ⟨rfl, rfl, rfl⟩
  case h_3 fd hst =>
    obtain rfl := Option.some.inj hs
    refine .onward ?_ fun _ => by split <;> rfl
    rw [hst]
    split <;> exact ⟨rfl, rfl, rfl⟩
  case h_4 caller fd hst =>
    split at hs
    · obtain rfl := Option.some.inj hs
      refine .onward ?_ fun _ => rfl
      rw [hst]
      exact ⟨rfl, rfl, rfl⟩
    · obtain rfl := Option.some.inj hs
      exact .inserted hst
  case h_5 caller fd key hst =>
    split at hs
    · obtain rfl := Option.some.inj hs
      refine .onward ?_ fun _ => rfl
      rw [hst]
      exact ⟨rfl, rfl, rfl⟩
    · obtain rfl := Option.some.inj hs
      cases caller with
      | connect inProgress => cases inProgress <;> exact .added hst rfl rfl rfl rfl
      | bind | accept => exact .added hst rfl rfl rfl rfl
  case h_6 fd key hst =>
    obtain rfl := Option.some.inj hs
    exact .removed (.inl hst)
  case h_7 fd key hst =>
    obtain rfl := Option.some.inj hs
    exact .removed (.inr hst)
  case h_8 kind fd key hst =>
    split at hs
    · rename_i herr
      obtain rfl := Option.some.inj hs
      refine .onward ?_ fun hc => absurd hst (hc herr kind fd key)
      rw [hst]
      exact ⟨rfl, rfl, rfl⟩
    · obtain rfl := Option.some.inj hs
      exact .deleted hst
  case h_9 fd hst =>
    obtain rfl := Option.some.inj hs
    exact .closed hst
  case h_10 kind fd key hst =>
    obtain rfl := Option.some.inj hs
    exact .abandoned hst
  case h_11 => exact absurd hs (by simp)

theorem next_spec {s s' : World W} {a : Label W} (hs : next s a = some s') : StepTo s a s' := by
  cases a with
  | socket i kind fd =>
      simp only [next] at hs
      split at hs
      · rename_i hfree
        obtain rfl := Option.some.inj hs
        cases kind <;> exact .opened hfree.1 hfree.2 rfl rfl rfl fun _ => rfl
      · exact absurd hs (by simp)
  | accept l i fd decodes =>
      simp only [next] at hs
      split at hs
      · split at hs
        · rename_i hfree
          obtain rfl := Option.some.inj hs
          cases decodes with
          | true => exact .opened hfree.1 hfree.2 rfl rfl rfl fun _ => rfl
          | false => exact .opened hfree.1 hfree.2 rfl rfl rfl fun hc => absurd hc (by simp [Clean])
        · exact absurd hs (by simp)
      · exact absurd hs (by simp)
  | go i answer => exact proceed_spec hs
  | poll i waker ok =>
      simp only [next] at hs
      split at hs
      · rename_i fd key polled hst
        obtain rfl := Option.some.inj hs
        refine .moved ?_ ?_ ?_
        · rw [hst]
          cases polled <;> cases ok <;> exact ⟨rfl, rfl, rfl⟩
        · cases polled
          · exact setWaker_owners _ _ _ _
          · exact fun _ => rfl
        · intro _ _
          cases polled <;> cases ok <;> rfl
      · exact absurd hs (by simp)
  | drop i installed =>
      simp only [next] at hs
      split at hs
      · rename_i fd key polled hst
        obtain rfl := Option.some.inj hs
        refine .onward ?_ ?_
        · rw [hst]
          cases installed <;> exact ⟨rfl, rfl, rfl⟩
        · rintro rfl
          rfl
      · rename_i kind fd key hst
        obtain rfl := Option.some.inj hs
        refine .onward ?_ ?_
        · rw [hst]
          cases installed <;> exact ⟨rfl, rfl, rfl⟩
        · rintro rfl
          rfl
      · exact absurd hs (by simp)
  | park i d waker =>
      simp only [next] at hs
      split at hs
      · obtain rfl := Option.some.inj hs
        exact .wakers (setWaker_owners _ _ _ _)
      · exact absurd hs (by simp)
  | dispatch events =>
      obtain rfl := Option.some.inj hs
      exact .wakers (dispatch_owners _ _)

/-- The socket that the step is about. -/
def Label.subject : Label W → Option Nat
  | .socket i _ _ | .accept _ i _ _ | .go i _ | .poll i _ _ | .drop i _ => some i
  | .park _ _ _ | .dispatch _ => none

/-- The others stay where they are. -/
theorem next_objects {s s' : World W} {a : Label W} (hs : next s a = some s') {j : Nat}
    (hj : a.subject ≠ some j) : s'.objects j = s.objects j := by
  have hgoto : ∀ (i : Nat) (st : Stage), some i ≠ some j → (s.goto i st).objects j = s.objects j := by
    intro i st hij
    exact Function.update_of_ne (fun heq => hij (by rw [heq])) _ _
  cases a with
  | socket i kind fd =>
      simp only [next] at hs
      split at hs
      · obtain rfl := Option.some.inj hs
        exact hgoto i _ hj
      · exact absurd hs (by simp)
  | accept l i fd decodes =>
      simp only [next] at hs
      split at hs
      · split at hs
        · obtain rfl := Option.some.inj hs
          exact hgoto i _ hj
        · exact absurd hs (by simp)
      · exact absurd hs (by simp)
  | go i answer =>
      have hp : proceed s i answer = some s' := hs
      unfold proceed at hp
      split at hp
      case h_11 => exact absurd hp (by simp)
      all_goals
        first
          | (obtain rfl := Option.some.inj hp
             exact hgoto i _ hj)
          | (split at hp <;>
              (obtain rfl := Option.some.inj hp
               exact hgoto i _ hj))
  | poll i waker ok =>
      simp only [next] at hs
      split at hs
      · obtain rfl := Option.some.inj hs
        exact hgoto i _ hj
      · exact absurd hs (by simp)
  | drop i installed =>
      simp only [next] at hs
      split at hs
      · obtain rfl := Option.some.inj hs
        exact hgoto i _ hj
      · obtain rfl := Option.some.inj hs
        exact hgoto i _ hj
      · exact absurd hs (by simp)
  | park i d waker =>
      simp only [next] at hs
      split at hs
      · obtain rfl := Option.some.inj hs
        rfl
      · exact absurd hs (by simp)
  | dispatch events =>
      obtain rfl := Option.some.inj hs
      rfl

/-! ## The books -/

theorem Alike.claims {a b : Stage} (h : Alike a b) (i : Nat) :
    holdsFd i b = holdsFd i a ∧ holdsSlot i b = holdsSlot i a ∧ holdsWatch i b = holdsWatch i a := by
  unfold holdsFd holdsSlot holdsWatch
  rw [h.fd, h.key, h.watch]
  exact ⟨rfl, rfl, rfl⟩

theorem ownerAt_same {a b : Slab (Slot W)} (h : SameOwners a b) : ownerAt b = ownerAt a := funext h

/-- A socket in the epoll set has its descriptor and its slot. -/
theorem Stage.of_watch {st : Stage} {kind : Kind} {fd key : Nat}
    (h : st.watch = some (kind, fd, key)) : st.fd = some fd ∧ st.key = some key := by
  cases st with
  | waiting _ _ _ | live _ _ _ | delete _ _ _ | abandon _ _ _ =>
      simp only [watch, Option.some.injEq, Prod.mk.injEq] at h
      obtain ⟨_, rfl, rfl⟩ := h
      exact ⟨rfl, rfl⟩
  | _ => exact absurd h (by simp [watch])

theorem holdsWatch_some {i fd : Nat} {st : Stage} {w : Watch} :
    holdsWatch i st = some (fd, w) ↔ ∃ kind key, st.watch = some (kind, fd, key)
      ∧ w = { source := i, token := key + 1, events := mask kind.interest } := by
  unfold holdsWatch
  constructor
  · intro h
    obtain ⟨⟨kind, fd', key⟩, hw, heq⟩ := Option.map_eq_some_iff.mp h
    obtain ⟨rfl, rfl⟩ := Prod.mk.inj heq
    exact ⟨kind, key, hw, rfl⟩
  · rintro ⟨kind, key, hw, rfl⟩
    rw [hw]
    rfl

/-- No two sockets have the same descriptor. -/
theorem Books.fd_unique {s : World W} (h : Books s) {fd i j : Nat}
    (hi : (s.objects i).fd = some fd) (hj : (s.objects j).fd = some fd) : i = j :=
  h.fds.unique (show holdsFd i _ = some (fd, i) by rw [holdsFd, hi]; rfl)
    (show holdsFd j _ = some (fd, j) by rw [holdsFd, hj]; rfl)

/-- No two sockets have the same slot. -/
theorem Books.key_unique {s : World W} (h : Books s) {key i j : Nat}
    (hi : (s.objects i).key = some key) (hj : (s.objects j).key = some key) : i = j :=
  h.slots.unique (show holdsSlot i _ = some (key, i) by rw [holdsSlot, hi]; rfl)
    (show holdsSlot j _ = some (key, j) by rw [holdsSlot, hj]; rfl)

/-- What is in the epoll set under a descriptor belongs to the socket that has it open. -/
theorem Books.watched {s : World W} (h : Books s) {fd i : Nat} {w : Watch}
    (hw : s.epoll fd = some w) (hi : (s.objects i).fd = some fd) : w.source = i := by
  obtain ⟨kind, key, hwatch, _⟩ := holdsWatch_some.mp (h.epoll.claimed fd w hw)
  exact h.fd_unique (Stage.of_watch hwatch).1 hi

/-- So a descriptor that is about to be added is not in the set. -/
theorem Books.unwatched {s : World W} (h : Books s) {fd i : Nat}
    (hi : (s.objects i).fd = some fd) (hout : (s.objects i).watch = none) :
    s.epoll fd = none := by
  cases hw : s.epoll fd with
  | none => rfl
  | some w =>
      have hclaim := h.epoll.claimed fd w hw
      rw [h.watched hw hi, holdsWatch, hout] at hclaim
      exact absurd hclaim (by simp)

/-- The wakers in the slots do not matter. -/
theorem Books.wakers {s : World W} (h : Books s) {slots : Slab (Slot W)}
    (hslots : SameOwners s.slots slots) : Books { s with slots := slots } := by
  refine ⟨h.fds, h.epoll, ?_⟩
  show Balanced id (ownerAt slots) _
  rw [ownerAt_same hslots]
  exact h.slots

theorem books_step {s s' : World W} {a : Label W} (h : Books s) (hs : next s a = some s') :
    Books s' := by
  cases next_spec hs with
  | @opened i fd st hst hfree hfd hkey hwatch _ =>
      refine ⟨h.fds.take hfree ?_ ?_ rfl, h.epoll.keep ?_, h.slots.keep ?_⟩
      · rw [hst]; rfl
      · rw [holdsFd, hfd]; rfl
      · rw [holdsWatch, hwatch, hst]; rfl
      · rw [holdsSlot, hkey, hst]; rfl
  | @moved i st slots hsame hslots _ =>
      obtain ⟨hfd, hkey, hwatch⟩ := hsame.claims i
      refine ⟨h.fds.keep hfd, h.epoll.keep hwatch, ?_⟩
      show Balanced id (ownerAt slots) _
      rw [ownerAt_same hslots]
      exact h.slots.keep hkey
  | @inserted i fd caller hst =>
      refine ⟨h.fds.keep ?_, h.epoll.keep ?_, ?_⟩
      · rw [hst]; rfl
      · rw [hst]; rfl
      · show Balanced id (ownerAt (s.slots.insert (Slot.new i))) _
        rw [ownerAt_insert]
        refine h.slots.take ?_ ?_ rfl rfl
        · rw [ownerAt, Slab.get_nextKey]; rfl
        · rw [hst]; rfl
  | @added i fd key caller st hst hfd hkey hwatch _ =>
      refine ⟨h.fds.keep ?_, h.epoll.take ?_ ?_ ?_ rfl, h.slots.keep ?_⟩
      · rw [holdsFd, hfd, hst]; rfl
      · exact h.unwatched (by rw [hst]; rfl) (by rw [hst]; rfl)
      · rw [hst]; rfl
      · exact holdsWatch_some.mpr ⟨_, _, hwatch, rfl⟩
      · rw [holdsSlot, hkey, hst]; rfl
  | @removed i fd key hst =>
      have hfd : (s.objects i).fd = some fd := by rcases hst with hst | hst <;> rw [hst] <;> rfl
      have hkey : (s.objects i).key = some key := by rcases hst with hst | hst <;> rw [hst] <;> rfl
      have hwatch : (s.objects i).watch = none := by rcases hst with hst | hst <;> rw [hst] <;> rfl
      refine ⟨h.fds.keep ?_, h.epoll.keep ?_, ?_⟩
      · rw [holdsFd, holdsFd, hfd]; rfl
      · rw [holdsWatch, holdsWatch, hwatch]; rfl
      · show Balanced id (ownerAt (s.slots.remove key)) _
        rw [ownerAt_remove]
        exact h.slots.give (by rw [holdsSlot, hkey]; rfl) rfl
  | @deleted i fd key kind hst =>
      have hwatch : (s.objects i).watch = some (kind, fd, key) := by rw [hst]; rfl
      refine ⟨h.fds.keep ?_, h.epoll.give (holdsWatch_some.mpr ⟨_, _, hwatch, rfl⟩) rfl,
        h.slots.keep ?_⟩
      · rw [hst]; rfl
      · rw [hst]; rfl
  | @closed i fd hst =>
      have hfd : holdsFd i (s.objects i) = some (fd, i) := by rw [hst]; rfl
      refine ⟨h.fds.give hfd rfl, h.epoll.keep ?_, h.slots.keep ?_⟩
      · rw [hst]; rfl
      · rw [hst]; rfl
  | @abandoned i fd key kind hst =>
      have hwatch : (s.objects i).watch = some (kind, fd, key) := by rw [hst]; rfl
      have hfd : holdsFd i (s.objects i) = some (fd, i) := by rw [hst]; rfl
      refine ⟨h.fds.give hfd rfl, h.epoll.give (holdsWatch_some.mpr ⟨_, _, hwatch, rfl⟩) rfl,
        h.slots.keep ?_⟩
      rw [hst]; rfl
  | @wakers slots hslots => exact h.wakers hslots

theorem books_reachable {s : World W} (h : (system W).Reachable s) : Books s :=
  h.invariant (I := Books) (by rintro _ rfl; exact books_start)
    (fun _ _ _ hb hs => books_step hb hs)

/-! ## What the books say -/

theorem Books.fd_iff {s : World W} (h : Books s) (fd i : Nat) :
    s.fds fd = some i ↔ (s.objects i).fd = some fd := by
  constructor
  · intro hfd
    have hclaim : holdsFd i (s.objects i) = some (fd, i) := h.fds.claimed fd i hfd
    obtain ⟨fd', hfd', heq⟩ := Option.map_eq_some_iff.mp hclaim
    rw [hfd', (Prod.mk.inj heq).1]
  · intro hi
    exact (h.fds.entered i fd i (by rw [holdsFd, hi]; rfl)).2

theorem Books.open_iff {s : World W} (h : Books s) (fd : Nat) :
    (s.fds fd).isSome ↔ ∃! i, (s.objects i).fd = some fd := by
  rw [Option.isSome_iff_exists]
  constructor
  · rintro ⟨i, hi⟩
    exact ⟨i, (h.fd_iff fd i).mp hi, fun j hj => h.fd_unique hj ((h.fd_iff fd i).mp hi)⟩
  · rintro ⟨i, hi, _⟩
    exact ⟨i, (h.fd_iff fd i).mpr hi⟩

theorem Books.watch_iff {s : World W} (h : Books s) (fd : Nat) (w : Watch) :
    s.epoll fd = some w ↔ ∃ kind key, (s.objects w.source).watch = some (kind, fd, key)
      ∧ w.token = key + 1 ∧ w.events = mask kind.interest := by
  constructor
  · intro hw
    obtain ⟨kind, key, hwatch, heq⟩ := holdsWatch_some.mp (h.epoll.claimed fd w hw)
    exact ⟨kind, key, hwatch, by rw [heq], by rw [heq]⟩
  · rintro ⟨kind, key, hwatch, htok, hev⟩
    refine (h.epoll.entered w.source fd w (holdsWatch_some.mpr ⟨kind, key, hwatch, ?_⟩)).2
    rw [← htok, ← hev]

theorem Books.owns_iff {s : World W} (h : Books s) (i key : Nat) :
    Owns s.slots i key ↔ (s.objects i).key = some key := by
  constructor
  · intro hown
    have hclaim : holdsSlot i (s.objects i) = some (key, i) := h.slots.claimed key i hown
    obtain ⟨key', hkey, heq⟩ := Option.map_eq_some_iff.mp hclaim
    rw [hkey, (Prod.mk.inj heq).1]
  · intro hkey
    exact (h.slots.entered i key i (by rw [holdsSlot, hkey]; rfl)).2

/-! ## When nothing is left -/

/-- The socket has no step left to take, and nobody has it. -/
def Stage.settled : Stage → Bool
  | .unused | .leaked _ | .closed _ => true
  | _ => false

theorem Stage.settled_fd {st : Stage} (h : st.settled = true) {fd : Nat} :
    st.fd = some fd ↔ st = .leaked fd := by
  cases st with
  | unused | leaked _ | closed _ => simp [Stage.fd]
  | _ => exact absurd h (by simp [settled])

theorem Stage.settled_key {st : Stage} (h : st.settled = true) {key : Nat} :
    st.key = some key ↔ st = .closed (some key) := by
  cases st with
  | unused | leaked _ | closed _ => simp [Stage.key]
  | _ => exact absurd h (by simp [settled])

theorem Stage.settled_watch {st : Stage} (h : st.settled = true) : st.watch = none := by
  cases st with
  | unused | leaked _ | closed _ => rfl
  | _ => exact absurd h (by simp [settled])

/-- What is left when no socket is in use. -/
theorem Books.settled {s : World W} (h : Books s) (hall : ∀ i, (s.objects i).settled = true) :
    (∀ fd, (s.fds fd).isSome ↔ ∃ i, s.objects i = .leaked fd)
    ∧ (∀ fd, s.epoll fd = none)
    ∧ ∀ key, (s.slots.get key).isSome ↔ ∃ i, s.objects i = .closed (some key) := by
  refine ⟨fun fd => ?_, fun fd => ?_, fun key => ?_⟩
  · rw [Option.isSome_iff_exists]
    exact exists_congr fun i => (h.fd_iff fd i).trans (Stage.settled_fd (hall i))
  · cases hw : s.epoll fd with
    | none => rfl
    | some w =>
        obtain ⟨kind, key, hwatch, _⟩ := (h.watch_iff fd w).mp hw
        rw [Stage.settled_watch (hall w.source)] at hwatch
        exact absurd hwatch (by simp)
  · have hget : (s.slots.get key).isSome ↔ ∃ i, Owns s.slots i key := by
      rw [← Option.isSome_map, Option.isSome_iff_exists]
      exact Iff.rfl
    rw [hget]
    exact exists_congr fun i => (h.owns_iff i key).trans (Stage.settled_key (hall i))

theorem stray_step {s s' : World W} {a : Label W} (h : ∀ i, (s.objects i).stray = false)
    (hc : Clean s a) (hs : next s a = some s') : ∀ i, (s'.objects i).stray = false := by
  have hgoto : ∀ (i : Nat) (st : Stage), st.stray = false →
      ∀ j, ((s.goto i st).objects j).stray = false := by
    intro i st hst j
    by_cases hj : j = i
    · subst hj
      simp only [World.goto, Function.update_self]
      exact hst
    · simp only [World.goto, Function.update_of_ne hj]
      exact h j
  cases next_spec hs with
  | opened _ _ _ _ _ hst => exact hgoto _ _ (hst hc)
  | @moved i _ _ _ _ hst => exact hgoto _ _ (hst hc (h i))
  | inserted _ | removed _ | deleted _ | closed _ => exact hgoto _ _ rfl
  | added _ _ _ _ hst => exact hgoto _ _ hst
  | @abandoned i _ _ _ hst =>
      have hi := h i
      rw [hst] at hi
      exact absurd hi (by simp [Stage.stray])
  | wakers _ => exact h

theorem stray_reachable {s : World W} (h : (system W).ReachableVia Clean s) :
    ∀ i, (s.objects i).stray = false :=
  h.invariant (I := fun s => ∀ i, (s.objects i).stray = false) (by rintro _ rfl i; rfl)
    (fun _ _ _ hi hc hs => stray_step hi hc hs)

/--
**Every descriptor, every epoll item and every slot is accounted for.**

In every run of any number of sockets, whatever fails: each open descriptor belongs to
exactly one socket, or to one whose address did not decode; the epoll set holds exactly the
sockets that are registered, each under its own descriptor with the token of its slot and
its interest; and the slots in use are exactly theirs and those left behind. Once no socket
is in use, what is still open is what was leaked, the epoll set is empty, and the slots
still in use are those left behind. If besides all accepted addresses decoded, and all
sockets were dropped where their reactor is installed and deleted, nothing is left at all.
-/
theorem sockets_accounted {s : World W} (h : (system W).Reachable s) :
    (∀ fd, (s.fds fd).isSome ↔ ∃! i, (s.objects i).fd = some fd)
    ∧ (∀ fd w, s.epoll fd = some w ↔ ∃ kind key,
        (s.objects w.source).watch = some (kind, fd, key) ∧ w.token = key + 1
        ∧ w.events = mask kind.interest)
    ∧ (∀ i key, Owns s.slots i key ↔ (s.objects i).key = some key)
    ∧ ((∀ i, (s.objects i).settled = true) →
        (∀ fd, (s.fds fd).isSome ↔ ∃ i, s.objects i = .leaked fd)
        ∧ (∀ fd, s.epoll fd = none)
        ∧ (∀ key, (s.slots.get key).isSome ↔ ∃ i, s.objects i = .closed (some key))
        ∧ ((system W).ReachableVia Clean s →
            (∀ fd, s.fds fd = none) ∧ ∀ key, s.slots.get key = none)) := by
  have hb := books_reachable h
  refine ⟨hb.open_iff, hb.watch_iff, hb.owns_iff, fun hall => ?_⟩
  obtain ⟨hfds, hepoll, hslots⟩ := hb.settled hall
  refine ⟨hfds, hepoll, hslots, fun hclean => ⟨fun fd => ?_, fun key => ?_⟩⟩
  · rw [← Option.not_isSome_iff_eq_none, hfds]
    rintro ⟨i, hi⟩
    have hstray := stray_reachable hclean i
    rw [hi] at hstray
    exact absurd hstray (by simp [Stage.stray])
  · rw [← Option.not_isSome_iff_eq_none, hslots]
    rintro ⟨i, hi⟩
    have hstray := stray_reachable hclean i
    rw [hi] at hstray
    exact absurd hstray (by simp [Stage.stray])

/-- A listener is bound; a connection arrives from a family that is not known, and one from
one that is; both ends are dropped, the stream where no reactor is installed. -/
def oneLeak : List (Label Nat) :=
  [.socket 0 .listener 5, .go 0 .ok, .go 0 .ok, .go 0 .ok, .go 0 .ok, .accept 0 1 6 false,
    .accept 0 2 7 true, .go 2 .ok, .go 2 .ok, .drop 0 true, .go 0 .ok, .go 0 .ok, .go 0 .ok,
    .drop 2 false, .go 2 .ok]

theorem sockets_accounted_oneLeak :
    ∃ s, (system Nat).Reachable s
      ∧ (s.objects 0 = .closed none ∧ s.objects 1 = .leaked 6 ∧ s.objects 2 = .closed (some 1))
      ∧ ((s.fds 6).isSome ↔ ∃! i, (s.objects i).fd = some 6)
      ∧ (Owns s.slots 2 1 ↔ (s.objects 2).key = some 1) := by
  have hreach : (system Nat).Reachable ((system Nat).exec start oneLeak) :=
    System.Reachable.exec (.init rfl)
  obtain ⟨hopen, _, hslots, _⟩ := sockets_accounted hreach
  exact ⟨_, hreach, by decide +kernel, hopen 6, hslots 2 1⟩

end Sockets

end Nanorun.Net
