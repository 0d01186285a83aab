import Mathlib.Logic.Function.Basic
import Nanorun.Lib.Transition
import Nanorun.Reactor.Backend

/-!
# Tokens of several reactors

Every runtime has a reactor of its own, and a worker thread installs the reactor of
its runtime. A socket keeps a bare token and hands it to whatever reactor the thread
has: where it is polled for `ReadyFor`, where it is dropped. Keys are counted from
zero in every slab, so a socket that has moved to another runtime finds a slot under
its token there, of another socket.

`sockets` remembers, beside the token's key, the reactor that issued it. The code
does not, except that the kernel knows which epoll set a descriptor is in.
-/

namespace Nanorun.Reactor

open Transition

namespace Tokens

variable {W R : Type} {B : Backend W}

structure World (B : Backend W) (R : Type) where
  reactors : R → B.State
  /-- The reactor a socket is registered with, and the key of its token. -/
  sockets : Nat → Option (R × Nat)
  nextSocket : Nat

inductive Label (W R : Type) (T : Type) where
  /-- A socket is made on a worker of `r`. -/
  | register (r : R)
  /-- `ReadyFor` is polled first on a worker of `r`. -/
  | wait (socket : Nat) (r : R) (d : Direction) (waker : W)
  /-- The socket is dropped on a thread with this reactor installed, if any; `answer` is
  whether the system call succeeds where it can. -/
  | drop (socket : Nat) (current : Option R) (answer : Bool)
  | dispatch (r : R) (turn : T)
  deriving DecidableEq, Repr

def start (B : Backend W) (R : Type) : World B R where
  reactors _ := B.new
  sockets _ := none
  nextSocket := 0

/-! ## Sockets with their slots -/

/-- A socket has its slot, and it is not closed. -/
structure HomeInv (w : World B R) : Prop where
  /-- Its slot is in the reactor where it was made. -/
  slot : ∀ i home key, w.sockets i = some (home, key) →
    ∃ slot, B.get (w.reactors home) key = some slot ∧ B.owner slot = i ∧ B.closed slot = false
  fresh : ∀ i, w.nextSocket ≤ i → w.sockets i = none

theorem homeInv_start : HomeInv (start B R) where
  slot := by intro i home key h; exact absurd h (by simp [start])
  fresh := by intro i _; rfl

/-- What a socket finds under its token where it was made is its own slot. -/
theorem HomeInv.own_of_get {w : World B R} (h : HomeInv w) {i : Nat} {home : R} {key : Nat}
    {slot : B.Slot} (hi : w.sockets i = some (home, key))
    (hslot : B.get (w.reactors home) key = some slot) : B.owner slot = i := by
  obtain ⟨slot', hslot', hown, _⟩ := h.slot i home key hi
  obtain rfl := Option.some.inj (hslot.symm.trans hslot')
  exact hown

/-- Two sockets have two slots. -/
theorem HomeInv.key_unique {w : World B R} (h : HomeInv w) {i j : Nat} {home : R} {key : Nat}
    (hi : w.sockets i = some (home, key)) (hj : w.sockets j = some (home, key)) : i = j := by
  obtain ⟨slot, hslot, hown, _⟩ := h.slot i home key hi
  exact hown.symm.trans (h.own_of_get hj hslot)

/-- A socket is gone. -/
theorem HomeInv.forget {w : World B R} (h : HomeInv w) (i : Nat) :
    HomeInv { w with sockets := Function.update w.sockets i none } := by
  refine ⟨?_, ?_⟩
  · intro j home key hj
    by_cases hji : j = i
    · subst hji
      simp only [Function.update_self] at hj
      exact absurd hj (by simp)
    · simp only [Function.update_of_ne hji] at hj
      exact h.slot j home key hj
  · intro j hj
    by_cases hji : j = i
    · rw [hji]
      exact Function.update_self i none w.sockets
    · simp only [Function.update_of_ne hji]
      exact h.fresh j hj

/-! ## The system -/

section Step

variable [DecidableEq R]

def next (w : World B R) : Label W R B.Turn → Option (World B R)
  | .register r =>
      let s := w.reactors r
      some
        { reactors := Function.update w.reactors r (B.register s w.nextSocket)
          sockets := Function.update w.sockets w.nextSocket (some (r, B.nextKey s))
          nextSocket := w.nextSocket + 1 }
  | .wait i r d waker =>
      match w.sockets i with
      | some (_, key) =>
          some { w with
            reactors := Function.update w.reactors r (B.setWaker (w.reactors r) (key + 1) d waker) }
      | none => none
  | .drop i current answer =>
      match w.sockets i with
      | some (home, key) =>
          -- the kernel has the descriptor only in the epoll set it was added to
          let w := { w with sockets := Function.update w.sockets i none }
          match current with
          | none => some w
          | some r =>
              some { w with
                reactors := Function.update w.reactors r
                  (B.deregister (w.reactors r) (key + 1) (answer && decide (home = r))) }
      | none => none
  | .dispatch r turn =>
      some { w with reactors := Function.update w.reactors r (B.dispatch (w.reactors r) turn) }

def system (B : Backend W) (R : Type) [DecidableEq R] : System (World B R) (Label W R B.Turn) where
  init w := w = start B R
  step := next

/-- An operation on the socket `j`, or the dispatch of `r`. -/
def Concerns (r : R) (j : Nat) : Label W R B.Turn → Prop
  | .register _ => False
  | .wait i _ _ _ => i = j
  | .drop i _ _ => i = j
  | .dispatch r' _ => r' = r

/-- The slots of a socket change only by operations on it and by their reactor's dispatch. -/
def Lawful (w : World B R) (a : Label W R B.Turn) (w' : World B R) : Prop :=
  ∀ r key slot, B.get (w.reactors r) key = some slot → ¬ Concerns r (B.owner slot) a →
    B.get (w'.reactors r) key = some slot

/-- The token stands for another socket's slot in that reactor, and the operation is not one
that the slot or the kernel turns away. -/
def Collides (w : World B R) : Label W R B.Turn → Prop
  | .wait i r d waker => ∃ home key slot, w.sockets i = some (home, key)
      ∧ B.get (w.reactors r) key = some slot ∧ B.owner slot ≠ i ∧ B.overwrites slot d waker
  | .drop i (some r) answer => ∃ home key slot, w.sockets i = some (home, key)
      ∧ B.get (w.reactors r) key = some slot ∧ B.owner slot ≠ i
      ∧ B.closes slot (answer && decide (home = r))
  | _ => False

/-- Sockets stay on the runtime they were made on, or are dropped where none is installed, and
no turn frees a slot that is in use. -/
def AtHome (w : World B R) : Label W R B.Turn → Prop
  | .wait i r _ _ => ∀ home key, w.sockets i = some (home, key) → home = r
  | .drop i (some r) _ => ∀ home key, w.sockets i = some (home, key) → home = r
  | .dispatch _ turn => ¬ B.orphans turn
  | _ => True

/-! ## What a step can do -/

inductive StepTo (w : World B R) : Label W R B.Turn → World B R → Prop where
  | register {r : R} :
      StepTo w (.register r)
        { reactors := Function.update w.reactors r (B.register (w.reactors r) w.nextSocket)
          sockets := Function.update w.sockets w.nextSocket (some (r, B.nextKey (w.reactors r)))
          nextSocket := w.nextSocket + 1 }
  | wait {i key : Nat} {home r : R} {d : Direction} {waker : W} :
      w.sockets i = some (home, key) →
      StepTo w (.wait i r d waker)
        { w with
          reactors := Function.update w.reactors r (B.setWaker (w.reactors r) (key + 1) d waker) }
  /-- Dropped where no reactor is installed. -/
  | close {i key : Nat} {home : R} {answer : Bool} : w.sockets i = some (home, key) →
      StepTo w (.drop i none answer) { w with sockets := Function.update w.sockets i none }
  | drop {i key : Nat} {home r : R} {answer : Bool} : w.sockets i = some (home, key) →
      StepTo w (.drop i (some r) answer)
        { w with
          sockets := Function.update w.sockets i none
          reactors := Function.update w.reactors r
            (B.deregister (w.reactors r) (key + 1) (answer && decide (home = r))) }
  | dispatch {r : R} {turn : B.Turn} :
      StepTo w (.dispatch r turn)
        { w with reactors := Function.update w.reactors r (B.dispatch (w.reactors r) turn) }

theorem next_spec {w w' : World B R} {a : Label W R B.Turn} (hs : next w a = some w') :
    StepTo w a w' := by
  cases a with
  | register r =>
      obtain rfl := Option.some.inj hs
      exact .register
  | wait i r d waker =>
      simp only [next] at hs
      split at hs
      · rename_i home key hi
        obtain rfl := Option.some.inj hs
        exact .wait hi
      · exact absurd hs (by simp)
  | drop i current answer =>
      simp only [next] at hs
      split at hs
      · rename_i home key hi
        cases current with
        | none =>
            obtain rfl := Option.some.inj hs
            exact .close hi
        | some r =>
            obtain rfl := Option.some.inj hs
            exact .drop hi
      · exact absurd hs (by simp)
  | dispatch r turn =>
      obtain rfl := Option.some.inj hs
      exact .dispatch

/-! ## One step -/

theorem lawful_of_free {w w' : World B R} {a : Label W R B.Turn} (hs : next w a = some w')
    (hfree : ¬ Collides w a) : Lawful w a w' := by
  intro r key slot hslot hconc
  cases next_spec hs with
  | @register r' =>
      by_cases hr : r = r'
      · subst hr
        -- a new socket gets a vacant slot
        have hne : key ≠ B.nextKey (w.reactors r) := by
          rintro rfl
          rw [B.get_nextKey] at hslot
          exact absurd hslot (by simp)
        simp only [Function.update_self]
        rw [B.get_register, if_neg hne]
        exact hslot
      · simp only [Function.update_of_ne hr]
        exact hslot
  | @wait i k home r' d waker hi =>
      by_cases hr : r = r'
      · subst hr
        simp only [Function.update_self]
        by_cases hk : key = k
        · subst hk
          obtain ⟨slot', hslot', _, _, hsame⟩ := B.setWaker_slot _ key d waker slot hslot
          -- the slot is another socket's, so writing to it would be a collision
          have hno : ¬ B.overwrites slot d waker := by
            intro hover
            exact hfree ⟨home, key, slot, hi, hslot, fun heq => hconc heq.symm, hover⟩
          rw [hslot', hsame.mpr hno]
        · rw [B.setWaker_other _ k key d waker hk]
          exact hslot
      · simp only [Function.update_of_ne hr]
        exact hslot
  | close => exact hslot
  | @drop i k home r' answer hi =>
      by_cases hr : r = r'
      · subst hr
        simp only [Function.update_self]
        by_cases hk : key = k
        · subst hk
          refine (B.deregister_slot _ key _ slot hslot).mpr ?_
          intro hcl
          exact hfree ⟨home, key, slot, hi, hslot, fun heq => hconc heq.symm, hcl⟩
        · rw [B.deregister_other _ k key _ hk]
          exact hslot
      · simp only [Function.update_of_ne hr]
        exact hslot
  | @dispatch r' turn =>
      have hr : r ≠ r' := fun heq => hconc heq.symm
      simp only [Function.update_of_ne hr]
      exact hslot

/-- A collision changes a slot of another socket. -/
theorem unlawful_of_collision {w w' : World B R} {a : Label W R B.Turn} (hs : next w a = some w')
    (hcol : Collides w a) : ¬ Lawful w a w' := by
  intro hlaw
  cases a with
  | register r => exact hcol
  | dispatch r turn => exact hcol
  | wait i r d waker =>
      obtain ⟨home, key, slot, hi, hslot, hown, hover⟩ := hcol
      simp only [next, hi] at hs
      obtain rfl := Option.some.inj hs
      have hkept := hlaw r key slot hslot (fun heq => hown heq.symm)
      simp only [Function.update_self] at hkept
      obtain ⟨slot', hslot', _, _, hsame⟩ := B.setWaker_slot _ key d waker slot hslot
      exact hsame.mp (Option.some.inj (hslot'.symm.trans hkept)) hover
  | drop i current answer =>
      cases current with
      | none => exact hcol
      | some r =>
          obtain ⟨home, key, slot, hi, hslot, hown, hcl⟩ := hcol
          simp only [next, hi] at hs
          obtain rfl := Option.some.inj hs
          have hkept := hlaw r key slot hslot (fun heq => hown heq.symm)
          simp only [Function.update_self] at hkept
          exact (B.deregister_slot _ key _ slot hslot).mp hkept hcl

/-! ## Runs at home -/

theorem HomeInv.free {w : World B R} {a : Label W R B.Turn} (h : HomeInv w) (hhome : AtHome w a) :
    ¬ Collides w a := by
  intro hcol
  cases a with
  | register r => exact hcol
  | dispatch r turn => exact hcol
  | wait i r d waker =>
      obtain ⟨home, key, slot, hi, hslot, hown, _⟩ := hcol
      obtain rfl := hhome home key hi
      exact hown (h.own_of_get hi hslot)
  | drop i current answer =>
      cases current with
      | none => exact hcol
      | some r =>
          obtain ⟨home, key, slot, hi, hslot, hown, _⟩ := hcol
          obtain rfl := hhome home key hi
          exact hown (h.own_of_get hi hslot)

/-- One reactor moves on and keeps the slots of its sockets. -/
theorem HomeInv.reactor {w : World B R} (h : HomeInv w) (r : R) {s : B.State}
    (hkeep : ∀ i key slot, w.sockets i = some (r, key) → B.get (w.reactors r) key = some slot →
      B.owner slot = i → B.closed slot = false →
      ∃ slot', B.get s key = some slot' ∧ B.owner slot' = i ∧ B.closed slot' = false) :
    HomeInv { w with reactors := Function.update w.reactors r s } := by
  refine ⟨?_, h.fresh⟩
  intro i home key hi
  obtain ⟨slot, hslot, hown, hopen⟩ := h.slot i home key hi
  by_cases hr : home = r
  · subst hr
    simp only [Function.update_self]
    exact hkeep i key slot hi hslot hown hopen
  · simp only [Function.update_of_ne hr]
    exact ⟨slot, hslot, hown, hopen⟩

theorem HomeInv.registered {w : World B R} (h : HomeInv w) (r : R) :
    HomeInv
      { reactors := Function.update w.reactors r (B.register (w.reactors r) w.nextSocket)
        sockets := Function.update w.sockets w.nextSocket (some (r, B.nextKey (w.reactors r)))
        nextSocket := w.nextSocket + 1 } := by
  refine ⟨?_, ?_⟩
  · intro i home key hi
    by_cases hnew : i = w.nextSocket
    · subst hnew
      simp only [Function.update_self, Option.some.injEq, Prod.mk.injEq] at hi
      obtain ⟨rfl, rfl⟩ := hi
      simp only [Function.update_self]
      exact B.registered (w.reactors r) w.nextSocket
    · simp only [Function.update_of_ne hnew] at hi
      obtain ⟨slot, hslot, hrest⟩ := h.slot i home key hi
      refine ⟨slot, ?_, hrest⟩
      by_cases hr : home = r
      · subst hr
        simp only [Function.update_self]
        rw [B.get_register, if_neg]
        · exact hslot
        · rintro rfl
          rw [B.get_nextKey] at hslot
          exact absurd hslot (by simp)
      · simp only [Function.update_of_ne hr]
        exact hslot
  · intro i hi
    have hi' : w.nextSocket + 1 ≤ i := hi
    have hne : i ≠ w.nextSocket := by omega
    simp only [Function.update_of_ne hne]
    exact h.fresh i (by omega)

theorem homeInv_step {w w' : World B R} {a : Label W R B.Turn} (h : HomeInv w) (hhome : AtHome w a)
    (hs : next w a = some w') : HomeInv w' := by
  cases next_spec hs with
  | @register r => exact h.registered r
  | @wait i k home r d waker hi =>
      refine h.reactor r ?_
      intro j key slot _ hslot hown hopen
      by_cases hk : key = k
      · subst hk
        obtain ⟨slot', hslot', hown', hclosed', _⟩ := B.setWaker_slot _ key d waker slot hslot
        exact ⟨slot', hslot', hown'.trans hown, hclosed'.trans hopen⟩
      · exact ⟨slot, (B.setWaker_other _ k key d waker hk).trans hslot, hown, hopen⟩
  | @close i _ _ _ _ => exact h.forget i
  | @drop i k home r answer hi =>
      refine (h.forget i).reactor r ?_
      intro j key slot hj hslot hown hopen
      -- the dropped socket was at home here, so its key is no other socket's
      obtain rfl := hhome home k hi
      have hji : j ≠ i := by
        rintro rfl
        simp only [Function.update_self] at hj
        exact absurd hj (by simp)
      simp only [Function.update_of_ne hji] at hj
      have hk : key ≠ k := by
        rintro rfl
        exact hji (h.key_unique hj hi)
      exact ⟨slot, (B.deregister_other _ k key _ hk).trans hslot, hown, hopen⟩
  | @dispatch r turn =>
      refine h.reactor r ?_
      intro j key slot _ hslot hown hopen
      obtain ⟨slot', hslot', hown', hopen'⟩ := B.dispatch_keeps _ turn key slot hslot hopen hhome
      exact ⟨slot', hslot', hown'.trans hown, hopen'⟩

theorem homeInv_reachable {w : World B R} (h : (system B R).ReachableVia AtHome w) : HomeInv w :=
  h.invariant (I := HomeInv) (by rintro _ rfl; exact homeInv_start)
    (fun _ _ _ hi hhome hs => homeInv_step hi hhome hs)

theorem lawful_iff (B : Backend W) {w w' : World B R} {a : Label W R B.Turn}
    (hs : (system B R).step w a = some w') : Lawful w a w' ↔ ¬ Collides w a :=
  ⟨fun hlaw hcol => unlawful_of_collision hs hcol hlaw, lawful_of_free hs⟩

theorem lawful_at_home (B : Backend W) {w w' : World B R} {a : Label W R B.Turn}
    (h : (system B R).ReachableVia AtHome w) (hhome : AtHome w a)
    (hs : (system B R).step w a = some w') : Lawful w a w' :=
  lawful_of_free hs ((homeInv_reachable h).free hhome)

/--
**The slots of a socket are changed by operations on it and by its reactor's dispatch only,
as long as tokens do not collide.**

On either backend, a step keeps the rule exactly when it does not take a token to
another socket's slot in the thread's reactor, or when that slot or the kernel turns
it away. In every run in which sockets are polled and dropped on the runtime they
were made on, or dropped where none is installed, and every re-submission is
accepted, every step keeps it.
-/
theorem tokens_stay_home :
    ((∀ (w w' : World (linux W) R) a, (system (linux W) R).step w a = some w' →
        (Lawful w a w' ↔ ¬ Collides w a))
      ∧ ∀ (w w' : World (windows W) R) a, (system (windows W) R).step w a = some w' →
          (Lawful w a w' ↔ ¬ Collides w a))
    ∧ (∀ (w w' : World (linux W) R) a, (system (linux W) R).ReachableVia AtHome w → AtHome w a →
        (system (linux W) R).step w a = some w' → Lawful w a w')
    ∧ ∀ (w w' : World (windows W) R) a, (system (windows W) R).ReachableVia AtHome w → AtHome w a →
        (system (windows W) R).step w a = some w' → Lawful w a w' :=
  ⟨⟨fun _ _ _ hs => lawful_iff (linux W) hs, fun _ _ _ hs => lawful_iff (windows W) hs⟩,
    fun _ _ _ h hhome hs => lawful_at_home (linux W) h hhome hs,
    fun _ _ _ h hhome hs => lawful_at_home (windows W) h hhome hs⟩

end Step

/-- A socket on each of two runtimes, both under key 0, and the second one waits. -/
def oneEach (B : Backend Nat) : World B Bool :=
  (system B Bool).exec (start B Bool) [.register false, .register true, .wait 1 true .read 8]

theorem oneEach_at_home (B : Backend Nat) : (system B Bool).ReachableVia AtHome (oneEach B) := by
  refine .tail (a := .wait 1 true .read 8) (.tail (a := .register true)
    (.tail (a := .register false) (.init rfl) trivial rfl) trivial rfl) ?_ rfl
  intro home key h
  cases h
  rfl

/-- The first socket waits at home. -/
theorem tokens_stay_home_oneEach :
    (∀ w', (system (linux Nat) Bool).step (oneEach (linux Nat)) (.wait 0 false .read 7) = some w' →
      Lawful (oneEach (linux Nat)) (.wait 0 false .read 7) w')
    ∧ ∀ w', (system (windows Nat) Bool).step (oneEach (windows Nat)) (.wait 0 false .read 7) = some w' →
      Lawful (oneEach (windows Nat)) (.wait 0 false .read 7) w' := by
  refine ⟨fun w' hs => tokens_stay_home.2.1 _ w' _ (oneEach_at_home (linux Nat)) ?_ hs,
    fun w' hs => tokens_stay_home.2.2 _ w' _ (oneEach_at_home (windows Nat)) ?_ hs⟩
  · intro home key h
    cases h
    rfl
  · intro home key h
    cases h
    rfl

/-- On Linux the first socket, polled on the other runtime, takes the second one's place; on
Windows it cancels the second one when it is dropped there. -/
theorem tokens_collide :
    (∃ w w', (system (linux Nat) Bool).Reachable w
      ∧ (system (linux Nat) Bool).step w (.wait 0 true .read 7) = some w'
      ∧ ¬ Lawful w (.wait 0 true .read 7) w')
    ∧ ∃ w w', (system (windows Nat) Bool).Reachable w
      ∧ (system (windows Nat) Bool).step w (.drop 0 (some true) true) = some w'
      ∧ ¬ Lawful w (.drop 0 (some true) true) w' := by
  refine ⟨⟨_, _, (oneEach_at_home (linux Nat)).reachable, rfl, ?_⟩,
    ⟨_, _, (oneEach_at_home (windows Nat)).reachable, rfl, ?_⟩⟩
  · let slot : Slot Nat := { read := some 8, write := none, owner := 1 }
    have hover : slot.waker .read ≠ some 7 := by decide
    exact unlawful_of_collision rfl ⟨false, 0, slot, rfl, rfl, by decide, hover⟩
  · let slot : Windows.Slot Nat :=
      { read := some 8, write := none, windows := some 1, cancelled := false, owner := 1 }
    exact unlawful_of_collision rfl ⟨false, 0, slot, rfl, rfl, by decide, .inl rfl⟩

end Tokens

end Nanorun.Reactor
