import Mathlib.Data.Fintype.Basic
import Nanorun.Executor.Steps
import Nanorun.Lib.Measure
import Nanorun.Lib.Simulation

/-!
# The reactor's own wake, on three platforms

`ReactorHandle::wake` writes to an eventfd on Linux, posts to the completion port on
Windows, and sets a `bool` under a condition variable elsewhere. What the executor goes
by is simpler: a flag that a wake sets and that a `Reactor::poll` clears when it returns
because of it.

Each backend is a step system of its own, with any number of threads inside
`Inner::poll` and inside `Inner::wake`, and each comes with a simulation by the flag and
with the other half: where no thread can go on by itself, nobody is inside
`Inner::poll` while the flag is set. The eventfd counts its wakes and saturates, the
port keeps one entry for each and hands out 64 at most, and the condition variable has a
moment between the store and `notify_one`.
-/

namespace Nanorun.Reactor.SelfWake

open Function Transition

variable {m : Nat}

/-! ## The flag -/

/-- A wake is pending; and who is inside `Inner::poll`. -/
structure Flag (m : Nat) where
  pending : Bool
  polling : Fin m → Bool
  deriving DecidableEq

inductive FlagAct (m : Nat) where
  | wake
  | enter (p : Fin m)
  /-- `poll` returns because of a wake, or for another reason. -/
  | woken (p : Fin m)
  | otherwise (p : Fin m)
  deriving DecidableEq, Repr

namespace Flag

def leave (f : Flag m) (p : Fin m) : Flag m := { f with polling := update f.polling p false }

def step (f : Flag m) : FlagAct m → Option (Flag m)
  | .wake => some { f with pending := true }
  | .enter p => if f.polling p then none else some { f with polling := update f.polling p true }
  | .woken p => if f.polling p && f.pending then some { f.leave p with pending := false } else none
  | .otherwise p => if f.polling p then some (f.leave p) else none

end Flag

def flag (m : Nat) : System (Flag m) (FlagAct m) where
  init f := f = { pending := false, polling := fun _ => false }
  step := Flag.step

theorem flag_wake (f : Flag m) : (flag m).run f [.wake] = some { f with pending := true } := by
  rw [System.run_singleton]
  rfl

theorem flag_enter {f : Flag m} {p : Fin m} (h : f.polling p = false) :
    (flag m).run f [.enter p] = some { f with polling := update f.polling p true } := by
  simp [flag, Flag.step, h]

theorem flag_woken {f : Flag m} {p : Fin m} (h : f.polling p = true) (hf : f.pending = true) :
    (flag m).run f [.woken p] = some { f.leave p with pending := false } := by
  simp [flag, Flag.step, h, hf]

theorem flag_otherwise {f : Flag m} {p : Fin m} (h : f.polling p = true) :
    (flag m).run f [.otherwise p] = some (f.leave p) := by
  simp [flag, Flag.step, h]

/-- A return that leaves nothing pending. -/
theorem flag_return {f : Flag m} {p : Fin m} (h : f.polling p = true) :
    (flag m).run f [if f.pending then .woken p else .otherwise p]
      = some { f.leave p with pending := false } := by
  cases hf : f.pending with
  | true =>
      rw [if_pos rfl]
      exact flag_woken h hf
  | false =>
      rw [if_neg (by simp), flag_otherwise h, Flag.leave, hf]

/-- A backend, and the flag in it. -/
structure Backend (m : Nat) where
  State : Type
  Act : Type
  system : System State Act
  /-- A step that no event, no time-out and no spurious return has to bring about. -/
  own : State → Act → Prop
  sim : Simulation system (flag m)
  awake : ∀ s, sim.inv s → system.Stuck own s → (sim.abs s).pending = true →
    ∀ p, (sim.abs s).polling p = false

/-! ## Linux -/

/-- Where a thread stands in `Inner::poll`. -/
inductive EpollPc where
  | out
  /-- Inside `epoll::wait`. -/
  | waiting
  /-- Before `eventfd::drain`. -/
  | draining
  deriving DecidableEq, Repr

def EpollPc.inside : EpollPc → Bool
  | .out => false
  | _ => true

/-- The eventfd's counter and the threads. -/
structure Epoll (m : Nat) where
  counter : UInt64
  pollers : Fin m → EpollPc
  deriving DecidableEq

inductive EpollAct (m : Nat) where
  /-- `Inner::wake` -/
  | write
  | enter (p : Fin m)
  /-- `epoll::wait` returns with the eventfd among the events, or without it. -/
  | ready (p : Fin m)
  | without (p : Fin m)
  | drain (p : Fin m)
  deriving DecidableEq, Repr

/-- The largest value an eventfd holds. -/
def counterMax : UInt64 := 0xfffffffffffffffe

theorem zero_le_counterMax : (0 : UInt64) ≤ counterMax := by decide

/-- `eventfd::write`: `EAGAIN` on a full counter counts as written. -/
def eventfdWrite (counter : UInt64) : UInt64 := if counter = counterMax then counter else counter + 1

def Epoll.goto (s : Epoll m) (p : Fin m) (pc : EpollPc) : Epoll m :=
  { s with pollers := update s.pollers p pc }

def Epoll.step (s : Epoll m) : EpollAct m → Option (Epoll m)
  | .write => some { s with counter := eventfdWrite s.counter }
  | .enter p => if s.pollers p = .out then some (s.goto p .waiting) else none
  | .ready p =>
      if s.pollers p = .waiting ∧ s.counter ≠ 0 then some (s.goto p .draining) else none
  | .without p => if s.pollers p = .waiting then some (s.goto p .out) else none
  -- `EAGAIN` on an empty counter counts as drained
  | .drain p => if s.pollers p = .draining then some { s.goto p .out with counter := 0 } else none

def epoll (m : Nat) : System (Epoll m) (EpollAct m) where
  init s := s = { counter := 0, pollers := fun _ => .out }
  step := Epoll.step

def Epoll.flag (s : Epoll m) : Flag m where
  pending := decide (s.counter ≠ 0)
  polling p := (s.pollers p).inside

def Epoll.shows (s : Epoll m) : EpollAct m → List (FlagAct m)
  | .write => [.wake]
  | .enter p => [.enter p]
  | .ready _ => []
  | .without p => [.otherwise p]
  | .drain p => [if s.flag.pending then .woken p else .otherwise p]

/-- A write leaves something to read, also on a full counter. -/
theorem eventfdWrite_ne_zero {counter : UInt64} (h : counter ≤ counterMax) :
    eventfdWrite counter ≠ 0 ∧ eventfdWrite counter ≤ counterMax := by
  unfold eventfdWrite
  split
  · rename_i hc
    subst hc
    exact ⟨by decide, by decide⟩
  · rename_i hc
    rw [UInt64.le_iff_toNat_le] at h
    rw [UInt64.le_iff_toNat_le, Ne, ← UInt64.toNat_inj]
    rw [← UInt64.toNat_inj] at hc
    have hmax : counterMax.toNat = 0xfffffffffffffffe := by decide
    have hadd : (counter + 1).toNat = counter.toNat + 1 := by
      rw [UInt64.toNat_add]
      simp only [UInt64.toNat_one]
      omega
    have hzero : (0 : UInt64).toNat = 0 := rfl
    omega

theorem Epoll.flag_goto (s : Epoll m) (p : Fin m) (pc : EpollPc) :
    (s.goto p pc).flag = { s.flag with polling := update s.flag.polling p pc.inside } := by
  have hpoll : (s.goto p pc).flag.polling = update s.flag.polling p pc.inside := by
    funext q
    by_cases hq : q = p
    · subst hq
      simp [Epoll.flag, Epoll.goto]
    · simp [Epoll.flag, Epoll.goto, hq]
  rw [← hpoll]
  rfl

theorem epoll_step {s s' : Epoll m} {a : EpollAct m} (hi : s.counter ≤ counterMax)
    (hs : s.step a = some s') :
    s'.counter ≤ counterMax ∧ (SelfWake.flag m).run s.flag (s.shows a) = some s'.flag := by
  cases a with
  | write =>
      cases hs
      obtain ⟨hne, hle⟩ := eventfdWrite_ne_zero hi
      refine ⟨hle, (flag_wake _).trans ?_⟩
      simp [Epoll.flag, hne]
  | enter p =>
      rw [Epoll.step] at hs
      split at hs <;> cases hs
      rename_i hp
      refine ⟨hi, ?_⟩
      rw [Epoll.flag_goto]
      exact flag_enter (by simp [Epoll.flag, hp, EpollPc.inside])
  | ready p =>
      rw [Epoll.step] at hs
      split at hs <;> cases hs
      rename_i hp
      have hin : s.flag.polling p = EpollPc.draining.inside := by
        simp [Epoll.flag, hp.1, EpollPc.inside]
      refine ⟨hi, ?_⟩
      rw [Epoll.flag_goto, ← hin, update_eq_self]
      rfl
  | without p =>
      rw [Epoll.step] at hs
      split at hs <;> cases hs
      rename_i hp
      refine ⟨hi, ?_⟩
      rw [Epoll.flag_goto]
      exact flag_otherwise (by simp [Epoll.flag, hp, EpollPc.inside])
  | drain p =>
      rw [Epoll.step] at hs
      split at hs <;> cases hs
      rename_i hp
      refine ⟨zero_le_counterMax, ?_⟩
      have hflag : Epoll.flag { s.goto p .out with counter := 0 }
          = { s.flag.leave p with pending := false } := by
        have h := congrArg Flag.polling (s.flag_goto p .out)
        exact congrArg (Flag.mk false) h
      rw [hflag]
      exact flag_return (by simp [Epoll.flag, hp, EpollPc.inside])

/-- `epoll::wait` returns for the eventfd, and `poll` goes on to drain it. -/
def Epoll.own : EpollAct m → Prop
  | .ready _ | .drain _ => True
  | _ => False

def linux (m : Nat) : Backend m where
  State := Epoll m
  Act := EpollAct m
  system := epoll m
  own _ a := Epoll.own a
  sim :=
    { inv := fun s => s.counter ≤ counterMax
      abs := Epoll.flag
      shows := Epoll.shows
      init := by
        intro s hs
        cases hs
        exact ⟨zero_le_counterMax, rfl⟩
      step := fun _ _ _ => epoll_step }
  awake := by
    intro s _ hstuck hpend p
    have hc : s.counter ≠ 0 := by simpa [Epoll.flag] using hpend
    have hready := hstuck (.ready p) trivial
    have hdrain := hstuck (.drain p) trivial
    simp only [epoll, Epoll.step] at hready hdrain
    cases hp : s.pollers p with
    | out => simp [Epoll.flag, hp, EpollPc.inside]
    | waiting => rw [if_pos ⟨hp, hc⟩] at hready; exact absurd hready (by simp)
    | draining => rw [if_pos hp] at hdrain; exact absurd hdrain (by simp)

/-! ## Windows -/

/-- `iocp::Entry`: the null pointer of a `wake`, or an `IoStatusBlock`. -/
inductive PortEntry where
  | selfWake
  | completion
  deriving DecidableEq, Repr

/-- The completion port and the threads. -/
structure Port (m : Nat) where
  queue : List PortEntry
  polling : Fin m → Bool
  deriving DecidableEq

inductive PortAct (m : Nat) where
  /-- `Inner::wake` -/
  | post
  /-- A readiness request completes. -/
  | complete
  | enter (p : Fin m)
  /-- `iocp::wait` returns with `k` entries, or with none. -/
  | entries (p : Fin m) (k : Nat)
  | timeout (p : Fin m)
  deriving DecidableEq, Repr

/-- `MAX_ENTRIES_PER_WAIT` -/
def maxEntries : Nat := 64

def Port.leave (s : Port m) (p : Fin m) : Port m := { s with polling := update s.polling p false }

def Port.step (s : Port m) : PortAct m → Option (Port m)
  | .post => some { s with queue := s.queue ++ [.selfWake] }
  | .complete => some { s with queue := s.queue ++ [.completion] }
  | .enter p => if s.polling p then none else some { s with polling := update s.polling p true }
  | .entries p k =>
      if s.polling p ∧ 0 < k ∧ k ≤ s.queue.length ∧ k ≤ maxEntries then
        some { s.leave p with queue := s.queue.drop k }
      else none
  | .timeout p => if s.polling p then some (s.leave p) else none

def port (m : Nat) : System (Port m) (PortAct m) where
  init s := s = { queue := [], polling := fun _ => false }
  step := Port.step

def Port.flag (s : Port m) : Flag m where
  pending := decide (.selfWake ∈ s.queue)
  polling := s.polling

/-- A batch that leaves a `wake` in the queue leaves the flag set. -/
def Port.shows (s : Port m) : PortAct m → List (FlagAct m)
  | .post => [.wake]
  | .complete => []
  | .enter p => [.enter p]
  | .entries p k =>
      if .selfWake ∈ s.queue.drop k then [.otherwise p]
      else [if s.flag.pending then .woken p else .otherwise p]
  | .timeout p => [.otherwise p]

theorem port_step {s s' : Port m} {a : PortAct m} (hs : s.step a = some s') :
    (SelfWake.flag m).run s.flag (s.shows a) = some s'.flag := by
  cases a with
  | post =>
      cases hs
      refine (flag_wake _).trans ?_
      simp [Port.flag]
  | complete =>
      cases hs
      simp [Port.shows, System.run, Port.flag]
  | enter p =>
      rw [Port.step] at hs
      split at hs <;> cases hs
      rename_i hp
      exact flag_enter (by simpa [Port.flag] using hp)
  | entries p k =>
      rw [Port.step] at hs
      split at hs <;> cases hs
      rename_i hp
      have hin : s.flag.polling p = true := hp.1
      rw [Port.shows]
      by_cases hleft : PortEntry.selfWake ∈ s.queue.drop k
      · have hold : PortEntry.selfWake ∈ s.queue := List.mem_of_mem_drop hleft
        rw [if_pos hleft, flag_otherwise hin]
        simp [Port.flag, Flag.leave, Port.leave, hleft, hold]
      · rw [if_neg hleft, flag_return hin]
        simp [Port.flag, Flag.leave, Port.leave, hleft]
  | timeout p =>
      rw [Port.step] at hs
      split at hs <;> cases hs
      rename_i hp
      exact flag_otherwise hp

def Port.own : PortAct m → Prop
  | .entries _ _ => True
  | _ => False

def windows (m : Nat) : Backend m where
  State := Port m
  Act := PortAct m
  system := port m
  own _ a := Port.own a
  sim :=
    { inv := fun _ => True
      abs := Port.flag
      shows := Port.shows
      init := by
        intro s hs
        cases hs
        exact ⟨trivial, rfl⟩
      step := fun _ _ _ _ hs => ⟨trivial, port_step hs⟩ }
  awake := by
    intro s _ hstuck hpend p
    have hmem : PortEntry.selfWake ∈ s.queue := by simpa [Port.flag] using hpend
    have hpos := List.length_pos_of_mem hmem
    have hone := hstuck (.entries p 1) trivial
    simp only [port, Port.step] at hone
    cases hp : s.polling p with
    | false => exact hp
    | true =>
        rw [if_pos ⟨hp, by omega, by omega, by decide⟩] at hone
        exact absurd hone (by simp)

/-! ## Elsewhere -/

/-- Where a thread stands in the fallback's `Inner::poll`. -/
inductive CondvarPc where
  | out
  /-- Before `self.notify.lock()`. -/
  | entered
  /-- Inside `Condvar::wait`, and picked by a `notify_one`. -/
  | waiting
  | notified
  deriving DecidableEq, Repr

def CondvarPc.inside : CondvarPc → Bool
  | .out => false
  | _ => true

/-- The `Mutex<bool>`, the threads, and the calls to `Inner::wake` before `notify_one`. -/
structure Condvar (m : Nat) where
  notify : Bool
  pollers : Fin m → CondvarPc
  notifying : Nat → Bool

inductive CondvarAct (m : Nat) where
  | store (c : Nat)
  /-- `notify_one` picks a thread that waits, or finds none. -/
  | notifyOne (c : Nat) (target : Option (Fin m))
  | enter (p : Fin m)
  /-- The section under the lock up to `wait`, or to the end of `poll`. -/
  | lock (p : Fin m)
  /-- `wait` comes back with the lock held: notified, timed out, or for no reason. -/
  | notified (p : Fin m)
  | giveUp (p : Fin m)
  deriving DecidableEq, Repr

def Condvar.goto (s : Condvar m) (p : Fin m) (pc : CondvarPc) : Condvar m :=
  { s with pollers := update s.pollers p pc }

/-- `*notified = false`, and out. -/
def Condvar.clear (s : Condvar m) (p : Fin m) : Condvar m := { s.goto p .out with notify := false }

def Condvar.step (s : Condvar m) : CondvarAct m → Option (Condvar m)
  | .store c =>
      if s.notifying c then none
      else some { s with notify := true, notifying := update s.notifying c true }
  | .notifyOne c target =>
      if s.notifying c then
        match target with
        | some p =>
            if s.pollers p = .waiting then
              some { s.goto p .notified with notifying := update s.notifying c false }
            else none
        | none =>
            if ∀ p, s.pollers p ≠ .waiting then
              some { s with notifying := update s.notifying c false }
            else none
      else none
  | .enter p => if s.pollers p = .out then some (s.goto p .entered) else none
  | .lock p =>
      if s.pollers p = .entered then some (if s.notify then s.clear p else s.goto p .waiting)
      else none
  | .notified p => if s.pollers p = .notified then some (s.clear p) else none
  | .giveUp p => if s.pollers p = .waiting then some (s.clear p) else none

def condvar (m : Nat) : System (Condvar m) (CondvarAct m) where
  init s := s = { notify := false, pollers := fun _ => .out, notifying := fun _ => false }
  step := Condvar.step

def Condvar.flag (s : Condvar m) : Flag m where
  pending := s.notify
  polling p := (s.pollers p).inside

def Condvar.shows (s : Condvar m) : CondvarAct m → List (FlagAct m)
  | .store _ => [.wake]
  | .notifyOne _ _ => []
  | .enter p => [.enter p]
  | .lock p => if s.notify then [.woken p] else []
  | .notified p | .giveUp p => [if s.flag.pending then .woken p else .otherwise p]

/-- A thread that waits beside a set `bool` has a notification on its way to one like it. -/
def Condvar.Notified (s : Condvar m) : Prop :=
  s.notify = true → (∃ p, s.pollers p = .waiting) →
    (∃ q, s.pollers q = .notified) ∨ ∃ c, s.notifying c = true

theorem Condvar.goto_other (s : Condvar m) {p q : Fin m} {pc : CondvarPc} (h : q ≠ p) :
    (s.goto p pc).pollers q = s.pollers q := update_of_ne h _ _

theorem Condvar.flag_goto (s : Condvar m) (p : Fin m) (pc : CondvarPc) :
    (s.goto p pc).flag = { s.flag with polling := update s.flag.polling p pc.inside } := by
  have hpoll : (s.goto p pc).flag.polling = update s.flag.polling p pc.inside := by
    funext q
    by_cases hq : q = p
    · subst hq
      simp [Condvar.flag, Condvar.goto]
    · simp [Condvar.flag, Condvar.goto, hq]
  rw [← hpoll]
  rfl

theorem Condvar.flag_clear (s : Condvar m) (p : Fin m) :
    (s.clear p).flag = { s.flag.leave p with pending := false } :=
  congrArg (Flag.mk false) (congrArg Flag.polling (s.flag_goto p .out))

/-- Nothing is pending after a return, so nothing has to be announced. -/
theorem Condvar.notified_clear (s : Condvar m) (p : Fin m) : (s.clear p).Notified := by
  intro h
  exact absurd h (by simp [Condvar.clear])

theorem condvar_step {s s' : Condvar m} {a : CondvarAct m} (hi : s.Notified)
    (hs : s.step a = some s') :
    s'.Notified ∧ (SelfWake.flag m).run s.flag (s.shows a) = some s'.flag := by
  cases a with
  | store c =>
      rw [Condvar.step] at hs
      split at hs <;> cases hs
      exact ⟨fun _ _ => .inr ⟨c, update_self ..⟩, flag_wake _⟩
  | notifyOne c target =>
      cases target with
      | some p =>
          simp only [Condvar.step] at hs
          split at hs
          · split at hs <;> cases hs
            rename_i hp
            refine ⟨fun _ _ => .inl ⟨p, by simp [Condvar.goto]⟩, ?_⟩
            have hin : s.flag.polling p = CondvarPc.notified.inside := by
              simp [Condvar.flag, hp, CondvarPc.inside]
            have hflag := s.flag_goto p .notified
            rw [← hin, update_eq_self] at hflag
            exact congrArg some hflag.symm
          · exact absurd hs (by simp)
      | none =>
          simp only [Condvar.step] at hs
          split at hs
          · split at hs <;> cases hs
            rename_i hnone
            refine ⟨fun _ hw => ?_, rfl⟩
            obtain ⟨p, hp⟩ := hw
            exact absurd hp (hnone p)
          · exact absurd hs (by simp)
  | enter p =>
      rw [Condvar.step] at hs
      split at hs <;> cases hs
      rename_i hp
      refine ⟨fun hn hw => ?_, ?_⟩
      · -- the thread that enters neither waits nor is notified
        obtain ⟨q, hq⟩ := hw
        have hqp : q ≠ p := by
          intro he
          subst he
          simp [Condvar.goto] at hq
        rw [s.goto_other hqp] at hq
        refine (hi hn ⟨q, hq⟩).imp_left fun hex => ?_
        obtain ⟨r, hr⟩ := hex
        have hrp : r ≠ p := by
          intro he
          subst he
          rw [hp] at hr
          exact absurd hr (by simp)
        exact ⟨r, by rw [s.goto_other hrp]; exact hr⟩
      · rw [Condvar.flag_goto]
        exact flag_enter (by simp [Condvar.flag, hp, CondvarPc.inside])
  | lock p =>
      rw [Condvar.step] at hs
      split at hs <;> cases hs
      rename_i hp
      have hin : s.flag.polling p = true := by simp [Condvar.flag, hp, CondvarPc.inside]
      cases hn : s.notify with
      | true =>
          rw [if_pos rfl, Condvar.shows, if_pos hn, Condvar.flag_clear]
          exact ⟨s.notified_clear p, flag_woken hin hn⟩
      | false =>
          rw [if_neg (by simp), Condvar.shows, if_neg (by simp [hn]), Condvar.flag_goto]
          have hwait : s.flag.polling p = CondvarPc.waiting.inside := hin
          rw [← hwait, update_eq_self]
          exact ⟨fun h => absurd (hn.symm.trans h) (by simp), rfl⟩
  | notified p | giveUp p =>
      rw [Condvar.step] at hs
      split at hs <;> cases hs
      rename_i hp
      rw [Condvar.flag_clear]
      exact ⟨s.notified_clear p, flag_return (by simp [Condvar.flag, hp, CondvarPc.inside])⟩

def Condvar.own : CondvarAct m → Prop
  | .notifyOne _ _ | .lock _ | .notified _ => True
  | _ => False

def fallback (m : Nat) : Backend m where
  State := Condvar m
  Act := CondvarAct m
  system := condvar m
  own _ a := Condvar.own a
  sim :=
    { inv := Condvar.Notified
      abs := Condvar.flag
      shows := Condvar.shows
      init := by
        intro s hs
        cases hs
        exact ⟨fun h => absurd h (by simp), rfl⟩
      step := fun _ _ _ => condvar_step }
  awake := by
    intro s hi hstuck hpend p
    cases hp : s.pollers p with
    | out => simp [Condvar.flag, hp, CondvarPc.inside]
    | entered =>
        have h := hstuck (.lock p) trivial
        simp [condvar, Condvar.step, hp] at h
    | notified =>
        have h := hstuck (.notified p) trivial
        simp [condvar, Condvar.step, hp] at h
    | waiting =>
        rcases hi hpend ⟨p, hp⟩ with ⟨q, hq⟩ | ⟨c, hc⟩
        · have h := hstuck (.notified q) trivial
          simp [condvar, Condvar.step, hq] at h
        · have h := hstuck (.notifyOne c (some p)) trivial
          simp [condvar, Condvar.step, hc, hp] at h

/-! ## The flag in the executor -/

open Nanorun.Executor (Shared WorkerPc WorkerStep)

variable {n : Nat} {τ : Type}

/-- Inside `Reactor::poll`. -/
def inPoll : WorkerPc τ → Bool
  | .reactorPoll _ => true
  | _ => false

/-- The reactor as the executor's model has it. -/
def reads (w : Executor.World n τ) : Flag n where
  pending := w.shared.reactorWake
  polling i := inPoll (w.threads i).pc

/-- What the executor does to it. -/
def uses (w : Executor.World n τ) : Executor.Label n τ → List (FlagAct n)
  | .worker i c =>
      match (w.threads i).pc, c with
      | .nextDeadline, _ => [.enter i]
      | .reactorPoll _, .wake => [.woken i]
      | .reactorPoll _, _ => [.otherwise i]
      | _, _ => []
  | .call c =>
      match w.calls c with
      | .wakeReactor | .registerWake => [.wake]
      | _ => []
  | .drop =>
      match w.drop with
      | .wake => [.wake]
      | _ => []
  | .schedule _ _ | .spawn _ _ | .register _ _ => []

/-- Outside `Reactor::poll` a worker does not touch the flag. -/
theorem worker_quiet {sh sh' : Shared n τ} {i : Fin n} {pc pc' : WorkerPc τ}
    (h : WorkerStep sh i pc sh' pc') (hpc : inPoll pc = false) (hnext : pc ≠ .nextDeadline) :
    sh'.reactorWake = sh.reactorWake ∧ inPoll pc' = false := by
  cases h with
  | nextDeadline => exact absurd rfl hnext
  | pollWoken _ | pollReturned => exact absurd hpc (by simp [inPoll])
  | missSecond _ hpc' => rcases hpc' with rfl | ⟨_, rfl⟩ <;> exact ⟨rfl, rfl⟩
  | stealOne _ _ => split <;> exact ⟨rfl, rfl⟩
  | @lookYes recheck _ _ | @lookNo recheck _ _ => cases recheck <;> exact ⟨rfl, rfl⟩
  | _ => exact ⟨rfl, rfl⟩

theorem reads_worker (w : Executor.World n τ) (i : Fin n) (sh' : Shared n τ)
    (th' : Executor.Worker τ) :
    reads { w with shared := sh', threads := update w.threads i th' }
      = { pending := sh'.reactorWake, polling := update (reads w).polling i (inPoll th'.pc) } := by
  refine congrArg (Flag.mk _) ?_
  funext j
  by_cases hj : j = i
  · subst hj
    simp
  · simp [reads, hj]

theorem uses_worker {w : Executor.World n τ} {i : Fin n} {c : Executor.Choice}
    {sh' : Shared n τ} {th' : Executor.Worker τ}
    (h : Executor.workerNext w.shared i (w.threads i) c = some (sh', th')) :
    (flag n).run (reads w) (uses w (.worker i c))
      = some (reads { w with shared := sh', threads := update w.threads i th' }) := by
  rw [reads_worker]
  cases hpc : (w.threads i).pc with
  | nextDeadline =>
      have hout : (reads w).polling i = false := by simp [reads, hpc, inPoll]
      cases c with
      | go =>
          simp only [Executor.workerNext, hpc, Option.some.injEq, Prod.mk.injEq] at h
          obtain ⟨rfl, rfl⟩ := h
          simp only [uses, hpc]
          exact flag_enter hout
      | _ => exact absurd h (by simp [Executor.workerNext, hpc])
  | reactorPoll timeout =>
      have hin : (reads w).polling i = true := by simp [reads, hpc, inPoll]
      cases c with
      | wake =>
          simp only [Executor.workerNext, hpc] at h
          split at h <;> cases h
          rename_i hw
          simp only [uses, hpc]
          exact flag_woken hin hw
      | io =>
          simp only [Executor.workerNext, hpc, Option.some.injEq, Prod.mk.injEq] at h
          obtain ⟨rfl, rfl⟩ := h
          simp only [uses, hpc]
          exact flag_otherwise hin
      | timeout =>
          cases timeout with
          | none => exact absurd h (by simp [Executor.workerNext, hpc])
          | some d =>
              simp only [Executor.workerNext, hpc, Option.some.injEq, Prod.mk.injEq] at h
              obtain ⟨rfl, rfl⟩ := h
              simp only [uses, hpc]
              exact flag_otherwise hin
      | _ => exact absurd h (by simp [Executor.workerNext, hpc])
  | _ =>
      have hquiet := worker_quiet (Executor.workerNext_step h) (by rw [hpc]; rfl) (by rw [hpc]; simp)
      have hout : (reads w).polling i = inPoll th'.pc := by
        rw [hquiet.2]
        simp [reads, hpc, inPoll]
      rw [← hout, update_eq_self, hquiet.1]
      simp only [uses, hpc]
      rfl

/-- What the executor has for a reactor is the flag. -/
def executorReads (n : Nat) (τ : Type) : Simulation (Executor.executor n τ) (flag n) where
  inv _ := True
  abs := reads
  shows := uses
  init := by
    intro w hw
    cases hw
    exact ⟨trivial, rfl⟩
  step := by
    intro w a w' _ hs
    refine ⟨trivial, ?_⟩
    cases a with
    | worker i c =>
        obtain ⟨⟨sh', th'⟩, hr, rfl⟩ := Option.map_eq_some_iff.mp hs
        exact uses_worker hr
    | call c =>
        obtain ⟨⟨sh', call'⟩, hr, rfl⟩ := Option.map_eq_some_iff.mp hs
        have hstep := Executor.callNext_step hr
        simp only [uses]
        generalize w.calls c = call at hstep
        cases hstep with
        | wake | registerWake => exact flag_wake _
        | _ => rfl
    | drop =>
        obtain ⟨⟨sh', d'⟩, hr, rfl⟩ := Option.map_eq_some_iff.mp hs
        have hstep := Executor.dropNext_step hr
        simp only [uses]
        generalize w.drop = d at hstep
        cases hstep with
        | wake => exact flag_wake _
        | _ => rfl
    | schedule c t | spawn c t | register c t =>
        obtain ⟨_, rfl⟩ := Executor.enter_some hs
        rfl

/-! ## Three backends, one flag -/

inductive Platform where
  | linux
  | windows
  | other
  deriving DecidableEq, Repr

/-- The backend that `reactor/mod.rs` picks. -/
def Platform.inner (m : Nat) : Platform → Backend m
  | .linux => SelfWake.linux m
  | .windows => SelfWake.windows m
  | .other => fallback m

/--
**A wake of the reactor is sticky, whichever backend there is.**

On every platform, with any number of threads inside `Inner::poll` and `Inner::wake`: every
run of the backend is a run of a flag that `wake` sets and that a returning `poll` clears,
and in a reachable state where no thread can go on by itself nobody is inside `poll`
while the flag is set. And every run of the executor uses its reactor as such a flag.
-/
theorem self_wake_sticky (pl : Platform) (m : Nat) :
    (∀ s₀ as s, (pl.inner m).system.init s₀ → (pl.inner m).system.run s₀ as = some s →
      (flag m).run { pending := false, polling := fun _ => false }
          ((pl.inner m).system.record (pl.inner m).sim.shows s₀ as)
        = some ((pl.inner m).sim.abs s))
    ∧ (∀ s, (pl.inner m).system.Reachable s → (pl.inner m).system.Stuck (pl.inner m).own s →
      ((pl.inner m).sim.abs s).pending = true → ∀ p, ((pl.inner m).sim.abs s).polling p = false)
    ∧ ∀ (τ : Type) (as : List (Executor.Label m τ)) (w : Executor.World m τ),
      (Executor.executor m τ).run (.new m τ) as = some w →
        (flag m).run { pending := false, polling := fun _ => false }
            ((Executor.executor m τ).record uses (.new m τ) as)
          = some (reads w) := by
  refine ⟨fun s₀ as s h0 hr => ?_, fun s h hstuck hpend p => ?_, fun τ as w hr => ?_⟩
  · obtain ⟨hi, hf⟩ := (pl.inner m).sim.init s₀ h0
    have hrun := ((pl.inner m).sim.run hi hr).2
    rwa [show (pl.inner m).sim.abs s₀ = _ from hf] at hrun
  · exact (pl.inner m).awake s ((pl.inner m).sim.reachable h).1 hstuck hpend p
  · exact ((executorReads m τ).run trivial hr).2

/-- A thread waits on the condition variable; the `bool` is set and the thread notified. -/
def wakeWaiting : List (CondvarAct 1) :=
  [.enter 0, .lock 0, .store 0, .notifyOne 0 (some 0), .notified 0]

theorem self_wake_sticky_wakeWaiting :
    ∃ s, (condvar 1).run { notify := false, pollers := fun _ => .out, notifying := fun _ => false }
        wakeWaiting = some s
      ∧ (flag 1).run { pending := false, polling := fun _ => false } [.enter 0, .wake, .woken 0]
        = some s.flag :=
  ⟨_, rfl, (self_wake_sticky .other 1).1 _ wakeWaiting _ rfl rfl⟩

end Nanorun.Reactor.SelfWake
