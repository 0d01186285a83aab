import Mathlib.Tactic.DeriveFintype
import Nanorun.Lib.Buckets
import Nanorun.Lib.Pool

/-!
# Tearing a runtime down

`Multi::drop` once the workers are gone: it clears the injector, the local queues and
the timer driver's wakers, and every reference dropped on the way may be the last
one of its task and take the task's future with it.

The state is what owns what. An allocation is a task, or an `Arc` that futures share, or
the `Arc<Shared>` itself: its strong count, what its header holds (the waker in
`join_waker`, the task's own `Spawner`), and what its cell owns, in the order it is
dropped. A future or an output owns references of any kind, join handles, and sockets,
each named by its slab key. The slab appears as the map from keys to wakers that
`Slab::get_mut` goes by. A `Sleep` that is dropped here does nothing, since the dropping
thread has no driver installed; it does have the reactor, so a socket deregisters, and
`epoll::delete` finds the descriptor that was added.

A destructor drops what its owner owns. If it wakes a task instead of dropping the waker,
`schedule` sees `shutdown` and drops it all the same. It may also spawn on a `Handle` that
it kept, and `Spawner::spawn` does not look at `shutdown`; the future that it will spawn is
an allocation like the others, whose first reference is the destructor's. Destructors that
poll sockets are left out.

What is still to be done is a list of items, worked off from the front. The injector is
cleared under its lock, and a slot's wakers are dropped while `deregister` holds the
slab's, so a destructor that spawns in the course of the one, or a socket that is dropped
in the course of the other, waits for the lock forever. Nothing that is dropped takes the
lock of a local queue or of the timer driver.
-/

namespace Nanorun.Teardown

variable {n : Nat} {T K : Type}

/-- What a future or an output owns. -/
inductive Resource (T K : Type) where
  /-- A `Waker`, a `TaskRef`, or an `Arc` that futures share. -/
  | arc (t : T)
  | handle (t : T)
  /-- A `TcpStream` or a `TcpListener` registered with this runtime. -/
  | stream (k : K)
  /-- What a destructor spawns: the future of `t`, with the `Handle` to spawn it on. -/
  | spawn (t : T)
  deriving DecidableEq, Repr

structure Alloc (T K : Type) where
  strong : Nat
  complete : Bool
  joinWaker : Option T
  /-- The `Arc<Shared>` of a task's `Spawner`. -/
  spawner : Option T
  /-- What the future or the output owns, in the order it is dropped. -/
  cell : List (Resource T K)
  deriving DecidableEq, Repr

structure SlotWakers (T : Type) where
  read : Option T
  write : Option T
  deriving DecidableEq, Repr

/-- What is cleared after the injector. -/
inductive Queue (n : Nat) where
  | localQueue (i : Fin n)
  /-- The wakers of the timer driver. -/
  | timers
  deriving DecidableEq, Fintype, Repr

/-- All that has owners, but for the injector. -/
structure Heap (n : Nat) (T K : Type) where
  tasks : T → Alloc T K
  slots : K → SlotWakers T
  queues : Queue n → List T

/-- Where a reference is kept. -/
inductive Place (n : Nat) (T K : Type) where
  | header (t : T)
  | cell (t : T)
  | slot (k : K)
  | queue (q : Queue n)
  deriving DecidableEq, Fintype, Repr

/-- The mutexes that are held while something is dropped. -/
inductive Lock where
  | injector
  | slots
  deriving DecidableEq, Repr

inductive Item (n : Nat) (T K : Type) where
  /-- One thing to drop. -/
  | drop (r : Resource T K)
  /-- The end of a section under a lock. -/
  | unlock (l : Lock)
  /-- A queue that `Multi::drop` has yet to clear. -/
  | clear (q : Queue n)
  deriving DecidableEq, Repr

structure Conf (n : Nat) (T K : Type) where
  heap : Heap n T K
  items : List (Item n T K)
  /-- What has been pushed since the injector was cleared. -/
  injector : List T
  locked : Lock → Bool

/-- What a place holds. -/
def Heap.contents (h : Heap n T K) : Place n T K → List (Resource T K)
  | .header t => ((h.tasks t).joinWaker.toList ++ (h.tasks t).spawner.toList).map .arc
  | .cell t => (h.tasks t).cell
  | .slot k => ((h.slots k).read.toList ++ (h.slots k).write.toList).map .arc
  | .queue q => (h.queues q).map .arc

/-! ## Resources -/

/-- The allocation that a resource keeps alive. -/
def Resource.target : Resource T K → Option T
  | .arc t | .handle t | .spawn t => some t
  | .stream _ => none

/-- What is left to do with a resource: a handle may have an output to drop first, and a socket
a lock to give back. -/
def Resource.weight : Resource T K → Nat
  | .arc _ | .spawn _ => 1
  | .handle _ | .stream _ => 2

def Item.resource : Item n T K → Option (Resource T K)
  | .drop r => some r
  | .unlock _ | .clear _ => none

def Item.isDrop : Item n T K → Bool
  | .drop _ => true
  | .unlock _ | .clear _ => false

/-- The resources among the items. -/
def drops (items : List (Item n T K)) : Multiset (Resource T K) :=
  (items.filterMap Item.resource : List _)

@[simp] theorem drops_nil : drops ([] : List (Item n T K)) = 0 := rfl

@[simp] theorem drops_unlock (l : Lock) (rest : List (Item n T K)) :
    drops (.unlock l :: rest) = drops rest := rfl

@[simp] theorem drops_clear (q : Queue n) (rest : List (Item n T K)) :
    drops (.clear q :: rest) = drops rest := rfl

@[simp] theorem drops_cons (r : Resource T K) (rest : List (Item n T K)) :
    drops (.drop r :: rest) = r ::ₘ drops rest := rfl

@[simp] theorem drops_map (rs : List (Resource T K)) (rest : List (Item n T K)) :
    drops (rs.map .drop ++ rest) = (rs : Multiset (Resource T K)) + drops rest := by
  induction rs with
  | nil => simp
  | cons r rs ih =>
      rw [List.map_cons, List.cons_append, drops_cons, ih, ← Multiset.cons_coe, Multiset.cons_add]

theorem mem_drops {r : Resource T K} {items : List (Item n T K)} (h : .drop r ∈ items) :
    r ∈ drops items := Multiset.mem_coe.mpr (List.mem_filterMap.mpr ⟨_, h, rfl⟩)

/-- How many items drop nothing themselves. -/
def marks (items : List (Item n T K)) : Nat := items.countP fun i => !i.isDrop

@[simp] theorem marks_drop (r : Resource T K) (rest : List (Item n T K)) :
    marks (.drop r :: rest) = marks rest := List.countP_cons_of_neg (by simp [Item.isDrop])

@[simp] theorem marks_unlock (l : Lock) (rest : List (Item n T K)) :
    marks (.unlock l :: rest) = marks rest + 1 := List.countP_cons_of_pos rfl

@[simp] theorem marks_clear (q : Queue n) (rest : List (Item n T K)) :
    marks (.clear q :: rest) = marks rest + 1 := List.countP_cons_of_pos rfl

@[simp] theorem marks_map (rs : List (Resource T K)) (rest : List (Item n T K)) :
    marks (rs.map .drop ++ rest) = marks rest := by
  induction rs with
  | nil => rfl
  | cons r rs ih => rw [List.map_cons, List.cons_append, marks_drop, ih]

theorem mem_tail {r r' : Resource T K} {rest : List (Item n T K)}
    (h : Item.drop r ∈ Item.drop r' :: rest) : r = r' ∨ .drop r ∈ rest := by
  rcases List.mem_cons.mp h with heq | hrest
  · exact .inl (Item.drop.inj heq)
  · exact .inr hrest

theorem clear_mem_tail {q : Queue n} {r : Resource T K} {rest : List (Item n T K)}
    (h : Item.clear q ∈ Item.drop r :: rest) : .clear q ∈ rest := by
  rcases List.mem_cons.mp h with heq | hrest
  · exact absurd heq (by simp)
  · exact hrest

theorem mem_map_drop {r : Resource T K} {rs : List (Resource T K)} {rest : List (Item n T K)}
    (h : Item.drop r ∈ rs.map .drop ++ rest) : r ∈ rs ∨ .drop r ∈ rest := by
  rcases List.mem_append.mp h with hmap | hrest
  · obtain ⟨r', hr', heq⟩ := List.mem_map.mp hmap
    exact .inl (Item.drop.inj heq ▸ hr')
  · exact .inr hrest

/-! ## Dropping -/

section Step

variable [DecidableEq T]

/-- How often a resource counts for `t`. -/
def Resource.counts (t : T) (r : Resource T K) : Nat := if r.target = some t then 1 else 0

namespace Heap

def setTask (h : Heap n T K) (t : T) (a : Alloc T K) : Heap n T K :=
  { h with tasks := Function.update h.tasks t a }

def setStrong (h : Heap n T K) (t : T) (m : Nat) : Heap n T K :=
  h.setTask t { h.tasks t with strong := m }

/-- The allocation goes: its header, then its cell. -/
def free (h : Heap n T K) (t : T) : Heap n T K :=
  h.setTask t { h.tasks t with strong := 0, joinWaker := none, spawner := none, cell := [] }

/-- `*task.cell.get() = Stage::Empty` -/
def emptyCell (h : Heap n T K) (t : T) : Heap n T K := h.setTask t { h.tasks t with cell := [] }

/-- `slots.remove(key)` -/
def clearSlot [DecidableEq K] (h : Heap n T K) (k : K) : Heap n T K :=
  { h with slots := Function.update h.slots k { read := none, write := none } }

/-- `clear()` -/
def clearQueue (h : Heap n T K) (q : Queue n) : Heap n T K :=
  { h with queues := Function.update h.queues q [] }

/-- The counts and flags after an update of one allocation. -/
theorem strong_setTask (h : Heap n T K) (t t' : T) (a : Alloc T K) :
    ((h.setTask t a).tasks t').strong = if t' = t then a.strong else (h.tasks t').strong := by
  by_cases ht : t' = t
  · subst ht; simp [setTask]
  · simp [setTask, ht]

theorem strong_setStrong (h : Heap n T K) (t t' : T) (m : Nat) :
    ((h.setStrong t m).tasks t').strong = if t' = t then m else (h.tasks t').strong :=
  h.strong_setTask t t' _

theorem strong_free (h : Heap n T K) (t t' : T) :
    ((h.free t).tasks t').strong = if t' = t then 0 else (h.tasks t').strong :=
  h.strong_setTask t t' _

theorem strong_emptyCell (h : Heap n T K) (t t' : T) :
    ((h.emptyCell t).tasks t').strong = (h.tasks t').strong := by
  rw [emptyCell, strong_setTask]
  split
  · rename_i ht
    rw [ht]
  · rfl

theorem complete_setTask (h : Heap n T K) (t t' : T) {a : Alloc T K}
    (ha : a.complete = (h.tasks t).complete) :
    ((h.setTask t a).tasks t').complete = (h.tasks t').complete := by
  by_cases ht : t' = t
  · subst ht; simp [setTask, ha]
  · simp [setTask, ht]

end Heap

variable [DecidableEq K]

namespace Conf

/-- `Arc::decrement_strong_count`; `none` if there is nothing to decrement. -/
def release (c : Conf n T K) (t : T) (rest : List (Item n T K)) : Option (Conf n T K) :=
  match (c.heap.tasks t).strong with
  | 0 => none
  | 1 =>
      some { c with
        heap := c.heap.free t
        items := (c.heap.contents (.header t) ++ c.heap.contents (.cell t)).map .drop ++ rest }
  | m + 2 => some { c with heap := c.heap.setStrong t (m + 1), items := rest }

/-- Drop the first item. `none` if it never returns. -/
def step (c : Conf n T K) : Option (Conf n T K) :=
  match c.items with
  | [] => none
  | .unlock l :: rest => some { c with items := rest, locked := Function.update c.locked l false }
  | .drop (.arc t) :: rest => c.release t rest
  | .drop (.handle t) :: rest =>
      -- `drop_join_interest`, then the handle's own reference
      if (c.heap.tasks t).complete then
        some { c with
          heap := c.heap.emptyCell t
          items := (c.heap.contents (.cell t)).map .drop ++ .drop (.arc t) :: rest }
      else c.release t rest
  | .drop (.stream k) :: rest =>
      -- `deregister`: the slot goes under the lock, with its wakers
      if c.locked .slots then none
      else
        some { c with
          heap := c.heap.clearSlot k
          items := (c.heap.contents (.slot k)).map .drop ++ .unlock .slots :: rest
          locked := Function.update c.locked .slots true }
  | .drop (.spawn t) :: rest =>
      -- `push_global`; nobody is left to wake
      if c.locked .injector then none
      else some { c with items := rest, injector := c.injector ++ [t] }
  | .clear q :: rest =>
      some { c with
        heap := c.heap.clearQueue q
        items := (c.heap.contents (.queue q)).map .drop ++ rest }

end Conf

/-- Items are dropped until none is left. -/
inductive Drains : Conf n T K → Conf n T K → Prop where
  | done {c : Conf n T K} : c.items = [] → Drains c c
  | step {c c' d : Conf n T K} : c.step = some c' → Drains c' d → Drains c d

/-- What `Shared` holds references in: the injector, and the queues and slots of the heap. -/
structure Shared (n : Nat) (T K : Type) where
  heap : Heap n T K
  injector : List T

namespace Shared

/-- The three statements at the end of `Multi::drop`. The first has emptied the injector, and
is about to drop what was in it with the lock still held. -/
def opening (s : Shared n T K) : Conf n T K where
  heap := s.heap
  items := s.injector.map (fun t => .drop (.arc t)) ++ .unlock .injector ::
    (List.finRange n).map (fun i => .clear (.localQueue i)) ++ [.clear .timers]
  injector := []
  locked := fun l => l = .injector

/-- `Multi::drop` returns, and leaves this. -/
def Drops (s s' : Shared n T K) : Prop :=
  ∃ d, Drains s.opening d ∧ s' = { heap := d.heap, injector := d.injector }

end Shared

/-! ## What the operations do to the places -/

namespace Heap

theorem contents_setTask (h : Heap n T K) (t : T) (a : Alloc T K) :
    (h.setTask t a).contents
      = Function.update (Function.update h.contents (.header t)
          ((a.joinWaker.toList ++ a.spawner.toList).map .arc)) (.cell t) a.cell := by
  funext p
  cases p with
  | slot k => simp [contents, setTask]
  | queue q => simp [contents, setTask]
  | header t' =>
      by_cases ht : t' = t
      · subst ht; simp [contents, setTask]
      · simp [contents, setTask, ht]
  | cell t' =>
      by_cases ht : t' = t
      · subst ht; simp [contents, setTask]
      · simp [contents, setTask, ht]

theorem contents_setStrong (h : Heap n T K) (t : T) (m : Nat) :
    (h.setStrong t m).contents = h.contents := by
  rw [setStrong, contents_setTask]
  have hheader : Function.update h.contents (.header t) (h.contents (.header t)) = h.contents :=
    Function.update_eq_self (Place.header t) h.contents
  rw [Heap.contents] at hheader
  rw [hheader]
  exact Function.update_eq_self (Place.cell t) h.contents

theorem contents_free (h : Heap n T K) (t : T) :
    (h.free t).contents
      = Function.update (Function.update h.contents (.header t) []) (.cell t) [] :=
  h.contents_setTask t _

theorem contents_emptyCell (h : Heap n T K) (t : T) :
    (h.emptyCell t).contents = Function.update h.contents (.cell t) [] := by
  rw [emptyCell, contents_setTask]
  have hheader : Function.update h.contents (.header t) (h.contents (.header t)) = h.contents :=
    Function.update_eq_self (Place.header t) h.contents
  rw [Heap.contents] at hheader
  rw [hheader]

theorem contents_clearSlot (h : Heap n T K) (k : K) :
    (h.clearSlot k).contents = Function.update h.contents (.slot k) [] := by
  funext p
  cases p with
  | header t => simp [contents, clearSlot]
  | cell t => simp [contents, clearSlot]
  | queue q => simp [contents, clearSlot]
  | slot k' =>
      by_cases hk : k' = k
      · subst hk; simp [contents, clearSlot]
      · simp [contents, clearSlot, hk]

theorem contents_clearQueue (h : Heap n T K) (q : Queue n) :
    (h.clearQueue q).contents = Function.update h.contents (.queue q) [] := by
  funext p
  cases p with
  | header t => simp [contents, clearQueue]
  | cell t => simp [contents, clearQueue]
  | slot k => simp [contents, clearQueue]
  | queue q' =>
      by_cases hq : q' = q
      · subst hq; simp [contents, clearQueue]
      · simp [contents, clearQueue, hq]

end Heap

/-! ## One step -/

/-- Dropping `r` comes to releasing `t`. -/
def Heap.Releases (h : Heap n T K) (r : Resource T K) (t : T) : Prop :=
  r = .arc t ∨ (r = .handle t ∧ (h.tasks t).complete = false)

/-- Everything that a step can do. -/
inductive StepTo (c : Conf n T K) : Conf n T K → Prop where
  | unlock {l : Lock} {rest : List (Item n T K)} : c.items = .unlock l :: rest →
      StepTo c { c with items := rest, locked := Function.update c.locked l false }
  | lower {r : Resource T K} {t : T} {rest : List (Item n T K)} {m : Nat} :
      c.items = .drop r :: rest → c.heap.Releases r t → (c.heap.tasks t).strong = m + 2 →
      StepTo c { c with heap := c.heap.setStrong t (m + 1), items := rest }
  | free {r : Resource T K} {t : T} {rest : List (Item n T K)} :
      c.items = .drop r :: rest → c.heap.Releases r t → (c.heap.tasks t).strong = 1 →
      StepTo c { c with
        heap := c.heap.free t
        items := (c.heap.contents (.header t) ++ c.heap.contents (.cell t)).map .drop ++ rest }
  | output {t : T} {rest : List (Item n T K)} :
      c.items = .drop (.handle t) :: rest → (c.heap.tasks t).complete = true →
      StepTo c { c with
        heap := c.heap.emptyCell t
        items := (c.heap.contents (.cell t)).map .drop ++ .drop (.arc t) :: rest }
  | slot {k : K} {rest : List (Item n T K)} :
      c.items = .drop (.stream k) :: rest → c.locked .slots = false →
      StepTo c { c with
        heap := c.heap.clearSlot k
        items := (c.heap.contents (.slot k)).map .drop ++ .unlock .slots :: rest
        locked := Function.update c.locked .slots true }
  | spawn {t : T} {rest : List (Item n T K)} :
      c.items = .drop (.spawn t) :: rest → c.locked .injector = false →
      StepTo c { c with items := rest, injector := c.injector ++ [t] }
  | clear {q : Queue n} {rest : List (Item n T K)} : c.items = .clear q :: rest →
      StepTo c { c with
        heap := c.heap.clearQueue q
        items := (c.heap.contents (.queue q)).map .drop ++ rest }

theorem release_step {c c' : Conf n T K} {r : Resource T K} {t : T} {rest : List (Item n T K)}
    (hi : c.items = .drop r :: rest) (hr : c.heap.Releases r t)
    (hs : c.release t rest = some c') : StepTo c c' := by
  unfold Conf.release at hs
  split at hs
  · exact absurd hs (by simp)
  · rename_i hone
    obtain rfl := Option.some.inj hs
    exact .free hi hr hone
  · rename_i m hmany
    obtain rfl := Option.some.inj hs
    exact .lower hi hr hmany

theorem step_spec {c c' : Conf n T K} (hs : c.step = some c') : StepTo c c' := by
  unfold Conf.step at hs
  split at hs
  · exact absurd hs (by simp)
  · rename_i l rest hi
    obtain rfl := Option.some.inj hs
    exact .unlock hi
  · rename_i t rest hi
    exact release_step hi (.inl rfl) hs
  · rename_i t rest hi
    split at hs
    · rename_i hc
      obtain rfl := Option.some.inj hs
      exact .output hi hc
    · rename_i hc
      exact release_step hi (.inr ⟨rfl, Bool.eq_false_iff.mpr hc⟩) hs
  · rename_i k rest hi
    split at hs
    · exact absurd hs (by simp)
    · rename_i hl
      obtain rfl := Option.some.inj hs
      exact .slot hi (Bool.eq_false_iff.mpr hl)
  · rename_i t rest hi
    split at hs
    · exact absurd hs (by simp)
    · rename_i hl
      obtain rfl := Option.some.inj hs
      exact .spawn hi (Bool.eq_false_iff.mpr hl)
  · rename_i q rest hi
    obtain rfl := Option.some.inj hs
    exact .clear hi

/-- Where the first item is not stuck, there is a step. -/
theorem step_isSome {c : Conf n T K} {i : Item n T K} {rest : List (Item n T K)}
    (hi : c.items = i :: rest)
    (hstrong : ∀ t, i.resource.bind Resource.target = some t → 0 < (c.heap.tasks t).strong)
    (hslots : ∀ k, i = .drop (.stream k) → c.locked .slots = false)
    (hinjector : ∀ t, i = .drop (.spawn t) → c.locked .injector = false) :
    ∃ c', c.step = some c' := by
  have hrelease : ∀ t, 0 < (c.heap.tasks t).strong → ∃ c', c.release t rest = some c' := by
    intro t hpos
    unfold Conf.release
    split
    · rename_i hzero
      omega
    · exact ⟨_, rfl⟩
    · exact ⟨_, rfl⟩
  unfold Conf.step
  rw [hi]
  cases i with
  | unlock | clear => exact ⟨_, rfl⟩
  | drop r =>
      cases r with
      | arc t => exact hrelease t (hstrong t rfl)
      | handle t =>
          simp only
          split
          · exact ⟨_, rfl⟩
          · exact hrelease t (hstrong t rfl)
      | stream k =>
          simp only [hslots k rfl, Bool.false_eq_true, if_false]
          exact ⟨_, rfl⟩
      | spawn t =>
          simp only [hinjector t rfl, Bool.false_eq_true, if_false]
          exact ⟨_, rfl⟩

/-- **The run rule.** What a step keeps, the end has, with nothing left to drop. -/
theorem Drains.invariant {I : Conf n T K → Prop} (hs : ∀ c c', I c → StepTo c c' → I c')
    {c d : Conf n T K} (h : Drains c d) (hc : I c) : I d ∧ d.items = [] := by
  induction h with
  | done hi => exact ⟨hc, hi⟩
  | step hstep _ ih => exact ih (hs _ _ hc (step_spec hstep))

/-! ## What is outstanding -/

variable [Fintype T] [Fintype K]

/-- Everything that has not been dropped yet. -/
def Conf.outstanding (c : Conf n T K) : Multiset (Resource T K) :=
  drops c.items + Buckets.contents c.heap.contents

/-- The references to `t` in it. -/
def Conf.owed (c : Conf n T K) (t : T) : Nat := Pool.weight (Resource.counts t) c.outstanding

/-- What a place gives to the list stays outstanding. -/
theorem outstanding_moved {h h' : Heap n T K} {p : Place n T K}
    (hc : h'.contents = Function.update h.contents p []) (rest : List (Item n T K)) :
    drops ((h.contents p).map .drop ++ rest) + Buckets.contents h'.contents
      = drops rest + Buckets.contents h.contents := by
  rw [drops_map, hc, ← Buckets.contents_drain h.contents p]
  ac_rfl

theorem outstanding_free (h : Heap n T K) (t : T) (rest : List (Item n T K)) :
    drops ((h.contents (.header t) ++ h.contents (.cell t)).map .drop ++ rest)
        + Buckets.contents (h.free t).contents
      = drops rest + Buckets.contents h.contents := by
  have hcell : Function.update h.contents (.header t) [] (.cell t) = h.contents (.cell t) := by simp
  rw [drops_map, Heap.contents_free, ← Buckets.contents_drain h.contents (.header t),
    ← Buckets.contents_drain (Function.update h.contents (.header t) []) (.cell t), hcell,
    ← Multiset.coe_add]
  ac_rfl

/-! ## Every step drops something -/

namespace Conf

theorem outstanding_lower {c : Conf n T K} {r : Resource T K} {rest : List (Item n T K)}
    (hi : c.items = .drop r :: rest) (t : T) (m : Nat) :
    c.outstanding
      = r ::ₘ
        ({ c with heap := c.heap.setStrong t m, items := rest } : Conf n T K).outstanding := by
  simp only [outstanding, hi, drops_cons, Heap.contents_setStrong, Multiset.cons_add]

theorem outstanding_freed {c : Conf n T K} {r : Resource T K} {rest : List (Item n T K)}
    (hi : c.items = .drop r :: rest) (t : T) :
    c.outstanding
      = r ::ₘ ({ c with
          heap := c.heap.free t
          items := (c.heap.contents (.header t) ++ c.heap.contents (.cell t)).map .drop ++ rest } :
            Conf n T K).outstanding := by
  simp only [outstanding]
  rw [outstanding_free c.heap t rest, hi, drops_cons, Multiset.cons_add]

theorem outstanding_output {c : Conf n T K} {t : T} {rest : List (Item n T K)}
    (hi : c.items = .drop (.handle t) :: rest) :
    .arc t ::ₘ c.outstanding
      = .handle t ::ₘ ({ c with
          heap := c.heap.emptyCell t
          items := (c.heap.contents (.cell t)).map .drop ++ .drop (.arc t) :: rest } :
            Conf n T K).outstanding := by
  simp only [outstanding]
  rw [outstanding_moved (c.heap.contents_emptyCell t), hi, drops_cons, drops_cons,
    Multiset.cons_add, Multiset.cons_add, Multiset.cons_swap]

theorem outstanding_slot {c : Conf n T K} {k : K} {rest : List (Item n T K)}
    (hi : c.items = .drop (.stream k) :: rest) :
    c.outstanding
      = .stream k ::ₘ
        ({ c with
            heap := c.heap.clearSlot k
            items := (c.heap.contents (.slot k)).map .drop ++ .unlock .slots :: rest
            locked := Function.update c.locked .slots true } : Conf n T K).outstanding := by
  simp only [outstanding]
  rw [outstanding_moved (c.heap.contents_clearSlot k), hi, drops_unlock, drops_cons,
    Multiset.cons_add]

omit [DecidableEq T] [DecidableEq K] in
theorem outstanding_spawn {c : Conf n T K} {t : T} {rest : List (Item n T K)}
    (hi : c.items = .drop (.spawn t) :: rest) :
    c.outstanding
      = .spawn t ::ₘ
        ({ c with items := rest, injector := c.injector ++ [t] } : Conf n T K).outstanding := by
  simp only [outstanding, hi, drops_cons, Multiset.cons_add]

theorem outstanding_clear {c : Conf n T K} {q : Queue n} {rest : List (Item n T K)}
    (hi : c.items = .clear q :: rest) :
    c.outstanding
      = ({ c with
          heap := c.heap.clearQueue q
          items := (c.heap.contents (.queue q)).map .drop ++ rest } : Conf n T K).outstanding := by
  simp only [outstanding]
  rw [outstanding_moved (c.heap.contents_clearQueue q), hi, drops_clear]

/-- What is left to do. -/
def weight (c : Conf n T K) : Nat :=
  Pool.weight Resource.weight c.outstanding + marks c.items

end Conf

/-- So the teardown ends, or is stuck. -/
theorem StepTo.weight_lt {c c' : Conf n T K} (h : StepTo c c') : c'.weight < c.weight := by
  have hpos : ∀ r : Resource T K, 0 < r.weight := by
    intro r
    cases r <;> simp [Resource.weight]
  cases h with
  | unlock hi =>
      simp only [Conf.weight, Conf.outstanding, hi, drops_unlock, marks_unlock]
      omega
  | @lower r t rest m hi _ _ =>
      have hout := Conf.outstanding_lower hi t (m + 1)
      have := hpos r
      simp only [Conf.weight, hout, Pool.weight_cons, hi, marks_drop]
      omega
  | @free r t rest hi _ _ =>
      have hout := Conf.outstanding_freed hi t
      have := hpos r
      simp only [Conf.weight, hout, Pool.weight_cons, hi, marks_map, marks_drop]
      omega
  -- a handle weighs two: its output goes first, and a plain reference is left
  | @output t rest hi _ =>
      have hout := congrArg (Pool.weight Resource.weight) (Conf.outstanding_output hi)
      simp only [Pool.weight_cons, Resource.weight] at hout
      simp only [Conf.weight, hi, marks_map, marks_drop]
      omega
  -- so does a socket, which leaves the lock to give back
  | @slot k rest hi _ =>
      have hout := congrArg (Pool.weight Resource.weight) (Conf.outstanding_slot hi)
      simp only [Pool.weight_cons, Resource.weight] at hout
      simp only [Conf.weight, hi, marks_map, marks_unlock, marks_drop]
      omega
  | @spawn t rest hi _ =>
      have hout := congrArg (Pool.weight Resource.weight) (Conf.outstanding_spawn hi)
      simp only [Pool.weight_cons, Resource.weight] at hout
      simp only [Conf.weight, hi, marks_drop]
      omega
  | @clear q rest hi =>
      have hout := congrArg (Pool.weight Resource.weight) (Conf.outstanding_clear hi)
      simp only [Conf.weight, hi, marks_map, marks_clear]
      omega

/-- **The teardown returns if no step is stuck.** -/
theorem drains_of_progress {I : Conf n T K → Prop} (hs : ∀ c c', I c → StepTo c c' → I c')
    (hp : ∀ c i rest, I c → c.items = i :: rest → ∃ c', c.step = some c') {c : Conf n T K}
    (hc : I c) : ∃ d, Drains c d := by
  -- on the weight, since a step may put more on the list than it takes off
  induction hn : c.weight using Nat.strong_induction_on generalizing c with
  | _ left ih =>
      cases hi : c.items with
      | nil => exact ⟨c, .done hi⟩
      | cons i rest =>
          obtain ⟨c', hstep⟩ := hp c i rest hc hi
          have hto := step_spec hstep
          obtain ⟨d, hd⟩ := ih c'.weight (hn ▸ hto.weight_lt) (hs c c' hc hto) rfl
          exact ⟨d, .step hstep hd⟩

end Step

end Nanorun.Teardown
