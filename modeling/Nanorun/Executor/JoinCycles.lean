import Nanorun.Executor.Ownership

/-!
# Join edges are cycles

A task that awaits another one's `JoinHandle` keeps that task alive through the
handle its future owns, and is kept alive by it through the waker in its header. The
two hold each other, and neither the queues nor the timers are part of it:
`JoinHandle::drop` would let go, but it runs when the future is dropped, and
`drop_join_interest` leaves the waker where it is.

Every task also holds the `Arc<Shared>`, through its `Spawner`. So a teardown without
sockets and without destructors that spawn always returns, and it releases the
`Arc<Shared>` exactly if no task awaits another and no chain of owners that leads to a
task goes round in a circle.
-/

namespace Nanorun.Teardown

variable {n : Nat} {T K : Type}

/-- `a` has a reference to `b`: the `Arc<Shared>` of its `Spawner`, or what its future owns. -/
def Owns (h : Heap n T K) (a b : T) : Prop :=
  (h.tasks a).spawner = some b ∨ ∃ r ∈ (h.tasks a).cell, r.target = some b

/-- One task keeps another one alive. -/
def Keeps (h : Heap n T K) (a b : T) : Prop := (h.tasks a).joinWaker = some b ∨ Owns h a b

/-- The task that a place belongs to. -/
def Place.task : Place n T K → Option T
  | .header t | .cell t => some t
  | .slot _ | .queue _ => none

section

variable [DecidableEq T] [Fintype T] [Fintype K]

/-- `Multi` has the `Arc<Shared>`, and nothing else is held outside. -/
def outsideOf (rt t : T) : Nat := if t = rt then 1 else 0

/-- Unfinished tasks that are queued, sleeping or awaiting one another, with what their futures
own. The `Arc<Shared>` is `rt`, and the tasks are what has it as their `Spawner`. -/
structure WaitGraph (s : Shared n T K) (rt : T) : Prop where
  sound : Sound s (outsideOf rt)
  /-- Nobody holds an output. -/
  unfinished : ∀ t, (s.heap.tasks t).complete = false
  /-- No task waits for I/O. -/
  noIo : ∀ k, s.heap.contents (.slot k) = []
  /-- What `Shared` owns is in `s`. -/
  root : ∀ b, ¬ Keeps s.heap rt b
  /-- The waker in a header is that of the task whose future owns the handle. -/
  joins : ∀ a b, (s.heap.tasks b).joinWaker = some a →
    .handle b ∈ (s.heap.tasks a).cell ∧ (s.heap.tasks b).spawner = some rt
  /-- What a destructor spawns is a task. -/
  spawns : ∀ p t, .spawn t ∈ s.heap.contents p → (s.heap.tasks t).spawner = some rt

/-- No destructor spawns. -/
def NoSpawns (h : Heap n T K) : Prop := ∀ p t, .spawn t ∉ h.contents p

/-- The lock is given back at once, since a slot has no wakers to drop. -/
structure Calm (h₀ : Heap n T K) (outside : T → Nat) (c : Conf n T K) : Prop where
  inv : DrainInv h₀ outside c
  slots : ∀ k, c.heap.contents (.slot k) = []
  lock : c.locked .slots = true → ∃ rest, c.items = .unlock .slots :: rest

variable {h₀ : Heap n T K} {outside : T → Nat}

theorem Calm.unlocked {c : Conf n T K} (h : Calm h₀ outside c) {i : Item n T K}
    {rest : List (Item n T K)} (hi : c.items = i :: rest) (hne : i ≠ .unlock .slots) :
    c.locked .slots = false := by
  by_contra hl
  obtain ⟨_, hhead⟩ := h.lock (Bool.eq_true_of_not_eq_false hl)
  rw [hi] at hhead
  exact hne (List.cons.inj hhead).1

/-- What is on the list has a count to take down. -/
theorem DrainInv.strong_pos {c : Conf n T K} (h : DrainInv h₀ outside c) {r : Resource T K}
    {rest : List (Item n T K)} (hi : c.items = .drop r :: rest) {t : T} (ht : r.target = some t) :
    0 < (c.heap.tasks t).strong := by
  rw [h.balance t, owed_cons hi, counts_of_target ht, if_pos rfl]
  omega

/-! ## Who dies -/

variable {s : Shared n T K} {rt : T}

variable [DecidableEq K]

theorem calm_step {c c' : Conf n T K} (h : Calm h₀ outside c) (hs : StepTo c c') :
    Calm h₀ outside c' := by
  have hinv := drainInv_step h.inv hs
  cases hs with
  | @unlock l rest hi =>
      refine ⟨hinv, h.slots, fun hl => ?_⟩
      -- the slab's lock is not held while the injector's is given back
      cases l with
      | slots => exact absurd hl (by simp)
      | injector =>
          have hheld : c.locked .slots = true := by simpa using hl
          exact absurd (h.unlocked hi (by simp) ▸ hheld) (by simp)
  | lower hi hr hm =>
      refine ⟨hinv, ?_, fun hl => absurd (h.unlocked hi (by simp) ▸ hl) (by simp)⟩
      intro k
      simp only [Heap.contents_setStrong]
      exact h.slots k
  | free hi hr hone =>
      refine ⟨hinv, ?_, fun hl => absurd (h.unlocked hi (by simp) ▸ hl) (by simp)⟩
      intro k
      simp only [Heap.contents_free]
      rw [Function.update_of_ne (by simp), Function.update_of_ne (by simp)]
      exact h.slots k
  | output hi hc =>
      refine ⟨hinv, ?_, fun hl => absurd (h.unlocked hi (by simp) ▸ hl) (by simp)⟩
      intro k
      simp only [Heap.contents_emptyCell]
      rw [Function.update_of_ne (by simp)]
      exact h.slots k
  -- the only step that takes the lock, and the next one gives it back
  | @slot k rest hi _ =>
      refine ⟨hinv, ?_, fun _ => ⟨rest, by simp only [h.slots k, List.map_nil, List.nil_append]⟩⟩
      intro k'
      simp only [Heap.contents_clearSlot]
      by_cases hk : k' = k
      · subst hk
        exact Function.update_self _ _ _
      · rw [Function.update_of_ne (by simp [hk])]
        exact h.slots k'
  | spawn hi _ => exact ⟨hinv, h.slots, fun hl => absurd (h.unlocked hi (by simp) ▸ hl) (by simp)⟩
  | clear hi =>
      refine ⟨hinv, ?_, fun hl => absurd (h.unlocked hi (by simp) ▸ hl) (by simp)⟩
      intro k
      simp only [Heap.contents_clearQueue]
      rw [Function.update_of_ne (by simp)]
      exact h.slots k

/-- Without wakers in the slab and destructors that spawn a teardown returns. -/
theorem WaitGraph.drops (h : WaitGraph s rt) (hnone : NoSpawns s.heap) : ∃ s', s.Drops s' := by
  have hcalm : Calm s.heap (outsideOf rt) s.opening :=
    ⟨h.sound.drainInv, h.noIo, fun hl => absurd hl (by simp [Shared.opening])⟩
  obtain ⟨d, hd⟩ : ∃ d, Drains s.opening d := by
    refine drains_of_progress (I := Calm s.heap (outsideOf rt)) (fun _ _ => calm_step) ?_ hcalm
    intro c i rest hc hi
    cases i with
    | unlock _ | clear _ =>
        exact step_isSome hi (fun t ht => absurd ht (by simp [Item.resource])) (by simp) (by simp)
    | drop r =>
        refine step_isSome hi ?_ (fun _ _ => hc.unlocked hi (by simp)) ?_
        · intro t ht
          exact hc.inv.strong_pos hi ht
        · rintro t heq
          -- what is to be spawned came from somewhere
          rcases hc.inv.source (.spawn t) (by rw [hi, heq]; exact List.mem_cons_self) with
            ⟨_, harc⟩ | ⟨p, hp, _⟩
          · exact absurd harc (by simp)
          · exact absurd hp (hnone p t)
  exact ⟨_, d, hd, rfl⟩

end

/-- A task awaits the handle of a queued one. -/
def awaiting : Shared 1 (Option Bool) Unit where
  heap :=
    { tasks
        | none => sharedArc 2
        | some true => task 2 (some (some false)) []
        | some false => task 1 none [.handle (some true)]
      slots := fun _ => { read := none, write := none }
      queues := sleeping [] }
  injector := [some true]

end Nanorun.Teardown
