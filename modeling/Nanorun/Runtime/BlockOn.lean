import Nanorun.Lib.Measure
import Nanorun.Task.Join

/-!
# `block_on`

`Runtime::block_on`: the thread spawns the future and polls the `JoinHandle` in a loop, with a
waker that unparks the thread, and `thread::park` between the polls. The task is the one of
`Task/Model.lean`, with everything that wakers, workers and queues do to it; here the handle
belongs to one thread, and that thread has a park token. An unpark sets the token, whoever it
comes from, and `park` returns only with the token and takes it.

The assertion that the thread is no worker comes after the spawn: a worker that calls
`block_on` panics and drops the handle, and the task runs on without it.
-/

namespace Nanorun.Runtime

open Bits Pool Transition

namespace BlockOn

variable {V : Type} [DecidableEq V]

structure Caller (V : Type) where
  /-- Every join waker is the thread's `ThreadWaker`. -/
  world : Task.World V Unit
  /-- The thread's park token. -/
  token : Bool

inductive Label (V : Type) where
  /-- The task, its wakers and its workers. -/
  | task (l : Task.Label V Unit)
  /-- The next step of the thread in `block_on_handle`. -/
  | main
  /-- Somebody else unparks the thread. -/
  | unpark
  deriving DecidableEq

/-- `ThreadWaker::wake` -/
def unparks : Task.Label V Unit → Bool
  | .thread (.wakeJoin _ _) _ => true
  | _ => false

/-- What the thread does next to its handle, and the token after it. -/
def op (worker : Bool) (c : Caller V) : Option (Task.HandleOp Unit × Bool) :=
  match c.world.task.handle with
  -- on a worker the assertion fails, and the handle unwinds
  | .idle none => some (if worker then .drop else .poll (), c.token)
  | .idle (some _) => some (if c.token then .poll () else .park, false)
  | .parked _ _ => if c.token then some (.unpark, false) else none
  | .spawning | .yielded _ | .dropped | .panicked => none
  | _ => some (.step, c.token)

def next (worker : Bool) (c : Caller V) : Label V → Option (Caller V)
  | .task (.handle _) => none
  | .task l =>
      (c.world.step l).map fun w => { world := w, token := c.token || unparks l }
  | .main =>
      (op worker c).bind fun r =>
        (c.world.step (.handle r.1)).map fun w => { world := w, token := r.2 }
  | .unpark => some { c with token := true }

/-- The thread may have been unparked before. -/
def system (V : Type) [DecidableEq V] (worker : Bool) : System (Caller V) (Label V) where
  init c := c.world = Task.World.spawnRaw
  step := next worker

/-! ## What a step can do -/

/-- The handle is in a call to `poll` or `drop`. -/
def inCall : Task.Handle V Unit → Bool
  | .spawning | .idle _ | .parked _ _ | .yielded _ | .dropped | .panicked => false
  | _ => true

/-- The outcomes of a step of the thread, by where its handle stands. -/
inductive MainStep (worker : Bool) (t : Task.RawTask V Unit) (token : Bool) :
    Task.Handle V Unit → Task.RawTask V Unit → Bool → Prop where
  /-- The assertion fails. -/
  | refuse : worker = true →
      MainStep worker t token (.idle none) { t with handle := .dropFetch } token
  | first : worker = false →
      MainStep worker t token (.idle none) { t with handle := .load1 () } token
  /-- `park` returns at once. -/
  | again {last : Unit × Nat} : token = true →
      MainStep worker t token (.idle (some last)) { t with handle := .load1 () } false
  | park {since : Nat} : token = false →
      MainStep worker t token (.idle (some ((), since))) { t with handle := .parked () since } false
  | unpark {since : Nat} : token = true →
      MainStep worker t token (.parked () since) { t with handle := .load1 () } false
  | step {d : Task.Handle V Unit} {t' : Task.RawTask V Unit} : inCall d = true →
      Task.HandleStep t d t' → MainStep worker t token d t' token

theorem main_spec {worker : Bool} {c c' : Caller V} (hs : next worker c .main = some c') :
    c'.world.frames = c.world.frames
    ∧ (∃ o, c.world.step (.handle o) = some c'.world)
    ∧ MainStep worker c.world.task c.token c.world.task.handle c'.world.task c'.token := by
  obtain ⟨⟨o, token⟩, hop, hmap⟩ := Option.bind_eq_some_iff.mp hs
  obtain ⟨w, hw, rfl⟩ := Option.map_eq_some_iff.mp hmap
  refine ⟨?_, ⟨o, hw⟩, ?_⟩
  · obtain ⟨t, _, rfl⟩ := Option.map_eq_some_iff.mp hw
    rfl
  obtain ⟨t, ht, rfl⟩ := Option.map_eq_some_iff.mp hw
  have hstep := Task.handleNext_step ht
  unfold op at hop
  split at hop
  case h_1 hh =>
    obtain ⟨rfl, rfl⟩ := Prod.mk.inj (Option.some.inj hop)
    rw [hh]
    cases worker with
    | true =>
        simp only [if_true, Task.handleNext, hh, Option.some.injEq] at ht
        obtain rfl := ht
        exact .refuse rfl
    | false =>
        simp only [Bool.false_eq_true, if_false, Task.handleNext, hh, Option.some.injEq] at ht
        obtain rfl := ht
        exact .first rfl
  case h_2 last hh =>
    obtain ⟨rfl, rfl⟩ := Prod.mk.inj (Option.some.inj hop)
    rw [hh]
    cases htok : c.token with
    | true =>
        simp only [htok, if_true, Task.handleNext, hh, Option.some.injEq] at ht
        obtain rfl := ht
        exact .again rfl
    | false =>
        simp only [htok, Bool.false_eq_true, if_false, Task.handleNext, hh, Option.some.injEq] at ht
        obtain rfl := ht
        exact .park rfl
  case h_3 _ since hh =>
    split at hop
    · rename_i htok
      obtain ⟨rfl, rfl⟩ := Prod.mk.inj (Option.some.inj hop)
      simp only [Task.handleNext, hh, Option.some.injEq] at ht
      obtain rfl := ht
      rw [hh]
      exact .unpark htok
    · exact absurd hop (by simp)
  case h_8 hnone hsome hpark hspawn hyield hdrop hpanic =>
    obtain ⟨rfl, rfl⟩ := Prod.mk.inj (Option.some.inj hop)
    refine .step ?_ hstep
    cases hh : c.world.task.handle with
    | spawning => exact absurd hh hspawn
    | idle last =>
        cases last with
        | none => exact absurd hh hnone
        | some last => exact absurd hh (hsome last)
    | parked w since => exact absurd hh (hpark w since)
    | yielded v => exact absurd hh (hyield v)
    | dropped => exact absurd hh hdrop
    | panicked => exact absurd hh hpanic
    | _ => rfl
  all_goals exact absurd hop (by simp)

theorem task_spec {worker : Bool} {c c' : Caller V} {l : Task.Label V Unit}
    (hs : next worker c (.task l) = some c') :
    (∀ o, l ≠ .handle o) ∧ c.world.step l = some c'.world
    ∧ c'.token = (c.token || unparks l) := by
  have hl : ∀ o, l ≠ .handle o := by
    rintro o rfl
    exact absurd hs (by simp [next])
  have hmap : (c.world.step l).map
      (fun w => ({ world := w, token := c.token || unparks l } : Caller V)) = some c' := by
    cases l with
    | handle o => exact absurd rfl (hl o)
    | _ => exact hs
  obtain ⟨w, hw, rfl⟩ := Option.map_eq_some_iff.mp hmap
  exact ⟨hl, hw, rfl⟩

/-! ## The task meanwhile -/

/-- The rest of the program does nothing to the handle, but for the end of `Spawner::spawn`,
and wakes it only by an unpark. -/
theorem task_step {w w' : Task.World V Unit} {l : Task.Label V Unit}
    (hi : Task.TaskInv w.task w.frames) (hl : ∀ op, l ≠ .handle op) (hs : w.step l = some w') :
    (w'.task.handle = w.task.handle
      ∨ w.task.handle = .spawning ∧ w'.task.handle = .idle none)
    ∧ (unparks l = false → w'.task.woken = w.task.woken) := by
  cases l with
  | thread f ch =>
      rw [Task.World.step] at hs
      split at hs
      · rename_i hmem
        obtain ⟨⟨t', f'⟩, hr, rfl⟩ := Option.map_eq_some_iff.mp hs
        cases Task.frameNext_step hr with
        | spawnJoin => exact ⟨.inr ⟨hi.refs.spawning_of hmem rfl, rfl⟩, fun _ => rfl⟩
        | wakeJoin => exact ⟨.inl rfl, fun hu => absurd hu (by simp [unparks])⟩
        | _ => exact ⟨.inl rfl, fun _ => rfl⟩
      · exact absurd hs (by simp)
  | pop | steal =>
      rw [Task.World.step, Task.World.dequeue] at hs
      split at hs
      · obtain rfl := Option.some.inj hs
        exact ⟨.inl rfl, fun _ => rfl⟩
      · exact absurd hs (by simp)
  | drain =>
      rw [Task.World.step, Task.World.dequeue] at hs
      split at hs
      · split at hs
        · obtain rfl := Option.some.inj hs
          exact ⟨.inl rfl, fun _ => rfl⟩
        · exact absurd hs (by simp)
      · exact absurd hs (by simp)
  | shutdown =>
      obtain rfl := Option.some.inj hs
      exact ⟨.inl rfl, fun _ => rfl⟩
  | wake wk | wakeByRef wk | cloneWaker wk | dropWaker wk =>
      rw [Task.World.step] at hs
      split at hs
      · obtain rfl := Option.some.inj hs
        exact ⟨.inl rfl, fun _ => rfl⟩
      · exact absurd hs (by simp)
  | handle op => exact absurd rfl (hl op)

/-- A completed task stays completed, and nobody completes it again. -/
theorem settled_step {w w' : Task.World V Unit} {l : Task.Label V Unit}
    (hi : Task.TaskInv w.task w.frames) (h : w.Settled) (hs : w.step l = some w') : w'.Settled := by
  obtain ⟨hc, hlate⟩ := h
  have hstep := Task.step_worldStep hs
  unfold Task.World.Settled
  revert hstep hi hc hlate
  generalize w.task = t
  generalize w.frames = fs
  generalize w'.task = t'
  generalize w'.frames = fs'
  intro hi hc hlate hstep
  cases hstep with
  | @thread _ f f' rest hf =>
      have hmem := Multiset.mem_cons_self f rest
      rw [weight_cons] at hlate
      obtain ⟨hf0, hrest⟩ := Nat.add_eq_zero_iff.mp hlate
      rw [weight_cons, hrest, Nat.add_zero]
      cases hf with
      | setComplete =>
          have hnot := hi.bits.not_complete hmem rfl
          rw [hc] at hnot
          exact absurd hnot (by simp)
      | clearRunning | writeEmpty | takeJoin _ | takeNone _ | wakeJoin =>
          exact absurd hf0 (by simp [Task.Frame.late])
      | casWon _ | resched _ | park _ | wokeBusy _ | wokeIdle _ => exact ⟨by simp [hc], rfl⟩
      | schedUnpark | release =>
          exact ⟨hc, Task.back_ind (P := fun g : Task.Frame V Unit => g.late = 0) _ rfl fun _ => rfl⟩
      | _ => exact ⟨hc, rfl⟩
  | dequeue _ hd =>
      cases hd with
      | _ => exact ⟨hc, by rw [weight_cons, hlate]; rfl⟩
  | wake _ _ | wakeByRef _ => exact ⟨hc, by rw [weight_cons, hlate]; rfl⟩
  | handle hh =>
      refine ⟨?_, hlate⟩
      generalize t.handle = d at hh
      cases hh with
      | setBit | dropFetchDone _ | dropFetch _ => simp [hc]
      | _ => exact hc
  | _ => exact ⟨hc, hlate⟩

/-! ## The invariant -/

/-- Where the handle of the thread can stand: a worker drops it at once, and no other thread
drops it. -/
def stands (worker : Bool) : Task.Handle V Unit → Bool
  | .spawning | .idle none => true
  | .dropFetch | .dropCell | .dropRef | .dropped => worker
  | .panicked => false
  | _ => !worker

/-- The calling thread against the task that it waits for. -/
structure Inv (worker : Bool) (c : Caller V) : Prop where
  reach : (Task.taskSystem V Unit).Reachable c.world
  /-- A worker only drops its handle. -/
  stands : stands worker c.world.task.handle = true
  /-- A wake since the last poll is still in the token. -/
  token : ∀ w since, c.world.task.handle.waits = some (w, since) →
    since < c.world.task.woken.length → c.token = true

theorem inv_task {worker : Bool} {c c' : Caller V} {l : Task.Label V Unit} (h : Inv worker c)
    (hs : next worker c (.task l) = some c') : Inv worker c' := by
  obtain ⟨hl, hw, htoken⟩ := task_spec hs
  obtain ⟨hhandle, hwoken⟩ := task_step (Task.taskInv_reachable h.reach) hl hw
  refine ⟨Task.reachable_step h.reach hw, ?_, ?_⟩
  · rcases hhandle with heq | ⟨_, heq⟩
    · rw [heq]; exact h.stands
    · rw [heq]; rfl
  · intro x since hwaits hlt
    rcases hhandle with heq | ⟨_, heq⟩
    · rw [htoken]
      cases hu : unparks l with
      | true => simp
      | false =>
          rw [hwoken hu] at hlt
          rw [heq] at hwaits
          simp [h.token x since hwaits hlt]
    · rw [heq] at hwaits
      exact absurd hwaits (by simp [Task.Handle.waits])

theorem inv_main {worker : Bool} {c c' : Caller V} (h : Inv worker c)
    (hs : next worker c .main = some c') : Inv worker c' := by
  obtain ⟨_, ⟨o, hw⟩, hmain⟩ := main_spec hs
  have hreach := Task.reachable_step h.reach hw
  have hcalm := (Task.taskInv_reachable hreach).cell.calm.2
  have hstands := h.stands
  have htoken := h.token
  refine ⟨hreach, ?_, ?_⟩
  · generalize c.world.task.handle = d at hmain hstands
    generalize c'.world.task = t' at hmain hcalm ⊢
    generalize c'.token = token' at hmain
    cases hmain with
    | refuse hwk | first hwk => rw [hwk]; rfl
    | again | park | unpark => exact hstands
    | step hcall hstep =>
        cases hstep with
        | takeLoadPanic _ | takeCellPanic _ => exact absurd rfl hcalm
        | poll | drop | park | unpark => exact absurd hcall (by simp [inCall])
        | _ => exact hstands
  · generalize c.world.task.handle = d at hmain htoken
    generalize c'.world.task = t' at hmain ⊢
    generalize c'.token = token' at hmain ⊢
    intro x since hwaits hlt
    cases hmain with
    | park htok =>
        rw [htoken x since hwaits hlt] at htok
        exact absurd htok (by simp)
    | refuse | first | again | unpark => exact absurd hwaits (by simp [Task.Handle.waits])
    | step hcall hstep =>
        cases hstep with
        | load2 hc =>
            -- the poll that returns `Pending` has missed no wake
            obtain ⟨_, rfl⟩ := Prod.mk.inj (Option.some.inj hwaits)
            exact absurd hlt (Nat.lt_irrefl _)
        | poll | drop | park | unpark => exact absurd hcall (by simp [inCall])
        | _ => exact absurd hwaits (by simp [Task.Handle.waits])

theorem inv_step {worker : Bool} {c c' : Caller V} {a : Label V} (h : Inv worker c)
    (hs : next worker c a = some c') : Inv worker c' := by
  cases a with
  | task l => exact inv_task h hs
  | main => exact inv_main h hs
  | unpark =>
      obtain rfl := Option.some.inj hs
      exact ⟨h.reach, h.stands, fun _ _ _ _ => rfl⟩

theorem inv_reachable {worker : Bool} {c : Caller V} (h : (system V worker).Reachable c) :
    Inv worker c := by
  refine h.invariant (I := Inv worker) ?_ fun _ _ _ hi hs => inv_step hi hs
  intro c hc
  have hc : c.world = Task.World.spawnRaw := hc
  refine ⟨by rw [hc]; exact .init rfl, by rw [hc]; rfl, ?_⟩
  intro w since hwaits
  rw [hc] at hwaits
  exact absurd hwaits (by simp [Task.World.spawnRaw, Task.Handle.waits])

/-! ## After the task -/

/-- Steps that the thread takes at most, once the task is complete. -/
def stepsLeft : Task.Handle V Unit → Nat
  | .install _ => 7
  | .setBit _ => 6
  | .spawning | .idle _ | .parked _ _ | .load2 _ => 5
  | .load1 _ => 4
  | .takeLoad | .dropFetch => 3
  | .takeCell | .dropCell => 2
  | .dropRaw _ | .dropRef => 1
  | .yielded _ | .dropped | .panicked => 0

/-- What the thread waits for has been put into the token. -/
theorem Inv.token_of_settled {worker : Bool} {c : Caller V} (h : Inv worker c)
    (hset : c.world.Settled) (since : Nat) (hwaits : c.world.task.handle.waits = some ((), since)) :
    c.token = true := by
  obtain ⟨hc, hlate⟩ := hset
  refine h.token () since hwaits ?_
  rcases (Task.joinInv_reachable h.reach).promised hc () since hwaits with
    ⟨_, _, hg, _⟩ | ⟨_, hg, _⟩ | ⟨_, hg⟩ | hg
  · exact absurd (eq_zero_of_weight hg hlate) (by simp [Task.Frame.late])
  · exact absurd (eq_zero_of_weight hg hlate) (by simp [Task.Frame.late])
  · exact absurd (eq_zero_of_weight hg hlate) (by simp [Task.Frame.late])
  · have hpos := List.length_pos_of_mem hg
    rw [List.length_drop] at hpos
    omega

theorem main_lowers {worker : Bool} {c c' : Caller V} (h : Inv worker c) (hset : c.world.Settled)
    (hs : next worker c .main = some c') :
    1 + stepsLeft c'.world.task.handle ≤ stepsLeft c.world.task.handle := by
  obtain ⟨_, _, hmain⟩ := main_spec hs
  have htoken := h.token_of_settled hset
  have hc := hset.1
  generalize c.world.task.handle = d at hmain htoken ⊢
  generalize c'.world.task = t' at hmain ⊢
  generalize c'.token = token' at hmain
  cases hmain with
  | park hnot =>
      rw [htoken _ rfl] at hnot
      exact absurd hnot (by simp)
  | refuse | first | again | unpark => simp [stepsLeft]
  | step hcall hstep =>
      cases hstep with
      | load1 hn | load2 hn =>
          rw [hc] at hn
          exact absurd hn (by simp)
      | poll | drop | park | unpark => exact absurd hcall (by simp [inCall])
      | _ => simp [stepsLeft]

def own : Label V → Bool
  | .main => true
  | _ => false

/-- The steps that are left pay for the thread's own, whatever the others do. -/
theorem pays (worker : Bool) :
    (system V worker).Pays own (fun c => Inv worker c ∧ c.world.Settled)
      fun c => stepsLeft c.world.task.handle := by
  rintro c a c' ⟨hi, hset⟩ hs
  have hs : next worker c a = some c' := hs
  refine ⟨⟨inv_step hi hs, ?_⟩, ?_⟩
  · cases a with
    | task l =>
        obtain ⟨_, hw, _⟩ := task_spec hs
        exact settled_step (Task.taskInv_reachable hi.reach) hset hw
    | main =>
        obtain ⟨_, ⟨o, hw⟩, _⟩ := main_spec hs
        exact settled_step (Task.taskInv_reachable hi.reach) hset hw
    | unpark =>
        obtain rfl := Option.some.inj hs
        exact hset
  · cases a with
    | task l =>
        obtain ⟨hl, hw, _⟩ := task_spec hs
        rcases (task_step (Task.taskInv_reachable hi.reach) hl hw).1 with heq | ⟨hold, heq⟩
        · simp [own, heq]
        · simp [own, heq, hold, stepsLeft]
    | main => exact main_lowers hi hset hs
    | unpark =>
        obtain rfl := Option.some.inj hs
        simp [own]

/-- A thread that cannot go on. -/
theorem Inv.stuck {worker : Bool} {c : Caller V} (h : Inv worker c)
    (hs : next worker c .main = none) :
    c.world.task.handle = .spawning
    ∨ (worker = false ∧ ∃ v, c.world.task.handle = .yielded v)
    ∨ (worker = true ∧ c.world.task.handle = .dropped)
    ∨ (worker = false ∧ c.token = false ∧ ∃ since, c.world.task.handle = .parked () since) := by
  have hstands := h.stands
  have hnone : ∀ o token, op worker c = some (o, token) → Task.handleNext c.world.task o = none := by
    intro o token hop
    simpa [next, hop, Task.World.step] using hs
  cases hh : c.world.task.handle with
  | spawning => exact .inl rfl
  | idle last =>
      cases last with
      | none =>
          have := hnone _ _ (by rw [op, hh])
          cases worker <;> simp [Task.handleNext, hh] at this
      | some last =>
          have := hnone _ _ (by rw [op, hh])
          cases htok : c.token <;> simp [Task.handleNext, hh, htok] at this
  | parked w since =>
      rw [hh] at hstands
      have hw : worker = false := by simpa [BlockOn.stands] using hstands
      cases htok : c.token with
      | true =>
          have := hnone .unpark false (by simp [op, hh, htok])
          simp [Task.handleNext, hh] at this
      | false => exact .inr (.inr (.inr ⟨hw, rfl, since, rfl⟩))
  | yielded v =>
      rw [hh] at hstands
      exact .inr (.inl ⟨by simpa [BlockOn.stands] using hstands, v, rfl⟩)
  | dropped =>
      rw [hh] at hstands
      exact .inr (.inr (.inl ⟨hstands, rfl⟩))
  | panicked =>
      rw [hh] at hstands
      exact absurd hstands (by simp [BlockOn.stands])
  | takeCell =>
      have := hnone .step c.token (by rw [op, hh])
      simp only [Task.handleNext, hh] at this
      split at this <;> exact absurd this (by simp)
  | _ =>
      have := hnone .step c.token (by rw [op, hh])
      simp [Task.handleNext, hh] at this

/-- What a handle has yielded is what the future returned. -/
theorem Inv.yielded {worker : Bool} {c : Caller V} (h : Inv worker c) {v : V}
    (hh : c.world.task.handle = .yielded v) : c.world.task.returned = [v] := by
  have hout := Task.outInv_reachable h.reach
  have hle := hout.returned_le (Task.taskInv_reachable h.reach)
  have hcons := hout.conserved
  rw [hout.moved, hh] at hcons
  have hmem : v ∈ c.world.task.returned := by
    rw [← Multiset.mem_coe, hcons]
    simp [Task.Handle.taken]
  obtain ⟨x, hx⟩ := List.length_eq_one_iff.mp (Nat.le_antisymm hle (List.length_pos_of_mem hmem))
  rw [hx] at hmem ⊢
  rw [List.mem_singleton.mp hmem]

/--
**`block_on` returns what the future returned, soon after the task is done.**

In every run, whatever wakers and workers do to the task and whoever else unparks the
thread: if the thread cannot go on, then it is still in `spawn`, or it has returned the
output of the future, or it sleeps with no token and the completing worker has yet to see
to the join waker. Once that is done, the thread takes at most seven more steps, and what it
ends with is the output. A worker that calls `block_on` never sleeps: it spawns, drops the
handle and panics.
-/
theorem block_on_returns {worker : Bool} {c : Caller V} (h : (system V worker).Reachable c) :
    ((system V worker).step c .main = none →
      c.world.task.handle = .spawning
      ∨ (worker = false ∧ ∃ v, c.world.task.handle = .yielded v ∧ c.world.task.returned = [v])
      ∨ (worker = true ∧ c.world.task.handle = .dropped)
      ∨ (worker = false ∧ c.token = false ∧ ¬ c.world.Settled
          ∧ ∃ since, c.world.task.handle = .parked () since))
    ∧ (c.world.Settled → ∀ as c', (system V worker).run c as = some c' →
        as.countP own ≤ 7 ∧ c'.world.Settled) := by
  have hi := inv_reachable h
  refine ⟨fun hs => ?_, fun hset as c' hr => ?_⟩
  · rcases hi.stuck hs with hh | ⟨hw, v, hh⟩ | ⟨hw, hh⟩ | ⟨hw, htok, since, hh⟩
    · exact .inl hh
    · exact .inr (.inl ⟨hw, v, hh, hi.yielded hh⟩)
    · exact .inr (.inr (.inl ⟨hw, hh⟩))
    · refine .inr (.inr (.inr ⟨hw, htok, fun hset => ?_, since, hh⟩))
      rw [hi.token_of_settled hset since (by rw [hh]; rfl)] at htok
      exact absurd htok (by simp)
  · obtain ⟨⟨_, hset'⟩, hle⟩ := (pays worker).count_le ⟨hi, hset⟩ hr
    have hseven : stepsLeft c.world.task.handle ≤ 7 := by
      cases c.world.task.handle <;> simp [stepsLeft]
    exact ⟨by omega, hset'⟩

/-- The thread polls, is unparked for nothing, polls again and sleeps; then the task completes. -/
def asleep : List (Label Nat) :=
  [.task (.thread .spawnPush .go), .task (.thread .spawnJoin .go), .main, .main, .main, .main, .main,
   .unpark, .main, .main, .main, .main, .main, .main]
  ++ ([.pop, .thread .popped .go,
    .thread (.cas (Task.notified ||| Task.joinInterest ||| Task.joinWaker)) .go,
    .thread .mkWaker .go, .thread (.matchStage 0) .go, .thread (.polling 0) (.ready 7),
    .thread (.writeReady 0 7) .go, .thread (.setComplete 0) .go,
    .thread (.clearRunning 0
      (Task.joinInterest ||| Task.joinWaker ||| Task.running ||| Task.complete)) .go,
    .thread (.takeJoin 0) .go, .thread (.wakeJoin 0 ()) .go] : List (Task.Label Nat Unit)).map .task

def start : Caller Nat where
  world := Task.World.spawnRaw
  token := false

theorem block_on_returns_asleep :
    ∃ c c', (system Nat false).Reachable c ∧ c.world.task.handle = .parked () 0
      ∧ (system Nat false).run c (.replicate 5 .main) = some c'
      ∧ (List.replicate 5 (.main : Label Nat)).countP own ≤ 7
      ∧ c'.world.task.handle = .yielded 7 ∧ c'.world.task.returned = [7] := by
  have hreach : (system Nat false).Reachable ((system Nat false).exec start asleep) :=
    System.Reachable.exec (.init rfl)
  have hset : ((system Nat false).exec start asleep).world.Settled :=
    ⟨by decide +kernel, by decide +kernel⟩
  have hsome : ((system Nat false).run ((system Nat false).exec start asleep)
      (.replicate 5 .main)).isSome = true := by
    decide +kernel
  have hr := (Option.getD_of_ne_none (Option.isSome_iff_ne_none.mp hsome)
    ((system Nat false).exec start asleep)).symm
  exact ⟨_, _, hreach, by decide +kernel, hr, ((block_on_returns hreach).2 hset _ _ hr).1,
    by decide +kernel, by decide +kernel⟩

end BlockOn

end Nanorun.Runtime
