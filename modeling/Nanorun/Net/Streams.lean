import Nanorun.Net.Sockets

/-!
# Bytes through sockets

`TcpStream::read` and `TcpStream::write` over `Sockets.lean`: the loops that try the system
call, and park in `ReadyFor` when it would block. Any number of calls on any number of
streams are polled, woken for other reasons, and dropped half-way, as `timeout` does, while
descriptors are closed and their numbers given out again.

A call keeps a token and a direction while it is parked, and no bytes. The kernel side is a
queue of received bytes and one of accepted bytes per socket, which change when the system
call is made; how many bytes a call moves, and when there is room, is open. `returned` and
`written` record, by stream object, what the calls have reported. What the reactor reports
of the queues is in `Ready.lean`.
-/

namespace Nanorun.Net

open Reactor Transition

namespace Streams

open Sockets (Kind Stage Watch Books)

/-- What `recv` or `send` returns. -/
inductive Answer where
  | bytes (n : Nat)
  | wouldBlock
  | error
  deriving DecidableEq, Repr

/-- How many bytes have been moved. -/
def Answer.count : Answer → Nat
  | .bytes n => n
  | .wouldBlock | .error => 0

/-- A call that is parked. -/
structure Parked where
  call : Nat
  /-- The task that polled it. -/
  task : Nat
  object : Nat
  future : ReadyFor
  /-- The task has been woken since. -/
  woken : Bool
  deriving DecidableEq, Repr

def Parked.wake (tasks : List Nat) (w : Parked) : Parked :=
  if w.task ∈ tasks then { w with woken := true } else w

structure World where
  /-- A waker is named by its task. -/
  sockets : Sockets.World Nat
  waiting : List Parked
  /-- The kernel's queues of each socket. -/
  received : Nat → List UInt8
  accepted : Nat → List UInt8
  /-- The peer has closed its direction. -/
  finished : Nat → Bool
  /-- There is room to send a byte. -/
  room : Nat → Bool
  /-- There is enough room for `EPOLLOUT`, a share of the whole buffer. -/
  writable : Nat → Bool
  /-- What has come in so far, and what the calls on each object have reported. -/
  arrived : Nat → List UInt8
  returned : Nat → List UInt8
  written : Nat → List UInt8

inductive Label where
  | sockets (a : Sockets.Label Nat)
  /-- A poll of `read` with a buffer of length `len`, or of `write`. -/
  | read (call i : Nat) (task : Nat) (len : Nat) (answer : Answer)
  | write (call i : Nat) (task : Nat) (buf : List UInt8) (answer : Answer)
  /-- A parked call is dropped. -/
  | cancel (call : Nat)
  /-- A task is woken for any other reason. -/
  | wake (task : Nat)
  | arrive (i : Nat) (bytes : List UInt8)
  | finish (i : Nat)
  | setRoom (i : Nat) (room writable : Bool)
  deriving DecidableEq, Repr

/-- What `recv` on `fd` may answer: 0 is the end of the stream. -/
def recvAnswers (s : World) (fd len : Nat) (answer : Answer) : Bool :=
  match s.sockets.fds fd, answer with
  | _, .error => true
  | some j, .bytes n =>
      decide (n ≤ len ∧ n ≤ (s.received j).length)
        && (decide (0 < n ∨ len = 0) || (s.received j).isEmpty && s.finished j)
  | some j, .wouldBlock => (s.received j).isEmpty && !s.finished j
  | none, _ => false

/-- What `send` on `fd` may answer: nothing to send is sent on a full socket too. -/
def sendAnswers (s : World) (fd : Nat) (buf : List UInt8) (answer : Answer) : Bool :=
  match s.sockets.fds fd, answer with
  | _, .error => true
  | some j, .bytes n => decide (n ≤ buf.length) && (buf.isEmpty || decide (0 < n) && s.room j)
  | some j, .wouldBlock => !buf.isEmpty && !s.room j
  | none, _ => false

/-- `recv` on `fd`: what it puts into the buffer leaves the queue. -/
def recv (s : World) (fd : Nat) (answer : Answer) : List UInt8 × World :=
  match s.sockets.fds fd with
  | some j =>
      ((s.received j).take answer.count,
        { s with received := Function.update s.received j ((s.received j).drop answer.count) })
  | none => ([], s)

/-- `send` on `fd`: what it takes from the buffer goes into the queue. -/
def send (s : World) (fd : Nat) (buf : List UInt8) (answer : Answer) : List UInt8 × World :=
  match s.sockets.fds fd with
  | some j =>
      (buf.take answer.count,
        { s with accepted := Function.update s.accepted j (s.accepted j ++ buf.take answer.count) })
  | none => ([], s)

/-- Where the answer is not a number, nothing moves. -/
theorem recv_none (s : World) (fd : Nat) {answer : Answer} (h : answer.count = 0) :
    recv s fd answer = ([], s) := by
  unfold recv
  split
  · simp [h]
  · rfl

theorem send_none (s : World) (fd : Nat) (buf : List UInt8) {answer : Answer}
    (h : answer.count = 0) : send s fd buf answer = ([], s) := by
  unfold send
  split
  · simp [h]
  · rfl

/-- A call is over, or parked anew; its `ReadyFor` has written to the slab. -/
def settle (s : World) (call task i : Nat) (r : Polled (Option ReadyFor) Nat) : World :=
  { s with
    sockets := { s.sockets with slots := r.slots }
    waiting := (r.future.map fun f =>
        { call := call, task := task, object := i, future := f, woken := false }).toList
      ++ s.waiting.filter fun w => w.call ≠ call }

/-- The poll gets to the system call: the future that the call is parked in is ready. -/
def reaches (s : World) (call task : Nat) : Bool :=
  (s.waiting.find? fun w => w.call = call).all fun w => (w.future.poll s.sockets.slots task).ready

/-- One poll of a call: the future it is parked in, then the system call. -/
def pollCall (s : World) (call key : Nat) (d : Direction) (task : Nat) (answer : Answer) :
    Polled (Option ReadyFor) Nat :=
  let awaiting := (s.waiting.find? fun w => w.call = call).map Parked.future
  ioPoll (key + 1) d awaiting (answer = .wouldBlock) s.sockets.slots task

/-- A call keeps to its stream and its direction. -/
def Keeps (s : World) (call i : Nat) (d : Direction) : Prop :=
  ∀ w ∈ s.waiting, w.call = call → w.object = i ∧ w.future.dir = d

instance decidableKeeps (s : World) (call i : Nat) (d : Direction) :
    Decidable (Keeps s call i d) :=
  inferInstanceAs (Decidable (∀ w ∈ s.waiting, _))

/-- No parked call borrows the socket that is dropped. The other calls that park, those of
`accept`, park on listeners. -/
def Unborrowed (s : World) : Sockets.Label Nat → Prop
  | .drop i _ => ∀ w ∈ s.waiting, w.object ≠ i
  | .park i _ _ => ∀ w ∈ s.waiting, w.object ≠ i
  | _ => True

instance decidableUnborrowed (s : World) : ∀ a : Sockets.Label Nat, Decidable (Unborrowed s a)
  | .drop _ _ | .park _ _ _ => inferInstanceAs (Decidable (∀ w ∈ s.waiting, _))
  | .socket _ _ _ | .accept _ _ _ _ | .go _ _ | .poll _ _ _ | .dispatch _ => .isTrue trivial

/-- The tasks that a dispatch wakes. -/
def wakes (s : World) : Sockets.Label Nat → List Nat
  | .dispatch events => (Reactor.dispatch s.sockets.slots events).2.map Taken.waker
  | _ => []

def next (s : World) : Label → Option World
  | .sockets a =>
      if Unborrowed s a then
        (Sockets.next s.sockets a).map fun sk =>
          { s with sockets := sk, waiting := s.waiting.map (Parked.wake (wakes s a)) }
      else none
  | .read call i task len answer =>
      match s.sockets.objects i with
      | .live .stream fd key =>
          if Keeps s call i .read ∧ recvAnswers s fd len answer = true then
            let r := pollCall s call key .read task answer
            let moved := if reaches s call task then recv s fd answer else ([], s)
            let s' := settle moved.2 call task i r
            some
              (if r.ready then
                { s' with
                  returned := Function.update s'.returned i (s'.returned i ++ moved.1) }
              else s')
          else none
      | _ => none
  | .write call i task buf answer =>
      match s.sockets.objects i with
      | .live .stream fd key =>
          if Keeps s call i .write ∧ sendAnswers s fd buf answer = true then
            let r := pollCall s call key .write task answer
            let moved := if reaches s call task then send s fd buf answer else ([], s)
            let s' := settle moved.2 call task i r
            some
              (if r.ready then
                { s' with written := Function.update s'.written i (s'.written i ++ moved.1) }
              else s')
          else none
      | _ => none
  | .cancel call => some { s with waiting := s.waiting.filter fun w => w.call ≠ call }
  | .wake task => some { s with waiting := s.waiting.map (Parked.wake [task]) }
  | .arrive i bytes =>
      if s.finished i then none
      else
        some { s with
          received := Function.update s.received i (s.received i ++ bytes)
          arrived := Function.update s.arrived i (s.arrived i ++ bytes) }
  | .finish i => some { s with finished := Function.update s.finished i true }
  | .setRoom i room writable =>
      if writable && !room then none
      else
        some { s with
          room := Function.update s.room i room
          writable := Function.update s.writable i writable }

def start : World where
  sockets := Sockets.start
  waiting := []
  received _ := []
  accepted _ := []
  finished _ := false
  room _ := false
  writable _ := false
  arrived _ := []
  returned _ := []
  written _ := []

def system : System World Label where
  init s := s = start
  step := next

/-! ## What a step can do -/

/-- The calls and the queues of every stream. -/
structure StreamsInv (s : World) : Prop where
  books : Books s.sockets
  /-- A parked call has its stream, and the stream's token. -/
  parked : ∀ w ∈ s.waiting, ∃ fd key, s.sockets.objects w.object = .live .stream fd key
    ∧ w.future = { token := key + 1, dir := w.future.dir, polled := true }
  /-- What has come in has been returned or is still queued. -/
  input : ∀ i, s.returned i ++ s.received i = s.arrived i
  /-- What has been reported has been accepted. -/
  output : ∀ i, s.written i = s.accepted i
  /-- `EPOLLOUT` is reported only where a byte has room. -/
  writable : ∀ i, s.writable i = true → s.room i = true

theorem streamsInv_start : StreamsInv start where
  books := Sockets.books_start
  parked := by intro w hw; exact absurd hw List.not_mem_nil
  input _ := rfl
  output _ := rfl
  writable i h := absurd h (by simp [start])

/-- What is parked has been polled, so its next poll gets to the system call. -/
theorem StreamsInv.reaches {s : World} (h : StreamsInv s) (call task : Nat) :
    reaches s call task = true := by
  unfold Streams.reaches
  cases hf : s.waiting.find? fun w => w.call = call with
  | none => rfl
  | some w =>
      obtain ⟨_, _, _, hw⟩ := h.parked w (List.mem_of_find?_eq_some hf)
      rw [Option.all_some, hw]
      rfl

/-- A call that would block parks; any other answer ends it. -/
theorem StreamsInv.pollCall_eq {s : World} (h : StreamsInv s) (call key : Nat) (d : Direction)
    (task : Nat) (answer : Answer) :
    pollCall s call key d task answer =
      if answer = .wouldBlock then
        { future := some { token := key + 1, dir := d, polled := true }
          slots := setWaker s.sockets.slots (key + 1) d task
          ready := false }
      else { future := none, slots := s.sockets.slots, ready := true } := by
  have hloop : pollCall s call key d task answer
      = ioLoop (key + 1) d (answer = .wouldBlock) s.sockets.slots task := by
    unfold pollCall
    cases hf : s.waiting.find? fun w => w.call = call with
    | none => rfl
    | some w =>
        obtain ⟨_, _, _, hw⟩ := h.parked w (List.mem_of_find?_eq_some hf)
        exact ioPoll_parked (by rw [hw]) _ _ _
  rw [hloop, ioLoop]
  by_cases hb : answer = .wouldBlock
  · simp [hb, ReadyFor.poll, ReadyFor.new]
  · simp [hb]

/-- The calls that stay parked when `call` is over. -/
def others (s : World) (call : Nat) : List Parked := s.waiting.filter fun w => w.call ≠ call

/-- What the system call of the step has answered. -/
def Label.answer : Label → Option Answer
  | .read _ _ _ _ answer | .write _ _ _ _ answer => some answer
  | _ => none

/-- The call that the step parks, its stream, its direction and its task. -/
def Label.blocked : Label → Option (Nat × Nat × Direction × Nat)
  | .read call i task _ .wouldBlock => some (call, i, .read, task)
  | .write call i task _ .wouldBlock => some (call, i, .write, task)
  | _ => none

inductive StepTo (s : World) : Label → World → Prop where
  | sockets {a : Sockets.Label Nat} {sk : Sockets.World Nat} : Unborrowed s a →
      Sockets.next s.sockets a = some sk →
      StepTo s (.sockets a)
        { s with sockets := sk, waiting := s.waiting.map (Parked.wake (wakes s a)) }
  | parks {a : Label} {call task i fd key : Nat} {d : Direction} :
      a.blocked = some (call, i, d, task) → s.sockets.objects i = .live .stream fd key →
      StepTo s a { s with
        sockets := { s.sockets with slots := setWaker s.sockets.slots (key + 1) d task }
        waiting :=
          { call := call, task := task, object := i, woken := false,
            future := { token := key + 1, dir := d, polled := true } } :: others s call }
  /-- A call fails, or is dropped. -/
  | ends {a : Label} {call : Nat} : (∀ n, a.answer ≠ some (.bytes n)) →
      StepTo s a { s with waiting := others s call }
  | reads {call i len n task : Nat} : n ≤ (s.received i).length →
      (n = 0 → 0 < len → s.received i = [] ∧ s.finished i = true) →
      StepTo s (.read call i task len (.bytes n)) { s with
        waiting := others s call
        received := Function.update s.received i ((s.received i).drop n)
        returned := Function.update s.returned i (s.returned i ++ (s.received i).take n) }
  | writes {call i n task : Nat} {buf : List UInt8} :
      StepTo s (.write call i task buf (.bytes n)) { s with
        waiting := others s call
        accepted := Function.update s.accepted i (s.accepted i ++ buf.take n)
        written := Function.update s.written i (s.written i ++ buf.take n) }
  | wake {task : Nat} :
      StepTo s (.wake task) { s with waiting := s.waiting.map (Parked.wake [task]) }
  | arrive {i : Nat} {bytes : List UInt8} :
      StepTo s (.arrive i bytes) { s with
        received := Function.update s.received i (s.received i ++ bytes)
        arrived := Function.update s.arrived i (s.arrived i ++ bytes) }
  | finish {i : Nat} :
      StepTo s (.finish i) { s with finished := Function.update s.finished i true }
  | setRoom {i : Nat} {room writable : Bool} : (writable = true → room = true) →
      StepTo s (.setRoom i room writable) { s with
        room := Function.update s.room i room
        writable := Function.update s.writable i writable }

/-- The descriptor of a stream stands for its own socket, whatever else had the number before. -/
theorem StreamsInv.own {s : World} (h : StreamsInv s) {i fd key : Nat} {kind : Kind}
    (hi : s.sockets.objects i = .live kind fd key) : s.sockets.fds fd = some i :=
  (h.books.fd_iff fd i).mpr (by rw [hi]; rfl)

theorem StreamsInv.read_spec {s s' : World} (h : StreamsInv s) {call i len : Nat} {task : Nat}
    {answer : Answer} (hs : next s (.read call i task len answer) = some s') :
    StepTo s (.read call i task len answer) s' := by
  simp only [next] at hs
  split at hs
  · rename_i fd key hi
    split at hs
    · rename_i hguard
      have hown := h.own hi
      rw [h.pollCall_eq, h.reaches, if_pos rfl] at hs
      cases answer with
      | wouldBlock =>
          rw [recv_none s fd rfl] at hs
          obtain rfl := Option.some.inj hs
          exact .parks rfl hi
      | error =>
          rw [recv_none s fd rfl, List.append_nil, Function.update_eq_self] at hs
          obtain rfl := Option.some.inj hs
          exact .ends (by simp [Label.answer])
      | bytes n =>
          have hans := hguard.2
          simp only [recvAnswers, hown, Bool.and_eq_true, Bool.or_eq_true, decide_eq_true_eq,
            List.isEmpty_iff] at hans
          obtain ⟨⟨_, hle⟩, hend⟩ := hans
          simp only [recv, hown, settle] at hs
          obtain rfl := Option.some.inj hs
          refine .reads hle fun h0 hlen => ?_
          rcases hend with hpos | hend
          · omega
          · exact hend
    · exact absurd hs (by simp)
  · exact absurd hs (by simp)

theorem StreamsInv.write_spec {s s' : World} (h : StreamsInv s) {call i : Nat} {task : Nat}
    {buf : List UInt8} {answer : Answer} (hs : next s (.write call i task buf answer) = some s') :
    StepTo s (.write call i task buf answer) s' := by
  simp only [next] at hs
  split at hs
  · rename_i fd key hi
    split at hs
    · have hown := h.own hi
      rw [h.pollCall_eq, h.reaches, if_pos rfl] at hs
      cases answer with
      | wouldBlock =>
          rw [send_none s fd buf rfl] at hs
          obtain rfl := Option.some.inj hs
          exact .parks rfl hi
      | error =>
          rw [send_none s fd buf rfl, List.append_nil, Function.update_eq_self] at hs
          obtain rfl := Option.some.inj hs
          exact .ends (by simp [Label.answer])
      | bytes n =>
          simp only [send, hown, settle] at hs
          obtain rfl := Option.some.inj hs
          exact .writes
    · exact absurd hs (by simp)
  · exact absurd hs (by simp)

theorem StreamsInv.next_spec {s s' : World} {a : Label} (h : StreamsInv s)
    (hs : next s a = some s') : StepTo s a s' := by
  cases a with
  | sockets a =>
      simp only [next] at hs
      split at hs
      · rename_i hfree
        obtain ⟨sk, hsk, rfl⟩ := Option.map_eq_some_iff.mp hs
        exact .sockets hfree hsk
      · exact absurd hs (by simp)
  | read call i task len answer => exact h.read_spec hs
  | write call i task buf answer => exact h.write_spec hs
  | cancel call =>
      obtain rfl := Option.some.inj hs
      exact .ends (by simp [Label.answer])
  | wake task =>
      obtain rfl := Option.some.inj hs
      exact .wake
  | arrive i bytes =>
      simp only [next] at hs
      split at hs
      · exact absurd hs (by simp)
      · obtain rfl := Option.some.inj hs
        exact .arrive
  | finish i =>
      obtain rfl := Option.some.inj hs
      exact .finish
  | setRoom i room writable =>
      simp only [next] at hs
      split at hs
      · exact absurd hs (by simp)
      · rename_i hok
        obtain rfl := Option.some.inj hs
        refine .setRoom fun hw => ?_
        simpa [hw] using hok

/-! ## The invariant -/

/-- A live socket stays as it is until it is dropped. -/
theorem live_kept {s s' : Sockets.World Nat} {a : Sockets.Label Nat} {i fd key : Nat} {kind : Kind}
    (hi : s.objects i = .live kind fd key) (hs : Sockets.next s a = some s')
    (hdrop : ∀ installed, a ≠ .drop i installed) : s'.objects i = .live kind fd key := by
  by_cases hsub : a.subject = some i
  · cases a with
    | drop j installed =>
        obtain rfl := Option.some.inj hsub
        exact absurd rfl (hdrop installed)
    | socket j _ _ | go j _ | poll j _ _ =>
        -- the others move sockets that are not live
        obtain rfl := Option.some.inj hsub
        simp [Sockets.next, Sockets.proceed, hi] at hs
    | accept l j _ _ =>
        obtain rfl := Option.some.inj hsub
        simp only [Sockets.next] at hs
        split at hs
        · simp [hi] at hs
        · exact absurd hs (by simp)
    | park _ _ _ | dispatch _ => exact absurd hsub (by simp [Sockets.Label.subject])
  · rw [Sockets.next_objects hs hsub]
    exact hi

/-- A woken call is the same call. -/
theorem mem_wake {tasks : List Nat} {ws : List Parked} {w : Parked}
    (h : w ∈ ws.map (Parked.wake tasks)) :
    ∃ v ∈ ws, w.call = v.call ∧ w.task = v.task ∧ w.object = v.object ∧ w.future = v.future
      ∧ (w.woken = false → v.woken = false ∧ v.task ∉ tasks) := by
  obtain ⟨v, hv, rfl⟩ := List.mem_map.mp h
  refine ⟨v, hv, ?_⟩
  unfold Parked.wake
  split
  · exact ⟨rfl, rfl, rfl, rfl, fun hw => absurd hw (by simp)⟩
  · rename_i hnot
    exact ⟨rfl, rfl, rfl, rfl, fun hw => ⟨hw, hnot⟩⟩

theorem streamsInv_step {s s' : World} {a : Label} (h : StreamsInv s)
    (hs : next s a = some s') : StreamsInv s' := by
  have hothers : ∀ call, ∀ w ∈ others s call, w ∈ s.waiting :=
    fun call w hw => (List.mem_filter.mp hw).1
  cases h.next_spec hs with
  | @sockets a sk hfree hsk =>
      refine ⟨Sockets.books_step h.books hsk, ?_, h.input, h.output, h.writable⟩
      intro w hw
      obtain ⟨v, hv, _, _, hobj, hfut, _⟩ := mem_wake hw
      obtain ⟨fd, key, hlive, heq⟩ := h.parked v hv
      rw [hobj, hfut]
      refine ⟨fd, key, live_kept hlive hsk ?_, heq⟩
      rintro installed rfl
      exact hfree v hv rfl
  | @parks _ call task i fd key d _ hi =>
      refine ⟨h.books.wakers (setWaker_owners _ _ _ _), ?_, h.input, h.output, h.writable⟩
      intro w hw
      rcases List.mem_cons.mp hw with rfl | hw
      · exact ⟨fd, key, hi, rfl⟩
      · exact h.parked w (hothers call w hw)
  | ends _ => exact ⟨h.books, fun w hw => h.parked w (hothers _ w hw), h.input, h.output, h.writable⟩
  | @reads call i len n task hle _ =>
      refine ⟨h.books, fun w hw => h.parked w (hothers call w hw), ?_, h.output, h.writable⟩
      intro j
      by_cases hj : j = i
      · subst hj
        simp only [Function.update_self]
        rw [List.append_assoc, List.take_append_drop]
        exact h.input j
      · simp only [Function.update_of_ne hj]
        exact h.input j
  | @writes call i n task buf =>
      refine ⟨h.books, fun w hw => h.parked w (hothers call w hw), h.input, ?_, h.writable⟩
      intro j
      by_cases hj : j = i
      · subst hj
        simp only [Function.update_self]
        rw [h.output j]
      · simp only [Function.update_of_ne hj]
        exact h.output j
  | @arrive i bytes =>
      refine ⟨h.books, h.parked, ?_, h.output, h.writable⟩
      intro j
      by_cases hj : j = i
      · subst hj
        simp only [Function.update_self]
        rw [← List.append_assoc, h.input j]
      · simp only [Function.update_of_ne hj]
        exact h.input j
  | wake =>
      refine ⟨h.books, ?_, h.input, h.output, h.writable⟩
      intro w hw
      obtain ⟨v, hv, _, _, hobj, hfut, _⟩ := mem_wake hw
      rw [hobj, hfut]
      exact h.parked v hv
  | finish => exact ⟨h.books, h.parked, h.input, h.output, h.writable⟩
  | @setRoom i room writable hok =>
      refine ⟨h.books, h.parked, h.input, h.output, ?_⟩
      intro j hj
      by_cases hji : j = i
      · subst hji
        simp only [Function.update_self] at hj ⊢
        exact hok hj
      · simp only [Function.update_of_ne hji] at hj ⊢
        exact h.writable j hj

theorem streamsInv_reachable {s : World} (h : system.Reachable s) : StreamsInv s :=
  h.invariant (I := StreamsInv) (by rintro _ rfl; exact streamsInv_start)
    (fun _ _ _ hi hs => streamsInv_step hi hs)

/--
**Bytes are neither lost, nor repeated, nor mixed up.**

In every run, on every stream: the bytes that its reads have returned, in order, followed by
those still in the kernel's queue for it, are those that came in; and the bytes that its
writes have reported are those the kernel took for it. It does not matter how often calls
are polled, which of them are dropped half-way, and which descriptors are closed and given
out again. A read into a buffer that is not empty returns 0 only after the peer has closed
its direction and everything that came in has been returned.
-/
theorem streams_intact {s : World} (h : system.Reachable s) :
    (∀ i, s.returned i ++ s.received i = s.arrived i ∧ s.written i = s.accepted i)
    ∧ ∀ call i task len s', system.step s (.read call i task len (.bytes 0)) = some s' →
        0 < len → s.finished i = true ∧ s'.returned i = s'.arrived i := by
  have hi := streamsInv_reachable h
  refine ⟨fun i => ⟨hi.input i, hi.output i⟩, ?_⟩
  intro call i task len s' hs hlen
  have hs : next s (.read call i task len (.bytes 0)) = some s' := hs
  have hi' := streamsInv_step hi hs
  cases hi.next_spec hs with
  | reads _ hend =>
      obtain ⟨hempty, hfin⟩ := hend rfl hlen
      refine ⟨hfin, ?_⟩
      have hin := hi'.input i
      simp only [Function.update_self, hempty, List.take_nil, List.drop_nil, List.append_nil] at hin ⊢
      exact hin
  | parks hpark _ => exact absurd hpark (by simp [Label.blocked])
  | ends hans => exact absurd rfl (hans 0)

/-- A read takes a part of what came in after an earlier one was dropped half-way; the stream
is closed, and the next connection gets its descriptor. -/
def reusedFd : List Label :=
  let bound : List (Sockets.Label Nat) :=
    [.socket 0 .listener 5, .go 0 .ok, .go 0 .ok, .go 0 .ok, .go 0 .ok]
  let accepted (i : Nat) : List (Sockets.Label Nat) := [.accept 0 i 6 true, .go i .ok, .go i .ok]
  let dropped : List (Sockets.Label Nat) := [.drop 1 true, .go 1 .ok, .go 1 .ok, .go 1 .ok]
  (bound ++ accepted 1).map .sockets
    ++ [.read 0 1 7 4 .wouldBlock, .cancel 0, .arrive 1 [1, 2, 3], .read 1 1 7 2 (.bytes 2)]
    ++ (dropped ++ accepted 2).map .sockets ++ [.arrive 2 [9], .read 2 2 7 4 (.bytes 1)]

theorem streams_intact_reusedFd :
    ∃ s, system.Reachable s ∧ s.sockets.fds 6 = some 2
      ∧ (s.returned 1 = [1, 2] ∧ s.arrived 1 = [1, 2, 3] ∧ s.returned 2 = [9])
      ∧ s.returned 1 ++ s.received 1 = s.arrived 1 := by
  have hreach : system.Reachable (system.exec start reusedFd) := System.Reachable.exec (.init rfl)
  exact ⟨_, hreach, by decide +kernel, by decide +kernel, ((streams_intact hreach).1 1).1⟩

end Streams

end Nanorun.Net
