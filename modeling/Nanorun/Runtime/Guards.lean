import Nanorun.Runtime.Context

/-!
# Guards on a call stack

What one step of a thread can do to its thread-locals and to the `Arc`s that its calls have.
A guard is installed where its thread-local is not set, so of each kind there is at most one
on a stack, and dropping it clears the thread-local for good reason. Unwinding drops the
guards like returning.
-/

namespace Nanorun.Runtime

namespace Context

/-! ## What the guards say -/

/-- The runtime that the guards of the call have set the thread-local for. -/
def Frame.holds (f : Frame) (k : Slot) : List Nat :=
  match f with
  | .worker r g _ => if k.index < g then [r] else []
  | .drop r .draining => if k = .ctx then [r] else []
  | _ => []

def Frame.isDrop : Frame → Bool
  | .drop _ _ => true
  | _ => false

/-- What stands above another call is a `Multi::drop`, made by other people's code in that. -/
def Above (c d : Call) : Prop := c.frame.isDrop = true ∧ d.frame.user = true

/-- The thread-locals against the guards on the stack. -/
structure Matches (th : Thread) : Prop where
  slots : ∀ k, (th.locals.get k).toList = th.stack.flatMap fun c => c.frame.holds k
  order : th.stack.Pairwise Above

theorem above_top {c c' : Call} {below : List Call} (h : (c :: below).Pairwise Above)
    (hd : c'.frame.isDrop = c.frame.isDrop) : (c' :: below).Pairwise Above := by
  obtain ⟨htop, hbelow⟩ := List.pairwise_cons.mp h
  refine List.pairwise_cons.mpr ⟨fun d hd' => ?_, hbelow⟩
  obtain ⟨hdrop, huser⟩ := htop d hd'
  exact ⟨hd.trans hdrop, huser⟩

theorem Frame.holds_unwind (f : Frame) (k : Slot) : f.unwind.holds k = f.holds k := by
  cases f with
  | drop r pc => cases pc <;> rfl
  | _ => rfl

theorem Frame.isDrop_unwind (f : Frame) : f.unwind.isDrop = f.isDrop := by
  cases f with
  | drop r pc => cases pc <;> rfl
  | _ => rfl

theorem Call.holds_catchUnwind (c : Call) (k : Slot) :
    c.catchUnwind.frame.holds k = c.frame.holds k := by
  unfold Call.catchUnwind
  split
  · cases c.frame <;> rfl
  · rfl

theorem Call.isDrop_catchUnwind (c : Call) : c.catchUnwind.frame.isDrop = c.frame.isDrop := by
  unfold Call.catchUnwind
  split
  · cases c.frame <;> rfl
  · rfl

theorem Matches.panic {th : Thread} (h : Matches th) : Matches th.panic := by
  obtain ⟨hslots, horder⟩ := h
  unfold Thread.panic
  split
  · exact ⟨hslots, horder⟩
  · rename_i c below hst
    rw [hst] at hslots horder
    refine ⟨fun k => ?_, above_top horder (Frame.isDrop_unwind _)⟩
    rw [hslots k]
    simp only [List.flatMap_cons, Call.panic, Frame.holds_unwind]

theorem Matches.catchUnwind {th : Thread} (h : Matches th) : Matches th.catchUnwind := by
  obtain ⟨hslots, horder⟩ := h
  unfold Thread.catchUnwind
  split
  · exact ⟨hslots, horder⟩
  · rename_i c below hst
    rw [hst] at hslots horder
    refine ⟨fun k => ?_, above_top horder (Call.isDrop_catchUnwind _)⟩
    rw [hslots k]
    simp only [List.flatMap_cons, Call.holds_catchUnwind]

/-- A call that holds nothing returns. -/
theorem Matches.leave {th : Thread} (h : Matches th) {c : Call} {below : List Call}
    (hst : th.stack = c :: below) (hc : ∀ k, c.frame.holds k = []) :
    Matches { th with stack := c.leave below } := by
  obtain ⟨hslots, horder⟩ := h
  rw [hst] at hslots horder
  cases below with
  | nil =>
      refine ⟨fun k => ?_, List.Pairwise.nil⟩
      have hk := hslots k
      rw [List.flatMap_cons, hc k] at hk
      exact hk
  | cons b below =>
      have hb : ∀ k, (if c.unwinding then b.panic else b).frame.holds k = b.frame.holds k := by
        intro k
        split
        · exact Frame.holds_unwind _ _
        · rfl
      have hdrop : (if c.unwinding then b.panic else b).frame.isDrop = b.frame.isDrop := by
        split
        · exact Frame.isDrop_unwind _
        · rfl
      refine ⟨fun k => ?_, above_top (List.pairwise_cons.mp horder).2 hdrop⟩
      have hk := hslots k
      rw [List.flatMap_cons, hc k, List.nil_append] at hk
      rw [hk]
      simp only [Call.leave, List.flatMap_cons, hb]

/-- A guard is installed: the thread-local was not set, so no other guard on the stack has it. -/
theorem Matches.installed {th : Thread} (h : Matches th) {c : Call} {below : List Call} {f : Frame}
    {l : Locals} {r : Nat} {k : Slot} (hst : th.stack = c :: below)
    (hl : th.locals.install r k = some l)
    (hf : ∀ k', f.holds k' = if k' = k then [r] else c.frame.holds k')
    (hd : f.isDrop = c.frame.isDrop) :
    Matches { stack := { c with frame := f } :: below, locals := l } := by
  obtain ⟨hslots, horder⟩ := h
  rw [hst] at hslots horder
  unfold Locals.install at hl
  split at hl
  · exact absurd hl (by simp)
  · rename_i hfree
    obtain rfl := Option.some.inj hl
    refine ⟨fun k' => ?_, above_top horder hd⟩
    have hk := hslots k'
    rw [List.flatMap_cons] at hk ⊢
    rw [Locals.get_set]
    simp only [hf k']
    by_cases heq : k' = k
    · subst heq
      have hnone : th.locals.get k' = none := by simpa using hfree
      rw [hnone] at hk
      have hbelow := (List.append_eq_nil_iff.mp hk.symm).2
      rw [if_pos rfl, if_pos rfl, hbelow]
      rfl
    · rw [if_neg heq, if_neg heq]
      exact hk

/-- A guard is dropped: it was the only one on the stack for its thread-local. -/
theorem Matches.dropped {th : Thread} (h : Matches th) {c : Call} {below : List Call} {f : Frame}
    {r : Nat} {k : Slot} (hst : th.stack = c :: below) (hc : c.frame.holds k = [r])
    (hf : ∀ k', f.holds k' = if k' = k then [] else c.frame.holds k')
    (hd : f.isDrop = c.frame.isDrop) :
    Matches { stack := { c with frame := f } :: below, locals := th.locals.set none k } := by
  obtain ⟨hslots, horder⟩ := h
  rw [hst] at hslots horder
  refine ⟨fun k' => ?_, above_top horder hd⟩
  have hk := hslots k'
  rw [List.flatMap_cons] at hk ⊢
  rw [Locals.get_set]
  simp only [hf k']
  by_cases heq : k' = k
  · subst heq
    rw [hc] at hk
    have hlen := congrArg List.length hk
    have hle : (th.locals.get k').toList.length ≤ 1 := by cases th.locals.get k' <;> simp
    rw [List.length_append, List.length_singleton] at hlen
    have hbelow := List.length_eq_zero_iff.mp (show (below.flatMap fun c => c.frame.holds k').length = 0 by omega)
    rw [if_pos rfl, if_pos rfl, hbelow]
    rfl
  · rw [if_neg heq, if_neg heq]
    exact hk

/-- The call goes on and its guards stay. -/
theorem Matches.goto {th : Thread} (h : Matches th) {c : Call} {below : List Call} {f : Frame}
    (hst : th.stack = c :: below) (hf : ∀ k, f.holds k = c.frame.holds k)
    (hd : f.isDrop = c.frame.isDrop) :
    Matches { th with stack := { c with frame := f } :: below } := by
  obtain ⟨hslots, horder⟩ := h
  rw [hst] at hslots horder
  refine ⟨fun k => ?_, above_top horder hd⟩
  rw [hslots k]
  simp only [List.flatMap_cons, hf]

/-! ## What a step can do -/

/-- The `Arc`s of `r` that the call has: the worker's own and that of its `Handle`, or that of
the `Multi`. -/
def Frame.arcs (r : Nat) : Frame → Nat
  | .outside => 0
  | .worker r' g _ => if r' = r then (if Slot.handle.index < g then 2 else 1) else 0
  | .drop r' _ => if r' = r then 1 else 0

def stackArcs (r : Nat) : List Call → Nat
  | [] => 0
  | c :: below => c.frame.arcs r + stackArcs r below

def Thread.arcs (r : Nat) (th : Thread) : Nat := stackArcs r th.stack

theorem Thread.arcs_cons {th : Thread} {c : Call} {below : List Call} (hst : th.stack = c :: below)
    (r : Nat) : th.arcs r = c.frame.arcs r + stackArcs r below := by
  rw [Thread.arcs, hst, stackArcs]

theorem Frame.arcs_unwind (f : Frame) (r : Nat) : f.unwind.arcs r = f.arcs r := by
  cases f with
  | drop r' pc => cases pc <;> rfl
  | _ => rfl

theorem Thread.arcs_panic (th : Thread) (r : Nat) : th.panic.arcs r = th.arcs r := by
  unfold Thread.panic
  split
  · rfl
  · rename_i c below hst
    rw [Thread.arcs_cons hst]
    simp only [Thread.arcs, stackArcs, Call.panic, Frame.arcs_unwind]

theorem Thread.arcs_catchUnwind (th : Thread) (r : Nat) : th.catchUnwind.arcs r = th.arcs r := by
  have hcatch : ∀ c : Call, c.catchUnwind.frame.arcs r = c.frame.arcs r := by
    intro c
    unfold Call.catchUnwind
    split
    · cases c.frame <;> rfl
    · rfl
  unfold Thread.catchUnwind
  split
  · rfl
  · rename_i c below hst
    rw [Thread.arcs_cons hst]
    simp only [Thread.arcs, stackArcs, hcatch]

theorem Call.arcs_leave (c : Call) (below : List Call) (r : Nat) :
    stackArcs r (c.leave below) = stackArcs r below := by
  cases below with
  | nil => rfl
  | cons b below =>
      have hb : (if c.unwinding then b.panic else b).frame.arcs r = b.frame.arcs r := by
        split
        · exact Frame.arcs_unwind _ _
        · rfl
      simp only [Call.leave, stackArcs, hb]

theorem stackArcs_le {r : Nat} {stack : List Call} {c : Call} (hc : c ∈ stack) :
    c.frame.arcs r ≤ stackArcs r stack := by
  induction stack with
  | nil => exact absurd hc List.not_mem_nil
  | cons b below ih =>
      rw [stackArcs]
      rcases List.mem_cons.mp hc with rfl | hc
      · omega
      · have := ih hc
        omega

/-- What a step of the thread does to the `Arc`s it has. -/
inductive Effect (th : Thread) : Outcome → Prop where
  | stays {th' : Thread} : (∀ r, th'.arcs r = th.arcs r) →
      Effect th { thread := th', acquires := none, releases := none }
  | acquires {th' : Thread} {r : Nat} : 0 < th.arcs r →
      (∀ r', th'.arcs r' = th.arcs r' + if r' = r then 1 else 0) →
      Effect th { thread := th', acquires := some r, releases := none }
  | releases {th' : Thread} {r : Nat} :
      (∀ r', th.arcs r' = th'.arcs r' + if r' = r then 1 else 0) →
      Effect th { thread := th', acquires := none, releases := some r }

/-- The next guard of a worker. -/
theorem holds_next {r g : Nat} {k : Slot} (hk : g = k.index) (b b' : Bool) (k' : Slot) :
    (Frame.worker r (g + 1) b).holds k'
      = if k' = k then [r] else (Frame.worker r g b').holds k' := by
  subst hk
  cases k <;> cases k' <;> rfl

theorem holds_prev {r g : Nat} {k : Slot} (hk : g = k.index) (b b' : Bool) (k' : Slot) :
    (Frame.worker r g b).holds k'
      = if k' = k then [] else (Frame.worker r (g + 1) b').holds k' := by
  subst hk
  cases k <;> cases k' <;> rfl

/-- Only the second guard has an `Arc`. -/
theorem arcs_next {r g : Nat} {k : Slot} (hk : g = k.index) (b b' : Bool) (r' : Nat) :
    (Frame.worker r (g + 1) b).arcs r'
      = (Frame.worker r g b').arcs r' + if k = .handle ∧ r' = r then 1 else 0 := by
  subst hk
  by_cases hr : r = r'
  · subst hr
    cases k <;> simp [Frame.arcs, Slot.index]
  · cases k <;> simp [Frame.arcs, hr, Ne.symm hr]

theorem advance_spec {joined : Nat → Bool} {th : Thread} {o : Outcome} (h : Matches th)
    (ho : advance joined th = some o) : Matches o.thread ∧ Effect th o := by
  unfold advance at ho
  split at ho
  · exact absurd ho (by simp)
  · rename_i c below hst
    have hgoto : ∀ (f : Frame) (l : Locals) (r : Nat),
        ({ stack := { c with frame := f } :: below, locals := l } : Thread).arcs r
          = f.arcs r + stackArcs r below := fun f l r => rfl
    have hleave : ∀ r, ({ th with stack := c.leave below } : Thread).arcs r
        = stackArcs r below := fun r => Call.arcs_leave c below r
    dsimp only at ho
    split at ho
    case h_1 hf =>
      obtain rfl := Option.some.inj ho
      refine ⟨h.leave hst (by intro k; rw [hf]; rfl), .stays fun r => ?_⟩
      rw [hleave, Thread.arcs_cons hst, hf]
      exact (Nat.zero_add _).symm
    case h_2 r g hf =>
      split at ho
      · rename_i k hk
        have hk := Slot.nth_eq_some.mp hk
        split at ho
        · rename_i l hl
          obtain rfl := Option.some.inj ho
          refine ⟨h.installed hst hl (fun k' => by rw [hf]; exact holds_next hk _ _ k')
            (by rw [hf]; rfl), ?_⟩
          by_cases hhandle : k = .handle
          · rw [if_pos hhandle]
            refine .acquires ?_ fun r' => ?_
            · rw [Thread.arcs_cons hst, hf]
              simp only [Frame.arcs, if_true]
              split <;> omega
            · rw [hgoto, Thread.arcs_cons hst, hf, arcs_next hk false false]
              simp only [hhandle, true_and]
              omega
          · rw [if_neg hhandle]
            refine .stays fun r' => ?_
            rw [hgoto, Thread.arcs_cons hst, hf, arcs_next hk false false]
            simp only [hhandle, false_and, if_false, Nat.add_zero]
        · obtain rfl := Option.some.inj ho
          exact ⟨h.panic, .stays fun r' => Thread.arcs_panic th r'⟩
      · obtain rfl := Option.some.inj ho
        refine ⟨h.goto hst (fun k => by rw [hf]; rfl) (by rw [hf]; rfl), .stays fun r' => ?_⟩
        rw [hgoto, Thread.arcs_cons hst, hf]
        rfl
    case h_3 r hf =>
      obtain rfl := Option.some.inj ho
      refine ⟨h.leave hst (by intro k; rw [hf]; rfl), .releases fun r' => ?_⟩
      rw [hleave, Thread.arcs_cons hst, hf]
      simp only [Frame.arcs, Nat.not_lt_zero, if_false, eq_comm (a := r)]
      omega
    case h_4 r g hf =>
      split at ho
      · rename_i k hk
        have hk := Slot.nth_eq_some.mp hk
        obtain rfl := Option.some.inj ho
        refine ⟨h.dropped (r := r) hst ?_ (fun k' => by rw [hf]; exact holds_prev hk _ _ k')
          (by rw [hf]; rfl), ?_⟩
        · rw [hf, holds_next hk true true, if_pos rfl]
        · by_cases hhandle : k = .handle
          · rw [if_pos hhandle]
            refine .releases fun r' => ?_
            rw [hgoto, Thread.arcs_cons hst, hf, arcs_next hk true true]
            simp only [hhandle, true_and]
            omega
          · rw [if_neg hhandle]
            refine .stays fun r' => ?_
            rw [hgoto, Thread.arcs_cons hst, hf, arcs_next hk true true]
            simp only [hhandle, false_and, if_false, Nat.add_zero]
      · exact absurd ho (by simp)
    case h_5 r hf =>
      split at ho
      · split at ho
        · rename_i l hl
          obtain rfl := Option.some.inj ho
          refine ⟨h.installed (k := .ctx) hst hl (fun k' => by rw [hf]; cases k' <;> rfl)
            (by rw [hf]; rfl), .stays fun r' => ?_⟩
          rw [hgoto, Thread.arcs_cons hst, hf]
          rfl
        · obtain rfl := Option.some.inj ho
          exact ⟨h.panic, .stays fun r' => Thread.arcs_panic th r'⟩
      · exact absurd ho (by simp)
    case h_6 r hf =>
      obtain rfl := Option.some.inj ho
      refine ⟨h.dropped (r := r) hst (by rw [hf]; rfl) (fun k' => by rw [hf]; cases k' <;> rfl)
        (by rw [hf]; rfl), .stays fun r' => ?_⟩
      rw [hgoto, Thread.arcs_cons hst, hf]
      rfl
    case h_7 r hf =>
      obtain rfl := Option.some.inj ho
      refine ⟨h.leave hst (by intro k; rw [hf]; rfl), .releases fun r' => ?_⟩
      rw [hleave, Thread.arcs_cons hst, hf]
      simp only [Frame.arcs, eq_comm (a := r)]
      omega

end Context

end Nanorun.Runtime
