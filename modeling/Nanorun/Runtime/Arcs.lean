import Nanorun.Runtime.Guards

/-!
# Contexts and the runtimes behind them

The `Arc`s of a `Shared` are those of its `Multi`, of `Handle`s and `Spawner`s, and of the
calls on the stacks: a worker has its own, and a second one in the `Handle` it has installed.
A thread-local that is set was set by a call that has an `Arc`, so what it points to is
there.

The destructors that run inside `Multi::drop` find a reactor and no driver; that is the thread
`dropping` of `Executor/Destructors.lean`.
-/

namespace Nanorun.Runtime

open Pool Transition

namespace Context

/-! ## The invariant -/

/-- A `Shared` with an `Arc` has been made, and is not freed. -/
structure Kept (w : World) : Prop where
  freed : ∀ r, w.freed r = true → w.strong r = 0
  unborn : ∀ r, w.born r = false → w.strong r = 0

theorem Kept.acquire {w : World} (h : Kept w) {r : Nat} (hpos : 0 < w.strong r) :
    Kept (w.acquire r) := by
  have hne : ∀ {r'}, w.strong r' = 0 → r' ≠ r := by
    intro r' hzero heq
    rw [heq] at hzero
    omega
  refine ⟨fun r' hf => ?_, fun r' hb => ?_⟩
  · exact (Function.update_of_ne (hne (h.freed r' hf)) _ _).trans (h.freed r' hf)
  · exact (Function.update_of_ne (hne (h.unborn r' hb)) _ _).trans (h.unborn r' hb)

theorem Kept.release {w : World} (h : Kept w) (r : Nat) : Kept (w.release r) := by
  refine ⟨fun r' hf => ?_, fun r' hb => ?_⟩
  · by_cases hr : r' = r
    · subst hr
      have hlast : w.freed r' = true ∨ w.strong r' = 1 := by
        simpa [World.release] using hf
      have hone : w.strong r' ≤ 1 := by
        rcases hlast with hfreed | hone
        · have := h.freed r' hfreed
          omega
        · omega
      show Function.update w.strong r' (w.strong r' - 1) r' = 0
      rw [Function.update_self]
      omega
    · have hf' : w.freed r' = true := by simpa [World.release, hr] using hf
      exact (Function.update_of_ne hr _ _).trans (h.freed r' hf')
  · have hzero := h.unborn r' hb
    by_cases hr : r' = r
    · subst hr
      show Function.update w.strong r' (w.strong r' - 1) r' = 0
      rw [Function.update_self]
      omega
    · exact (Function.update_of_ne hr _ _).trans hzero

/-- The thread-locals and the counts. -/
structure Inv (w : World) : Prop where
  /-- On every thread the locals are what its stack installed. -/
  threads : ∀ th ∈ w.threads, Matches th
  /-- Every `Arc` is that of a `Multi`, of a `Handle` or `Spawner`, or of a call. -/
  count : ∀ r, w.strong r
    = (w.owned r).toNat + w.handles r + weight (Thread.arcs r) w.threads
  kept : Kept w

theorem inv_start : Inv start where
  threads := by intro th hth; exact absurd hth (Multiset.notMem_zero th)
  count _ := rfl
  kept := ⟨fun r hr => absurd hr (by simp [start]), fun _ _ => rfl⟩

theorem weight_replace {w : World} {th : Thread} (hmem : th ∈ w.threads) (th' : Thread)
    (g : Thread → Nat) :
    weight g (w.replace th th').threads + g th = weight g w.threads + g th' := by
  have hsplit := congrArg (weight g) (Multiset.cons_erase hmem)
  rw [weight_cons] at hsplit
  show weight g (th' ::ₘ w.threads.erase th) + g th = _
  rw [weight_cons]
  omega

theorem matches_replace {w : World} (h : ∀ th ∈ w.threads, Matches th) (th : Thread) {th' : Thread}
    (h' : Matches th') : ∀ u ∈ (w.replace th th').threads, Matches u := by
  intro u hu
  rcases Multiset.mem_cons.mp hu with rfl | hu
  · exact h'
  · exact h u (Multiset.mem_of_mem_erase hu)

/-- Whoever has an `Arc` keeps the `Shared`. -/
theorem Inv.arcs_le {w : World} (h : Inv w) {th : Thread} (hmem : th ∈ w.threads) (r : Nat) :
    th.arcs r ≤ w.strong r := by
  have hcount := h.count r
  have hle := le_weight (g := Thread.arcs r) hmem
  omega

theorem Inv.replaced {w : World} (h : Inv w) {th th' : Thread} (hmem : th ∈ w.threads)
    (h' : Matches th') (harcs : ∀ r, th'.arcs r = th.arcs r) : Inv (w.replace th th') where
  threads := matches_replace h.threads th h'
  count := by
    intro r
    have hcount := h.count r
    have hweight := weight_replace hmem th' (Thread.arcs r)
    rw [harcs r] at hweight
    show w.strong r = (w.owned r).toNat + w.handles r + weight (Thread.arcs r) (w.replace th th').threads
    omega
  kept := ⟨h.kept.freed, h.kept.unborn⟩

theorem Inv.acquired {w : World} (h : Inv w) {th th' : Thread} {r : Nat} (hmem : th ∈ w.threads)
    (h' : Matches th') (hpos : 0 < th.arcs r)
    (harcs : ∀ r', th'.arcs r' = th.arcs r' + if r' = r then 1 else 0) :
    Inv ((w.replace th th').acquire r) := by
  have hstrong := h.arcs_le hmem r
  have hkept : Kept (w.replace th th') := ⟨h.kept.freed, h.kept.unborn⟩
  refine ⟨matches_replace h.threads th h', fun r' => ?_,
    hkept.acquire (show 0 < w.strong r by omega)⟩
  have hcount := h.count r'
  have hweight := weight_replace hmem th' (Thread.arcs r')
  rw [harcs r'] at hweight
  show Function.update w.strong r (w.strong r + 1) r'
    = (w.owned r').toNat + w.handles r' + weight (Thread.arcs r') (w.replace th th').threads
  by_cases hr : r' = r
  · subst hr
    rw [Function.update_self]
    rw [if_pos rfl] at hweight
    omega
  · rw [Function.update_of_ne hr]
    rw [if_neg hr] at hweight
    omega

theorem Inv.released {w : World} (h : Inv w) {th th' : Thread} {r : Nat} (hmem : th ∈ w.threads)
    (h' : Matches th') (harcs : ∀ r', th.arcs r' = th'.arcs r' + if r' = r then 1 else 0) :
    Inv ((w.replace th th').release r) := by
  have hkept : Kept (w.replace th th') := ⟨h.kept.freed, h.kept.unborn⟩
  refine ⟨matches_replace h.threads th h', fun r' => ?_, hkept.release r⟩
  have hcount := h.count r'
  have hweight := weight_replace hmem th' (Thread.arcs r')
  rw [harcs r'] at hweight
  show Function.update w.strong r (w.strong r - 1) r'
    = (w.owned r').toNat + w.handles r' + weight (Thread.arcs r') (w.replace th th').threads
  by_cases hr : r' = r
  · subst hr
    rw [Function.update_self]
    rw [if_pos rfl] at hweight
    omega
  · rw [Function.update_of_ne hr]
    rw [if_neg hr] at hweight
    omega

theorem Inv.advanced {w : World} (h : Inv w) {th : Thread} {o : Outcome} (hmem : th ∈ w.threads)
    (h' : Matches o.thread) (he : Effect th o) :
    Inv (((w.replace th o.thread).optional World.acquire o.acquires).optional World.release
      o.releases) := by
  cases he with
  | stays harcs => exact h.replaced hmem h' harcs
  | acquires hpos harcs => exact h.acquired hmem h' hpos harcs
  | releases harcs => exact h.released hmem h' harcs

theorem matches_start (r : Nat) : Matches (Thread.start r) where
  slots k := by cases k <;> rfl
  order := List.pairwise_singleton _ _

theorem matches_application : Matches Thread.application where
  slots k := by cases k <;> rfl
  order := List.pairwise_singleton _ _

/-- A thread begins to drop a `Multi`. -/
theorem Matches.call {th : Thread} (h : Matches th) (huser : th.user = true) (r : Nat) :
    Matches { th with stack := { frame := .drop r .joining, unwinding := false } :: th.stack } := by
  refine ⟨fun k => h.slots k, List.pairwise_cons.mpr ⟨fun d hd => ⟨rfl, ?_⟩, h.order⟩⟩
  cases hst : th.stack with
  | nil =>
      rw [hst] at hd
      exact absurd hd List.not_mem_nil
  | cons top below =>
      have horder := h.order
      rw [hst] at hd horder
      rcases List.mem_cons.mp hd with rfl | hd
      · simpa [Thread.user, hst] using huser
      · exact ((List.pairwise_cons.mp horder).1 d hd).2

/-- What a thread-local is set for, some call on the stack has an `Arc` of. -/
theorem Matches.arcs_pos {th : Thread} (h : Matches th) {k : Slot} {r : Nat}
    (hk : th.locals.get k = some r) : 0 < th.arcs r := by
  have hmem : r ∈ th.stack.flatMap fun c => c.frame.holds k := by
    rw [← h.slots k, hk]
    exact List.mem_singleton_self r
  obtain ⟨c, hc, hr⟩ := List.mem_flatMap.mp hmem
  have hpos : 0 < c.frame.arcs r := by
    unfold Frame.holds at hr
    split at hr
    · rename_i r' g b hf
      split at hr
      · rw [List.mem_singleton.mp hr, hf]
        simp only [Frame.arcs, if_true]
        split <;> omega
      · exact absurd hr List.not_mem_nil
    · rename_i r' hf
      split at hr
      · rw [List.mem_singleton.mp hr, hf]
        simp [Frame.arcs]
      · exact absurd hr List.not_mem_nil
    · exact absurd hr List.not_mem_nil
  exact Nat.lt_of_lt_of_le hpos (stackArcs_le hc)

/-- A `Handle` or `Spawner` is cloned, for somebody who has one. -/
theorem Inv.cloned {w : World} (h : Inv w) {r : Nat} (hpos : 0 < w.strong r) :
    Inv { w.acquire r with handles := Function.update w.handles r (w.handles r + 1) } := by
  have hkept := h.kept.acquire hpos
  refine ⟨h.threads, fun r' => ?_, ⟨hkept.freed, hkept.unborn⟩⟩
  have hcount := h.count r'
  show Function.update w.strong r (w.strong r + 1) r' = (w.owned r').toNat
    + Function.update w.handles r (w.handles r + 1) r' + weight (Thread.arcs r') w.threads
  by_cases hr : r' = r
  · subst hr
    rw [Function.update_self, Function.update_self]
    omega
  · rw [Function.update_of_ne hr, Function.update_of_ne hr]
    exact hcount

theorem Inv.handleReleased {w : World} (h : Inv w) {r : Nat} (hpos : 0 < w.handles r) :
    Inv { w.release r with handles := Function.update w.handles r (w.handles r - 1) } := by
  have hkept := h.kept.release r
  refine ⟨h.threads, fun r' => ?_, ⟨hkept.freed, hkept.unborn⟩⟩
  have hcount := h.count r'
  show Function.update w.strong r (w.strong r - 1) r' = (w.owned r').toNat
    + Function.update w.handles r (w.handles r - 1) r' + weight (Thread.arcs r') w.threads
  by_cases hr : r' = r
  · subst hr
    rw [Function.update_self, Function.update_self]
    omega
  · rw [Function.update_of_ne hr, Function.update_of_ne hr]
    exact hcount

/-- `Multi::new`, with its workers. -/
theorem Inv.created {w : World} (h : Inv w) {r : Nat} (hborn : w.born r = false) (n : Nat) (ok : Bool) :
    Inv { w with
      born := Function.update w.born r true
      strong := Function.update w.strong r (n + ok.toNat)
      freed := Function.update w.freed r (decide (n + ok.toNat = 0))
      owned := Function.update w.owned r ok
      threads := .replicate n (Thread.start r) + w.threads } := by
  have hzero := h.kept.unborn r hborn
  refine ⟨fun th hth => ?_, fun r' => ?_, ⟨fun r' hf => ?_, fun r' hb => ?_⟩⟩
  · rcases Multiset.mem_add.mp hth with hnew | hold
    · rw [Multiset.eq_of_mem_replicate hnew]
      exact matches_start r
    · exact h.threads th hold
  · have hcount := h.count r'
    have hweight : weight (Thread.arcs r') (.replicate n (Thread.start r) + w.threads)
        = n * (Thread.start r).arcs r' + weight (Thread.arcs r') w.threads := by
      simp [weight]
    show Function.update w.strong r (n + ok.toNat) r' = (Function.update w.owned r ok r').toNat
      + w.handles r' + weight (Thread.arcs r') (.replicate n (Thread.start r) + w.threads)
    rw [hweight]
    by_cases hr : r' = r
    · subst hr
      have hone : (Thread.start r').arcs r' = 1 := by
        simp [Thread.arcs, stackArcs, Thread.start, Frame.arcs]
      rw [Function.update_self, Function.update_self, hone]
      omega
    · have hnone : (Thread.start r).arcs r' = 0 := by
        simp [Thread.arcs, stackArcs, Thread.start, Frame.arcs, Ne.symm hr]
      rw [Function.update_of_ne hr, Function.update_of_ne hr, hnone]
      omega
  · show Function.update w.strong r (n + ok.toNat) r' = 0
    by_cases hr : r' = r
    · subst hr
      rw [Function.update_self]
      simpa using hf
    · rw [Function.update_of_ne hr]
      exact h.kept.freed r' (by simpa [hr] using hf)
  · have hr : r' ≠ r := by
      rintro rfl
      exact absurd hb (by simp)
    show Function.update w.strong r (n + ok.toNat) r' = 0
    rw [Function.update_of_ne hr]
    exact h.kept.unborn r' (by simpa [hr] using hb)

/-- The `Arc` of the `Multi` goes to the call that drops it. -/
theorem Inv.dropping {w : World} (h : Inv w) {th : Thread} {r : Nat} (hmem : th ∈ w.threads)
    (huser : th.user = true) (howned : w.owned r = true) :
    Inv { w.replace th { th with
        stack := { frame := .drop r .joining, unwinding := false } :: th.stack } with
      owned := Function.update w.owned r false } := by
  refine ⟨matches_replace h.threads th ((h.threads th hmem).call huser r), fun r' => ?_,
    ⟨h.kept.freed, h.kept.unborn⟩⟩
  have hcount := h.count r'
  have hweight := weight_replace hmem { th with
    stack := { frame := .drop r .joining, unwinding := false } :: th.stack } (Thread.arcs r')
  have harcs : ({ th with stack := { frame := .drop r .joining, unwinding := false } :: th.stack }
      : Thread).arcs r' = (if r = r' then 1 else 0) + th.arcs r' := rfl
  rw [harcs] at hweight
  show w.strong r' = (Function.update w.owned r false r').toNat + w.handles r'
    + weight (Thread.arcs r') (w.replace th _).threads
  by_cases hr : r' = r
  · subst hr
    rw [howned, Bool.toNat_true] at hcount
    rw [if_pos rfl] at hweight
    rw [Function.update_self, Bool.toNat_false]
    omega
  · rw [if_neg (Ne.symm hr)] at hweight
    rw [Function.update_of_ne hr]
    omega

theorem inv_step {w w' : World} {a : Label} (h : Inv w) (hs : next w a = some w') : Inv w' := by
  cases a with
  | advance th =>
      simp only [next] at hs
      split at hs
      · rename_i hmem
        obtain ⟨o, ho, rfl⟩ := Option.map_eq_some_iff.mp hs
        obtain ⟨h', he⟩ := advance_spec (h.threads th hmem) ho
        exact h.advanced hmem h' he
      · exact absurd hs (by simp)
  | panic th =>
      simp only [next] at hs
      split at hs
      · rename_i hmem
        obtain rfl := Option.some.inj hs
        exact h.replaced hmem (h.threads th hmem).panic th.arcs_panic
      · exact absurd hs (by simp)
  | catchUnwind th =>
      simp only [next] at hs
      split at hs
      · rename_i hok
        obtain rfl := Option.some.inj hs
        exact h.replaced hok.1 (h.threads th hok.1).catchUnwind th.arcs_catchUnwind
      · exact absurd hs (by simp)
  | create th r n ok =>
      simp only [next] at hs
      split at hs
      · rename_i hok
        obtain ⟨hmem, _, hborn, _⟩ := hok
        obtain rfl := Option.some.inj hs
        refine (h.replaced hmem ?_ ?_).created hborn n ok
        · cases ok with
          | true => exact h.threads th hmem
          | false => exact (h.threads th hmem).panic
        · cases ok with
          | true => exact fun _ => rfl
          | false => exact th.arcs_panic
      · exact absurd hs (by simp)
  | drop th r =>
      simp only [next] at hs
      split at hs
      · rename_i hok
        obtain rfl := Option.some.inj hs
        exact h.dropping hok.1 hok.2.1 hok.2.2
      · exact absurd hs (by simp)
  | current th =>
      simp only [next] at hs
      split at hs
      · rename_i hok
        obtain ⟨r, hr, rfl⟩ := Option.map_eq_some_iff.mp hs
        have hpos := (h.threads th hok.1).arcs_pos (k := .handle) hr
        exact h.cloned (Nat.lt_of_lt_of_le hpos (h.arcs_le hok.1 r))
      · exact absurd hs (by simp)
  | clone r =>
      simp only [next] at hs
      split at hs
      · rename_i hok
        obtain rfl := Option.some.inj hs
        refine h.cloned ?_
        have hcount := h.count r
        rcases hok with howned | hhandle
        · rw [howned, Bool.toNat_true] at hcount
          omega
        · omega
      · exact absurd hs (by simp)
  | release r =>
      simp only [next] at hs
      split at hs
      · rename_i hpos
        obtain rfl := Option.some.inj hs
        exact h.handleReleased hpos
      · exact absurd hs (by simp)
  | thread =>
      obtain rfl := Option.some.inj hs
      refine ⟨fun th hth => ?_, fun r => ?_, ⟨h.kept.freed, h.kept.unborn⟩⟩
      · rcases Multiset.mem_cons.mp hth with rfl | hth
        · exact matches_application
        · exact h.threads th hth
      · have hcount := h.count r
        show w.strong r = (w.owned r).toNat + w.handles r
          + weight (Thread.arcs r) (Thread.application ::ₘ w.threads)
        rw [weight_cons, hcount]
        simp [Thread.arcs, stackArcs, Thread.application, Frame.arcs]

theorem inv_reachable {w : World} (h : system.Reachable w) : Inv w :=
  h.invariant (I := Inv) (by rintro _ rfl; exact inv_start) fun _ _ _ hi hs => inv_step hi hs

/-! ## What a thread can count on -/

/-- What a guard on the stack has installed is what the thread-local holds. -/
theorem Matches.get_of_holds {th : Thread} (h : Matches th) {c : Call} (hc : c ∈ th.stack) {k : Slot}
    {r : Nat} (hr : r ∈ c.frame.holds k) : th.locals.get k = some r := by
  have hmem : r ∈ (th.locals.get k).toList := by
    rw [h.slots k]
    exact List.mem_flatMap.mpr ⟨c, hc, hr⟩
  simpa using hmem

theorem Frame.holds_isDrop {f : Frame} (hd : f.isDrop = true) {k : Slot} (hk : k ≠ .ctx) :
    f.holds k = [] := by
  cases f with
  | drop r pc => cases pc <;> simp [Frame.holds, hk]
  | _ => exact absurd hd (by simp [Frame.isDrop])

/-- Other people's code has all the guards around it, or none but the reactor's. -/
theorem Frame.holds_user {f : Frame} (hu : f.user = true) (hctx : f.holds .ctx = []) (k : Slot) :
    f.holds k = [] := by
  cases f with
  | outside => rfl
  | drop r pc => cases pc <;> first | rfl | exact absurd hctx (by simp [Frame.holds])
  | worker r g leaving =>
      have hlt : Slot.ctx.index < g := by
        by_contra hle
        have hnone : Slot.nth g = none := by simpa [Frame.user] using hu
        simp only [Slot.index, Nat.not_lt] at hle
        rcases (show g = 0 ∨ g = 1 ∨ g = 2 by omega) with rfl | rfl | rfl <;>
          exact absurd hnone (by simp [Slot.nth])
      exact absurd hctx (by simp [Frame.holds, hlt])

/-- A `Multi::drop` that drains is in no runtime but its own, and on no worker. -/
theorem Matches.draining {th : Thread} (h : Matches th) {c : Call} (hc : c ∈ th.stack) {r : Nat}
    (hf : c.frame = .drop r .draining) :
    th.locals = { isWorker := none, handle := none, ctx := some r, driver := none } := by
  have hself : c.frame.holds .ctx = [r] := by rw [hf]; simp [Frame.holds]
  have hctx : th.locals.get .ctx = some r := h.get_of_holds hc (by rw [hself]; simp)
  obtain ⟨above, below, hst⟩ := List.append_of_mem hc
  have hslots := h.slots
  have horder := h.order
  rw [hst] at hslots horder
  obtain ⟨_, htail, habove⟩ := List.pairwise_append.mp horder
  have hone := hslots .ctx
  rw [hctx, List.flatMap_append, List.flatMap_cons, hself] at hone
  have hlen := congrArg List.length hone
  simp only [Option.toList_some, List.length_append, List.length_singleton] at hlen
  have hbelow := List.length_eq_zero_iff.mp
    (show (below.flatMap fun c => c.frame.holds .ctx).length = 0 by omega)
  have hother : ∀ k, k ≠ .ctx → th.locals.get k = none := by
    intro k hk
    have hnil : (above ++ c :: below).flatMap (fun c => c.frame.holds k) = [] := by
      refine List.flatMap_eq_nil_iff.mpr fun d hd => ?_
      rcases List.mem_append.mp hd with hd | hd
      · exact Frame.holds_isDrop (habove d hd c (List.mem_cons_self ..)).1 hk
      · rcases List.mem_cons.mp hd with rfl | hd
        · exact Frame.holds_isDrop (by rw [hf]; rfl) hk
        · have huser := ((List.pairwise_cons.mp htail).1 d hd).2
          exact Frame.holds_user huser (List.flatMap_eq_nil_iff.mp hbelow d hd) k
    have hk' := hslots k
    rw [hnil] at hk'
    simpa using hk'
  have hw := hother .isWorker (by simp)
  have hh := hother .handle (by simp)
  have hd := hother .driver (by simp)
  generalize th.locals = l at hctx hw hh hd
  cases l
  simp only [Locals.get] at hctx hw hh hd
  rw [hctx, hw, hh, hd]

theorem Frame.mem_holds_worker {r r' g : Nat} {b : Bool} {k : Slot} :
    r ∈ (Frame.worker r' g b).holds k ↔ k.index < g ∧ r = r' := by
  simp only [Frame.holds]
  by_cases hg : k.index < g
  · simp [hg]
  · simp [hg]

/-- Where the driver is installed, everything is. -/
theorem Matches.onWorker {th : Thread} (h : Matches th) {r : Nat}
    (hr : th.locals.driver = some r) :
    th.locals = { isWorker := some r, handle := some r, ctx := some r, driver := some r } := by
  have hmem : r ∈ th.stack.flatMap fun c => c.frame.holds .driver := by
    rw [← h.slots .driver]
    simp [Locals.get, hr]
  obtain ⟨c, hc, hcr⟩ := List.mem_flatMap.mp hmem
  have hall : ∀ k, r ∈ c.frame.holds k := by
    intro k
    cases hf : c.frame with
    | worker r' g leaving =>
        rw [hf] at hcr
        obtain ⟨hg, rfl⟩ := Frame.mem_holds_worker.mp hcr
        refine Frame.mem_holds_worker.mpr ⟨Nat.lt_of_le_of_lt ?_ hg, rfl⟩
        cases k <;> simp [Slot.index]
    | outside => rw [hf] at hcr; exact absurd hcr List.not_mem_nil
    | drop r' pc =>
        rw [hf, Frame.holds_isDrop rfl (by simp)] at hcr
        exact absurd hcr List.not_mem_nil
  have hget := fun k => h.get_of_holds hc (hall k)
  have hw := hget .isWorker
  have hh := hget .handle
  have hctx := hget .ctx
  generalize th.locals = l at hr hw hh hctx
  cases l
  simp only [Locals.get] at hr hw hh hctx
  rw [hr, hw, hh, hctx]

/--
**A thread is in the runtime whose guards are on its stack, and that runtime is there.**

In every run of any number of runtimes, made, used and dropped on any threads, with panics
anywhere: each thread-local holds what the guards on the thread's stack have installed, and
no two of them have installed the same one. So the pointers in `CTX` and `DRIVER` are never
read after their `Shared` was freed. Where a driver is installed, the thread is a worker of
that runtime, with its handle and its reactor; and while a `Multi::drop` drains its queues
the thread has its reactor and nothing else, whatever the destructors do.
-/
theorem context_sound {w : World} (h : system.Reachable w) : ∀ th ∈ w.threads,
    (∀ k, (th.locals.get k).toList = th.stack.flatMap fun c => c.frame.holds k)
    ∧ (∀ k r, th.locals.get k = some r → w.freed r = false)
    ∧ (∀ r, th.locals.driver = some r →
        th.locals = { isWorker := some r, handle := some r, ctx := some r, driver := some r })
    ∧ ∀ c ∈ th.stack, ∀ r, c.frame = .drop r .draining →
        th.locals = { isWorker := none, handle := none, ctx := some r, driver := none } := by
  have hi := inv_reachable h
  intro th hth
  have hm := hi.threads th hth
  refine ⟨hm.slots, fun k r hr => ?_, fun r hr => hm.onWorker hr, fun c hc r hf => hm.draining hc hf⟩
  have hpos := Nat.lt_of_lt_of_le (hm.arcs_pos hr) (hi.arcs_le hth r)
  rw [← Bool.not_eq_true]
  intro hf
  have hzero := hi.kept.freed r hf
  omega

/-- A worker of `r` from its first guard to its last. -/
def workerLife (r : Nat) : List Label :=
  let guarded (g : Nat) (leaving : Bool) : Thread :=
    let slot (k : Slot) : Option Nat := if k.index < g then some r else none
    { stack := [{ frame := .worker r g leaving, unwinding := false }]
      locals := { isWorker := slot .isWorker, handle := slot .handle, ctx := slot .ctx, driver := slot .driver } }
  ([0, 1, 2, 3, 4].map fun g => .advance (guarded g false))
    ++ [4, 3, 2, 1, 0].map fun g => .advance (guarded g true)

/-- A thread of the application, in calls that do not unwind. -/
def applicationIn (calls : List Frame) (ctx : Option Nat) : Thread where
  stack := (calls ++ [Frame.outside]).map fun f => { frame := f, unwinding := false }
  locals := { isWorker := none, handle := none, ctx := ctx, driver := none }

/-- The application drops one runtime, and a task of it owns another. -/
def dropInDrop : List Label :=
  [.thread, .create (applicationIn [] none) 0 1 true, .create (applicationIn [] none) 1 1 true]
    ++ workerLife 0
    ++ [.drop (applicationIn [] none) 0, .advance (applicationIn [.drop 0 .joining] none),
      .drop (applicationIn [.drop 0 .draining] (some 0)) 1]
    ++ workerLife 1 ++ [.advance (applicationIn [.drop 1 .joining, .drop 0 .draining] (some 0))]

/-- The inner drop panics, and the outer one goes on draining with its own reactor. -/
theorem context_sound_dropInDrop :
    ∃ w th, system.Reachable w ∧ th ∈ w.threads
      ∧ th.stack.map Call.frame = [.drop 1 .fields, .drop 0 .draining, .outside]
      ∧ th.locals = { isWorker := none, handle := none, ctx := some 0, driver := none }
      ∧ w.freed 0 = false := by
  have hreach : system.Reachable (system.exec start dropInDrop) := System.Reachable.exec (.init rfl)
  have hth : (applicationIn [.drop 1 .joining, .drop 0 .draining] (some 0)).panic
      ∈ (system.exec start dropInDrop).threads := by
    decide +kernel
  obtain ⟨_, hlive, _, hdrain⟩ := context_sound hreach _ hth
  have hlocals := hdrain { frame := .drop 0 .draining, unwinding := false } (by decide) 0 rfl
  exact ⟨_, _, hreach, hth, rfl, hlocals, hlive .ctx 0 rfl⟩

end Context

end Nanorun.Runtime
