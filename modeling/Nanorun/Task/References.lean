import Nanorun.Lib.Pool
import Nanorun.Task.Steps

/-!
# Who holds a strong count

Every strong count of the task has an owner: a reference in a run queue, a live
waker, the `JoinHandle` while its `raw` is `Some`, or a thread. `Frame.owns` says
how many a thread holds by itself; `schedule_fn` gives its only one away at the
push, so a by-value wake holds none for the rest of `Spawner::schedule`.

The waker that `poll_fn` makes belongs to exactly one thread, which lends it to
the future while that is polled; a borrowed waker stays alive. With these the
count is exact in every reachable state, and the allocation is freed exactly when
it is zero.
-/

namespace Nanorun.Task

open Bits Pool

variable {V W : Type}

/-! ## Owners -/

/-- What the caller of `Spawner::schedule` holds besides the reference it passes. -/
def Caller.holds : Caller → Nat
  | .poll _ => 1
  | _ => 0

/-- The strong counts a thread holds by itself. -/
def Frame.owns : Frame V W → Nat
  | .spawnJoin | .wakeClone _ | .done => 0
  | .fetchNotified who | .schedShutdown who | .schedPush who | .release who => 1 + who.holds
  | .schedParked who | .schedUnpark who => who.holds
  | _ => 1

/-- The join reference, held by `Spawner::spawn` until the handle exists. -/
def Handle.owns : Handle V W → Nat
  | .yielded _ | .dropped => 0
  | _ => 1

/-- The waker has not been dropped or woken by value. -/
def WakerState.live : WakerState → Bool
  | .dead => false
  | _ => true

/-- The wakers that hold a count. -/
def RawTask.liveWakers (t : RawTask V W) : Nat := t.wakers.countP WakerState.live

/-- All owners of a strong count. -/
def owners (t : RawTask V W) (fs : Multiset (Frame V W)) : Nat :=
  weight Frame.owns fs + t.queued + t.liveWakers + t.handle.owns

/-- `Spawner::spawn` has not built the handle yet. -/
def Frame.spawns : Frame V W → Nat
  | .spawnPush | .spawnJoin => 1
  | _ => 0

def Handle.spawns : Handle V W → Nat
  | .spawning => 1
  | _ => 0

/-! ## The waker of a running `poll_fn` -/

/-- What the caller has of the waker that `poll_fn` made. -/
def Caller.ctx : Caller → Option (Nat × WakerState)
  | .poll wk => some (wk, .kept)
  | _ => none

/-- The waker that this `poll_fn` made, and whether the future has it now. -/
def Frame.ctx : Frame V W → Option (Nat × WakerState)
  | .polling wk => some (wk, .lent)
  | .matchStage wk | .writeReady wk _ | .setComplete wk | .clearRunning wk _ | .writeEmpty wk
  | .takeJoin wk | .wakeJoin wk _ | .clearPending wk | .incResched wk | .dropWaker wk
  | .panicked wk => some (wk, .kept)
  | .fetchNotified who | .schedShutdown who | .schedPush who | .schedParked who
  | .schedUnpark who | .release who => who.ctx
  | _ => none

/-- 1 if the thread's own waker is `wk`, in state `s`. -/
def Frame.ctxAt (wk : Nat) (s : WakerState) (f : Frame V W) : Nat :=
  if f.ctx = some (wk, s) then 1 else 0

/-- 1 if waker `wk` is in state `s`. -/
def RawTask.wakerAt (t : RawTask V W) (wk : Nat) (s : WakerState) : Nat :=
  if t.wakers[wk]? = some s then 1 else 0

/-- A kept or lent waker belongs to exactly one running `poll_fn`. -/
def CtxInv (t : RawTask V W) (fs : Multiset (Frame V W)) : Prop :=
  ∀ wk s, s = .kept ∨ s = .lent → weight (Frame.ctxAt wk s) fs = t.wakerAt wk s

/-- A borrowed waker is user code's, or lent to the future. -/
def BorrowInv (t : RawTask V W) (fs : Multiset (Frame V W)) : Prop :=
  ∀ f ∈ fs, ∀ wk, f.borrows = some wk → t.wakers[wk]? = some .owned ∨ t.wakers[wk]? = some .lent

theorem back_owns (who : Caller) : (who.back : Frame V W).owns = who.holds := by
  cases who <;> rfl

theorem back_ctx (who : Caller) : (who.back : Frame V W).ctx = who.ctx := by
  cases who <;> rfl

/-- The thread whose waker is `wk` knows the state of `wk`. -/
theorem CtxInv.waker_of {t : RawTask V W} {fs : Multiset (Frame V W)} (h : CtxInv t fs)
    {f : Frame V W} (hf : f ∈ fs) {wk : Nat} {s : WakerState} (hs : s = .kept ∨ s = .lent)
    (hctx : f.ctx = some (wk, s)) : t.wakers[wk]? = some s := by
  have hpos := le_weight (g := Frame.ctxAt wk s) hf
  rw [h wk s hs, Frame.ctxAt, if_pos hctx, RawTask.wakerAt] at hpos
  by_contra hne
  rw [if_neg hne] at hpos
  omega

theorem CtxInv.keep {t t' : RawTask V W} {f f' : Frame V W} {rest : Multiset (Frame V W)}
    (h : CtxInv t (f ::ₘ rest)) (hw : t'.wakers = t.wakers) (hc : f'.ctx = f.ctx) :
    CtxInv t' (f' ::ₘ rest) := by
  intro wk s hs
  have h0 := h wk s hs
  rw [weight_cons] at h0 ⊢
  rw [RawTask.wakerAt, hw, Frame.ctxAt, hc]
  exact h0

/-- The owner of waker `wk` puts it in another state, and gives it up if that is `dead`. -/
theorem CtxInv.move {t t' : RawTask V W} {f f' : Frame V W} {rest : Multiset (Frame V W)}
    {wk : Nat} {s s' : WakerState} (h : CtxInv t (f ::ₘ rest)) (hs : s = .kept ∨ s = .lent)
    (hf : f.ctx = some (wk, s)) (hf' : f'.ctx = if s'.live then some (wk, s') else none)
    (ht' : t'.wakers = t.wakers.set wk s') : CtxInv t' (f' ::ₘ rest) := by
  intro i u hu
  have hat := h.waker_of (Multiset.mem_cons_self f rest) hs hf
  have hlt : wk < t.wakers.length := (List.getElem?_eq_some_iff.mp hat).1
  have h0 := h i u hu
  rw [weight_cons, Frame.ctxAt, RawTask.wakerAt, hf] at h0
  rw [weight_cons, Frame.ctxAt, RawTask.wakerAt, hf', ht']
  by_cases hi : wk = i
  · subst hi
    -- nobody else has this waker
    have hrest : weight (Frame.ctxAt wk u) rest = 0 := by
      rw [hat] at h0
      by_cases hsu : s = u
      · rw [if_pos (by rw [hsu]), if_pos (by rw [hsu])] at h0; omega
      · rw [if_neg (by simpa using hsu), if_neg (by simpa using hsu)] at h0; omega
    rw [hrest, List.getElem?_set_self hlt]
    cases s' with
    | dead =>
        have hne : WakerState.dead ≠ u := by rcases hu with rfl | rfl <;> simp
        simp [WakerState.live, hne]
    | _ => simp [WakerState.live]
  · rw [if_neg (by simp [hi])] at h0
    rw [List.getElem?_set_ne hi]
    have : ¬ (if s'.live = true then some (wk, s') else none) = some (i, u) := by
      split
      · simp [hi]
      · simp
    rw [if_neg this]
    exact h0

/-- A waker that no `poll_fn` has changes state, or a new one is made for user code. -/
theorem CtxInv.other {t t' : RawTask V W} {fs : Multiset (Frame V W)} (h : CtxInv t fs)
    (hw : ∀ wk s, s = .kept ∨ s = .lent → t'.wakerAt wk s = t.wakerAt wk s) : CtxInv t' fs := by
  intro wk s hs
  rw [hw wk s hs]
  exact h wk s hs

/-- A thread without a waker of its own appears. -/
theorem CtxInv.join {t t' : RawTask V W} {f : Frame V W} {fs : Multiset (Frame V W)}
    (h : CtxInv t fs) (hw : ∀ wk s, s = .kept ∨ s = .lent → t'.wakerAt wk s = t.wakerAt wk s)
    (hc : f.ctx = none) : CtxInv t' (f ::ₘ fs) := by
  intro wk s hs
  rw [weight_cons, Frame.ctxAt, hc, if_neg (by simp), h wk s hs, hw wk s hs]
  omega

theorem wakerAt_set {t : RawTask V W} {wk : Nat} (h : t.wakers[wk]? = some .owned) (i : Nat)
    (u : WakerState) (hu : u = .kept ∨ u = .lent) :
    (t.setWaker wk .dead).wakerAt i u = t.wakerAt i u := by
  have hlt : wk < t.wakers.length := (List.getElem?_eq_some_iff.mp h).1
  unfold RawTask.wakerAt RawTask.setWaker
  by_cases hi : wk = i
  · subst hi
    rw [List.getElem?_set_self hlt, h]
    rcases hu with rfl | rfl <;> simp
  · rw [List.getElem?_set_ne hi]

/-- The wakers after a new one: only the last index differs. -/
theorem getElem?_append_new (l : List WakerState) (s u : WakerState) (i : Nat) :
    ((l ++ [s])[i]? = some u) ↔ (l[i]? = some u ∨ (i = l.length ∧ s = u)) := by
  by_cases hi : i < l.length
  · rw [List.getElem?_append_left hi]
    constructor
    · exact .inl
    · rintro (h | ⟨rfl, _⟩)
      · exact h
      · omega
  · have hn : l[i]? = none := List.getElem?_eq_none (by omega)
    rw [List.getElem?_append_right (by omega), hn]
    by_cases he : i = l.length
    · subst he; simp
    · have : i - l.length ≠ 0 := by omega
      simp [he, this]

/-! ## The count is exact -/

/-- The strong count against its owners. -/
structure RefInv (t : RawTask V W) (fs : Multiset (Frame V W)) : Prop where
  /-- Every count has an owner and every owner a count. -/
  count : t.strong = owners t fs
  /-- Freed exactly when the last count went. -/
  freed : t.freed = true ↔ t.strong = 0
  /-- The join reference is the handle's, once `Spawner::spawn` is done. -/
  spawn : weight Frame.spawns fs = t.handle.spawns
  ctx : CtxInv t fs
  borrows : BorrowInv t fs

theorem liveWakers_set {t : RawTask V W} {wk : Nat} {s : WakerState} (s' : WakerState)
    (h : t.wakers[wk]? = some s) :
    (t.setWaker wk s').liveWakers + s.live.toNat = t.liveWakers + s'.live.toNat := by
  obtain ⟨hlt, hget⟩ := List.getElem?_eq_some_iff.mp h
  have hset := List.countP_set (p := WakerState.live) (l := t.wakers) (i := wk) (a := s') hlt
  have hpos : s.live = true → 0 < t.liveWakers := fun hl =>
    List.countP_pos_iff.mpr ⟨s, List.mem_of_getElem? h, hl⟩
  rw [hget] at hset
  unfold RawTask.setWaker RawTask.liveWakers
  unfold RawTask.liveWakers at hpos
  simp only [hset]
  cases hl : s.live
  · cases s'.live <;> simp
  · have := hpos hl
    cases s'.live <;> simp <;> omega

/-- A usable waker holds a count, so the task is alive. -/
theorem RefInv.alive_of_waker {t : RawTask V W} {fs : Multiset (Frame V W)} (h : RefInv t fs)
    {wk : Nat} {s : WakerState} (hw : t.wakers[wk]? = some s) (hl : s.live = true) :
    0 < t.strong := by
  have hpos : 0 < t.liveWakers := List.countP_pos_iff.mpr ⟨s, List.mem_of_getElem? hw, hl⟩
  have hc := h.count
  unfold owners at hc
  omega

theorem RefInv.alive_of_owns {t : RawTask V W} {fs : Multiset (Frame V W)} (h : RefInv t fs)
    {f : Frame V W} (hf : f ∈ fs) (ho : 0 < f.owns) : 0 < t.strong := by
  have hle := le_weight (g := Frame.owns) hf
  have hc := h.count
  unfold owners at hc
  omega

theorem RefInv.alive_of_handle {t : RawTask V W} {fs : Multiset (Frame V W)} (h : RefInv t fs)
    (ho : 0 < t.handle.owns) : 0 < t.strong := by
  have hc := h.count
  unfold owners at hc
  omega

theorem RefInv.alive_of_borrows {t : RawTask V W} {fs : Multiset (Frame V W)} (h : RefInv t fs)
    {f : Frame V W} (hf : f ∈ fs) {wk : Nat} (hb : f.borrows = some wk) : 0 < t.strong := by
  rcases h.borrows f hf wk hb with hw | hw
  · exact h.alive_of_waker hw rfl
  · exact h.alive_of_waker hw rfl

/-- While `Spawner::spawn` runs there is no handle. -/
theorem RefInv.spawning_of {t : RawTask V W} {fs : Multiset (Frame V W)} (h : RefInv t fs)
    {f : Frame V W} (hf : f ∈ fs) (hs : f.spawns = 1) : t.handle = .spawning := by
  have hpos := le_weight (g := Frame.spawns) hf
  rw [h.spawn, hs] at hpos
  cases hd : t.handle with
  | spawning => rfl
  | _ => rw [hd] at hpos; exact absurd hpos (by simp [Handle.spawns])

theorem RefInv.not_freed {t : RawTask V W} {fs : Multiset (Frame V W)} (h : RefInv t fs)
    (hpos : 0 < t.strong) : t.freed = false := by
  cases hf : t.freed with
  | false => rfl
  | true => have := h.freed.mp hf; omega

/-- A step that only bumps the count, or leaves it, keeps `freed` right. -/
theorem RefInv.freed_bump {t : RawTask V W} {fs : Multiset (Frame V W)} (h : RefInv t fs)
    (hpos : 0 < t.strong) : t.freed = true ↔ t.strong + 1 = 0 := by
  rw [h.not_freed hpos]
  constructor
  · intro hc; exact absurd hc (by simp)
  · intro hc; omega

theorem RefInv.freed_release {t : RawTask V W} {fs : Multiset (Frame V W)} (h : RefInv t fs)
    (hpos : 0 < t.strong) : (t.freed || decide (t.strong = 1)) = true ↔ t.strong - 1 = 0 := by
  rw [h.not_freed hpos, Bool.false_or, decide_eq_true_iff]
  omega

/-! ## Steps -/

theorem refInv_init : RefInv (V := V) (W := W)
    (World.spawnRaw (V := V) (W := W)).task (World.spawnRaw (V := V) (W := W)).frames where
  count := by simp [World.spawnRaw, owners, RawTask.liveWakers, Frame.owns, Handle.owns]
  freed := by simp [World.spawnRaw]
  spawn := by simp [World.spawnRaw, Frame.spawns, Handle.spawns]
  ctx := by
    intro wk s hs
    simp [World.spawnRaw, Frame.ctxAt, Frame.ctx, RawTask.wakerAt]
  borrows := by
    intro f hf wk hb
    simp only [World.spawnRaw, Multiset.mem_singleton] at hf
    subst hf
    exact absurd hb (by simp [Frame.borrows])

/-- The change in the count is the change in the owners. -/
theorem RefInv.count_replace {t t' : RawTask V W} {f f' : Frame V W}
    {rest : Multiset (Frame V W)} (h : RefInv t (f ::ₘ rest))
    (hc : t'.strong + (f.owns + t.queued + t.liveWakers + t.handle.owns)
      = t.strong + (f'.owns + t'.queued + t'.liveWakers + t'.handle.owns)) :
    t'.strong = owners t' (f' ::ₘ rest) := by
  have h0 := h.count
  unfold owners at h0 ⊢
  rw [weight_cons] at h0 ⊢
  omega

/-- A thread moves on without touching the wakers, the handle or the free mark. -/
theorem RefInv.advance {t t' : RawTask V W} {f f' : Frame V W} {rest : Multiset (Frame V W)}
    (h : RefInv t (f ::ₘ rest)) (hw : t'.wakers = t.wakers) (hh : t'.handle = t.handle)
    (hc : t'.strong + (f.owns + t.queued) = t.strong + (f'.owns + t'.queued))
    (hfreed : t'.freed = true ↔ t'.strong = 0) (hsp : f'.spawns = f.spawns)
    (hctx : f'.ctx = f.ctx) (hb : f'.borrows = f.borrows ∨ f'.borrows = none) :
    RefInv t' (f' ::ₘ rest) where
  count := by
    apply h.count_replace
    rw [hh, RawTask.liveWakers, RawTask.liveWakers, hw]
    omega
  freed := hfreed
  spawn := by have := h.spawn; rw [weight_cons] at this ⊢; rw [hsp, hh]; exact this
  ctx := h.ctx.keep hw hctx
  borrows := by
    intro g hg wk hgb
    rw [hw]
    rcases Multiset.mem_cons.mp hg with rfl | hmem
    · rcases hb with hb | hb
      · exact h.borrows f (Multiset.mem_cons_self f rest) wk (hb ▸ hgb)
      · rw [hb] at hgb; exact absurd hgb (by simp)
    · exact h.borrows g (Multiset.mem_cons_of_mem hmem) wk hgb

/-- The owner of waker `wk` moves on and puts it in another state that nobody borrows. -/
theorem RefInv.advance_waker {t t' : RawTask V W} {f f' : Frame V W}
    {rest : Multiset (Frame V W)} {wk : Nat} {s : WakerState} (h : RefInv t (f ::ₘ rest))
    (s' : WakerState)
    (hs : s = .kept ∨ s = .lent) (hf : f.ctx = some (wk, s))
    (hf' : f'.ctx = if s'.live then some (wk, s') else none)
    (hw : t'.wakers = (t.setWaker wk s').wakers) (hh : t'.handle = t.handle)
    (hq : t'.queued = t.queued)
    (hc : t'.strong + (f.owns + s.live.toNat) = t.strong + (f'.owns + s'.live.toNat))
    (hfreed : t'.freed = true ↔ t'.strong = 0) (hsp : f'.spawns = f.spawns)
    (hb : f'.borrows = none) (hfree : ∀ g ∈ rest, g.borrows ≠ some wk) :
    RefInv t' (f' ::ₘ rest) where
  count := by
    apply h.count_replace
    have hat := h.ctx.waker_of (Multiset.mem_cons_self f rest) hs hf
    have hl := liveWakers_set s' hat
    have hl' : t'.liveWakers = (t.setWaker wk s').liveWakers := by
      rw [RawTask.liveWakers, hw]; rfl
    rw [hh, hq, hl']
    omega
  freed := hfreed
  spawn := by have := h.spawn; rw [weight_cons] at this ⊢; rw [hsp, hh]; exact this
  ctx := h.ctx.move hs hf hf' hw
  borrows := by
    intro g hg i hgb
    rcases Multiset.mem_cons.mp hg with rfl | hmem
    · rw [hb] at hgb; exact absurd hgb (by simp)
    · have hne : wk ≠ i := by rintro rfl; exact hfree g hmem hgb
      rw [hw, RawTask.setWaker, List.getElem?_set_ne hne]
      exact h.borrows g (Multiset.mem_cons_of_mem hmem) i hgb

/-- A waker that its `poll_fn` keeps to itself is borrowed by nobody. -/
theorem RefInv.not_borrowed_of_kept {t : RawTask V W} {fs : Multiset (Frame V W)}
    (h : RefInv t fs) {f : Frame V W} (hf : f ∈ fs) {wk : Nat}
    (hctx : f.ctx = some (wk, .kept)) : ∀ g ∈ fs, g.borrows ≠ some wk := by
  intro g hg hb
  have hk := h.ctx.waker_of hf (.inl rfl) hctx
  rcases h.borrows g hg wk hb with hw | hw
  · rw [hk] at hw; exact absurd hw (by simp)
  · rw [hk] at hw; exact absurd hw (by simp)

theorem not_borrowed {fs : Multiset (Frame V W)} {wk : Nat} (h : borrowed fs wk = false) :
    ∀ g ∈ fs, g.borrows ≠ some wk := by
  intro g hg hb
  have hz : fs.countP (fun f => f.borrows = some wk) = 0 := by
    have := of_decide_eq_false h; omega
  exact Multiset.countP_eq_zero.mp hz g hg hb

theorem refInv_thread {t t' : RawTask V W} {f f' : Frame V W} {rest : Multiset (Frame V W)}
    (h : RefInv t (f ::ₘ rest)) (hs : FrameStep t (borrowed (f ::ₘ rest)) f t' f') :
    RefInv t' (f' ::ₘ rest) := by
  have hmem := Multiset.mem_cons_self f rest
  have hrest : ∀ {wk}, (∀ g ∈ f ::ₘ rest, g.borrows ≠ some wk) → ∀ g ∈ rest, g.borrows ≠ some wk :=
    fun hb g hg => hb g (Multiset.mem_cons_of_mem hg)
  cases hs with
  | spawnPush =>
      exact h.advance rfl rfl (by simp only [Frame.owns]; omega) h.freed rfl rfl (.inl rfl)
  | stolen =>
      exact h.advance rfl rfl (by simp only [Frame.owns]; omega) h.freed rfl rfl (.inl rfl)
  | spawnJoin =>
      -- the join reference passes from `Spawner::spawn` to the handle
      have hh := h.spawning_of hmem rfl
      have h0 : weight Frame.spawns rest = 0 := by
        have hsp := h.spawn
        rw [weight_cons, hh] at hsp
        simp only [Frame.spawns, Handle.spawns] at hsp
        omega
      refine ⟨?_, h.freed, ?_, h.ctx.keep rfl rfl, ?_⟩
      · apply h.count_replace; rw [hh]; rfl
      · rw [weight_cons, h0]; rfl
      · intro g hg wk hb
        rcases Multiset.mem_cons.mp hg with rfl | hg
        · exact absurd hb (by simp [Frame.borrows])
        · exact h.borrows g (Multiset.mem_cons_of_mem hg) wk hb
  | mkWaker =>
      have hpos := h.alive_of_owns hmem (by simp [Frame.owns])
      refine ⟨?_, h.freed_bump hpos, ?_, ?_, ?_⟩
      · apply h.count_replace
        simp only [RawTask.liveWakers, List.countP_append, List.countP_singleton, WakerState.live,
          Frame.owns, if_true]
        omega
      · have := h.spawn; rw [weight_cons] at this ⊢; exact this
      · intro i u hu
        have h0 := h.ctx i u hu
        simp only [weight_cons, Frame.ctxAt, Frame.ctx, RawTask.wakerAt] at h0 ⊢
        simp only [getElem?_append_new]
        by_cases hi : i = t.wakers.length
        · subst hi
          rw [List.getElem?_eq_none (Nat.le_refl _)] at h0 ⊢
          simp only [reduceCtorEq, if_false, false_or, true_and, Option.some.injEq,
            Prod.mk.injEq] at h0 ⊢
          omega
        · have hne : t.wakers.length ≠ i := fun hc => hi hc.symm
          simp only [reduceCtorEq, if_false, hi, hne, false_and, or_false, Option.some.injEq,
            Prod.mk.injEq] at h0 ⊢
          exact h0
      · intro g hg wk hb
        have hold : t.wakers[wk]? = some .owned ∨ t.wakers[wk]? = some .lent := by
          rcases Multiset.mem_cons.mp hg with rfl | hg
          · exact absurd hb (by simp [Frame.borrows])
          · exact h.borrows g (Multiset.mem_cons_of_mem hg) wk hb
        rw [getElem?_append_new, getElem?_append_new]
        exact hold.imp .inl .inl
  | matchPending _ =>
      exact h.advance_waker .lent (.inl rfl) rfl rfl rfl rfl rfl rfl h.freed rfl rfl
        (hrest (h.not_borrowed_of_kept hmem rfl))
  | ready hl =>
      exact h.advance_waker .kept (.inr rfl) rfl rfl rfl rfl rfl rfl h.freed rfl rfl
        (hrest (not_borrowed hl))
  | pending hl =>
      exact h.advance_waker .kept (.inr rfl) rfl rfl rfl rfl rfl rfl h.freed rfl rfl
        (hrest (not_borrowed hl))
  | dropWaker =>
      have hpos := h.alive_of_owns hmem (by simp [Frame.owns])
      refine h.advance_waker .dead (.inl rfl) rfl rfl rfl rfl rfl ?_
        (h.freed_release hpos) rfl rfl (hrest (h.not_borrowed_of_kept hmem rfl))
      simp only [RawTask.release, RawTask.setWaker, Frame.owns, WakerState.live, Bool.toNat_true,
        Bool.toNat_false]
      omega
  | dropArc =>
      have hpos := h.alive_of_owns hmem (by simp [Frame.owns])
      refine h.advance rfl rfl ?_ (h.freed_release hpos) rfl rfl (.inl rfl)
      simp only [RawTask.release, Frame.owns]; omega
  | @release who =>
      have hpos := h.alive_of_owns hmem (by simp only [Frame.owns]; omega)
      refine h.advance rfl rfl ?_ (h.freed_release hpos) (back_ind (P := fun f => f.spawns = 0) who rfl (fun _ => rfl))
        (back_ctx who) (.inr (back_ind (P := fun f => f.borrows = none) who rfl (fun _ => rfl)))
      rw [back_owns]
      simp only [RawTask.release, Frame.owns]; omega
  | @schedUnpark who =>
      refine h.advance rfl rfl ?_ h.freed (back_ind (P := fun f => f.spawns = 0) who rfl (fun _ => rfl))
        (back_ctx who) (.inr (back_ind (P := fun f => f.borrows = none) who rfl (fun _ => rfl)))
      rw [back_owns]
      rfl
  | clearRunning =>
      obtain ⟨ho, hsp, hctx, hb⟩ := afterComplete_ind (V := V) (W := W)
        (P := fun f => f.owns = 1 ∧ f.spawns = 0 ∧ f.ctx = some (_, .kept) ∧ f.borrows = none)
        ⟨rfl, rfl, rfl, rfl⟩ ⟨rfl, rfl, rfl, rfl⟩ ⟨rfl, rfl, rfl, rfl⟩
      refine h.advance rfl rfl ?_ h.freed hsp hctx (.inr hb)
      rw [ho]
      rfl
  | incResched =>
      have hpos := h.alive_of_owns hmem (by simp [Frame.owns])
      refine h.advance rfl rfl ?_ (h.freed_bump hpos) rfl rfl (.inl rfl)
      simp only [Frame.owns, Caller.holds]; omega
  | wakeClone =>
      have hpos := h.alive_of_borrows hmem rfl
      refine h.advance rfl rfl ?_ (h.freed_bump hpos) rfl rfl (.inl rfl)
      simp only [Frame.owns, Caller.holds]; omega
  | @schedPush who =>
      refine h.advance rfl rfl ?_ h.freed rfl rfl (.inl (by cases who <;> rfl))
      simp only [Frame.owns]; omega
  | @wokeBusy who _ => exact h.advance rfl rfl rfl h.freed rfl rfl (.inl (by cases who <;> rfl))
  | @wokeIdle who _ => exact h.advance rfl rfl rfl h.freed rfl rfl (.inl (by cases who <;> rfl))
  | @schedRefused who _ =>
      exact h.advance rfl rfl rfl h.freed rfl rfl (.inl (by cases who <;> rfl))
  | @schedAccepted who _ =>
      exact h.advance rfl rfl rfl h.freed rfl rfl (.inl (by cases who <;> rfl))
  | @schedParked who => exact h.advance rfl rfl rfl h.freed rfl rfl (.inl (by cases who <;> rfl))
  | _ => exact h.advance rfl rfl rfl h.freed rfl rfl (.inl rfl)

/-- A thread without a waker of its own appears, with what it owns. -/
theorem RefInv.join {t t' : RawTask V W} {f : Frame V W} {fs : Multiset (Frame V W)}
    (h : RefInv t fs) (hstrong : t'.strong = t.strong) (hfreed : t'.freed = t.freed)
    (hh : t'.handle = t.handle)
    (hc : f.owns + t'.queued + t'.liveWakers = t.queued + t.liveWakers) (hsp : f.spawns = 0)
    (hctx : CtxInv t' (f ::ₘ fs)) (hb : BorrowInv t' (f ::ₘ fs)) : RefInv t' (f ::ₘ fs) where
  count := by
    have h0 := h.count
    unfold owners at h0 ⊢
    rw [weight_cons, hh]
    omega
  freed := by rw [hfreed, hstrong]; exact h.freed
  spawn := by rw [weight_cons, hsp, hh, h.spawn]; omega
  ctx := hctx
  borrows := hb

/-- Killing a waker that nobody borrows leaves the borrowed ones usable. -/
theorem BorrowInv.kill {t : RawTask V W} {fs : Multiset (Frame V W)} (h : BorrowInv t fs)
    {wk : Nat} (hb : borrowed fs wk = false) : BorrowInv (t.setWaker wk .dead) fs := by
  intro g hg i hgb
  have hne : wk ≠ i := by rintro rfl; exact not_borrowed hb g hg hgb
  rw [RawTask.setWaker, List.getElem?_set_ne hne]
  exact h g hg i hgb

/-- A thread that borrows nothing appears. -/
theorem BorrowInv.join {t : RawTask V W} {f : Frame V W} {fs : Multiset (Frame V W)}
    (h : BorrowInv t fs)
    (hf : ∀ wk, f.borrows = some wk → t.wakers[wk]? = some .owned ∨ t.wakers[wk]? = some .lent) :
    BorrowInv t (f ::ₘ fs) := by
  intro g hg wk hb
  rcases Multiset.mem_cons.mp hg with rfl | hg
  · exact hf wk hb
  · exact h g hg wk hb

theorem refInv_handle {t t' : RawTask V W} {fs : Multiset (Frame V W)} (h : RefInv t fs)
    (hs : HandleStep t t.handle t') : RefInv t' fs := by
  -- the handle gives its reference back, or keeps it and moves on
  have key : (t'.wakers = t.wakers ∧ t'.queued = t.queued ∧ t'.handle.spawns = t.handle.spawns)
      ∧ ((t'.strong = t.strong ∧ t'.freed = t.freed ∧ t'.handle.owns = t.handle.owns)
        ∨ (t'.strong = t.strong - 1 ∧ t'.freed = (t.freed || decide (t.strong = 1))
          ∧ t.handle.owns = 1 ∧ t'.handle.owns = 0)) := by
    generalize t.handle = hd at hs
    cases hs with
    | dropRaw => exact ⟨⟨rfl, rfl, rfl⟩, .inr ⟨rfl, rfl, rfl, rfl⟩⟩
    | dropRef => exact ⟨⟨rfl, rfl, rfl⟩, .inr ⟨rfl, rfl, rfl, rfl⟩⟩
    | _ => exact ⟨⟨rfl, rfl, rfl⟩, .inl ⟨rfl, rfl, rfl⟩⟩
  obtain ⟨⟨hw, hq, hsp⟩, hkey⟩ := key
  have hl : t'.liveWakers = t.liveWakers := by rw [RawTask.liveWakers, hw]; rfl
  have hc := h.count
  unfold owners at hc
  refine ⟨?_, ?_, by rw [hsp]; exact h.spawn, h.ctx.other fun wk s _ => ?_, ?_⟩
  · unfold owners
    rw [hq, hl]
    rcases hkey with ⟨h1, _, h3⟩ | ⟨h1, _, h3, h4⟩ <;> omega
  · rcases hkey with ⟨h1, h2, _⟩ | ⟨h1, h2, h3, _⟩
    · rw [h1, h2]; exact h.freed
    · rw [h1, h2]; exact h.freed_release (h.alive_of_handle (by omega))
  · rw [RawTask.wakerAt, hw]; rfl
  · intro g hg wk hb
    rw [hw]
    exact h.borrows g hg wk hb

/-- **The count stays exact in every step.** -/
theorem refInv_step {t t' : RawTask V W} {fs fs' : Multiset (Frame V W)} (h : RefInv t fs)
    (hs : WorldStep t fs t' fs') : RefInv t' fs' := by
  cases hs with
  | thread hf => exact refInv_thread h hf
  | dequeue hq hd =>
      have hjoin : ∀ f : Frame V W, f.owns = 1 → f.spawns = 0 → f.ctx = none → f.borrows = none →
          RefInv { t with queued := t.queued - 1 } (f ::ₘ fs) := by
        intro f ho hsp hctx hb
        refine h.join rfl rfl rfl ?_ hsp (h.ctx.join (fun _ _ _ => rfl) hctx)
          (BorrowInv.join h.borrows fun wk hb' => ?_)
        · show f.owns + (t.queued - 1) + t.liveWakers = t.queued + t.liveWakers
          omega
        · rw [hb] at hb'; exact absurd hb' (by simp)
      cases hd with
      | _ => exact hjoin _ rfl rfl rfl rfl
  | shutdown => exact ⟨h.count, h.freed, h.spawn, h.ctx, h.borrows⟩
  | @wake wk _ ho hb =>
      have hl := liveWakers_set .dead ho
      refine h.join rfl rfl rfl ?_ rfl (h.ctx.join (wakerAt_set ho) rfl)
        (BorrowInv.join (h.borrows.kill hb) fun i hi => absurd hi (by simp [Frame.borrows]))
      show 1 + Caller.value.holds + t.queued + (t.setWaker wk .dead).liveWakers
        = t.queued + t.liveWakers
      simp only [WakerState.live, Bool.toNat_true, Bool.toNat_false] at hl
      simp only [Caller.holds]
      omega
  | @wakeByRef wk _ hu =>
      refine h.join rfl rfl rfl ?_ rfl (h.ctx.join (fun _ _ _ => rfl) rfl)
        (BorrowInv.join h.borrows fun i hi => ?_)
      · simp only [Frame.owns]; omega
      · have : wk = i := Option.some.inj hi
        subst this
        exact of_decide_eq_true hu
  | @cloneWaker wk _ hu =>
      have hpos : 0 < t.strong := by
        rcases of_decide_eq_true hu with hw | hw
        · exact h.alive_of_waker hw rfl
        · exact h.alive_of_waker hw rfl
      refine ⟨?_, h.freed_bump hpos, h.spawn, h.ctx.other fun i u hu => ?_, fun g hg i hb => ?_⟩
      · have hc := h.count
        unfold owners at hc ⊢
        simp only [RawTask.liveWakers, List.countP_append, List.countP_singleton,
          WakerState.live, if_true] at hc ⊢
        omega
      · unfold RawTask.wakerAt
        simp only [getElem?_append_new]
        rcases hu with rfl | rfl <;> simp
      · rw [getElem?_append_new, getElem?_append_new]
        exact (h.borrows g hg i hb).imp .inl .inl
  | @dropWaker wk _ ho hb =>
      have hpos := h.alive_of_waker ho rfl
      have hl := liveWakers_set .dead ho
      refine ⟨?_, h.freed_release hpos, h.spawn, h.ctx.other (wakerAt_set ho), h.borrows.kill hb⟩
      have hc := h.count
      unfold owners at hc ⊢
      have hl' : (t.setWaker wk .dead).release.liveWakers = (t.setWaker wk .dead).liveWakers := rfl
      simp only [WakerState.live, Bool.toNat_true, Bool.toNat_false] at hl
      rw [hl']
      simp only [RawTask.release, RawTask.setWaker] at hl ⊢
      omega
  | handle hh => exact refInv_handle h hh

theorem refInv_reachable [DecidableEq V] [DecidableEq W] {w : World V W}
    (h : (taskSystem V W).Reachable w) : RefInv w.task w.frames :=
  task_invariant refInv_init refInv_step h

end Nanorun.Task
