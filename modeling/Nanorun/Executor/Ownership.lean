import Nanorun.Executor.Teardown

/-!
# What a teardown frees

Reference counting frees what nothing holds any more, so what `Multi::drop` frees can
be read off the ownership graph it starts from. `Dies` says of every place in it
whether its contents are dropped in the end: an allocation dies if no reference is
held outside the runtime, no destructor is to spawn it, and every other reference is in
a queue, in the timer driver, or in a place that dies; its cell goes with it, or with the
handle if it holds an output; the wakers of a slot go with the future that owns the
socket.

`DrainInv.empty_iff`: if the teardown returns, exactly the places that die are empty.
The slab is not among the containers that `Multi::drop` clears. A slot is cleared if
its socket is dropped, and the usual owner of the socket is the very task whose waker
is in the slot, which keeps itself alive. The injector is cleared first, and what a
destructor spawns after that stays in it.
-/

namespace Nanorun.Teardown

variable {n : Nat} {T K : Type}

/-- What is dropped in the end, with `outside t` references to `t` held outside. -/
inductive Dies (h : Heap n T K) (outside : T → Nat) : Place n T K → Prop where
  | header {t : T} : outside t = 0 → (∀ p, .spawn t ∉ h.contents p) →
      (∀ p r, r ∈ h.contents p → r.target = some t → Dies h outside p) →
      Dies h outside (.header t)
  | cell {t : T} : Dies h outside (.header t) → Dies h outside (.cell t)
  | output {t : T} {p : Place n T K} : (h.tasks t).complete = true → .handle t ∈ h.contents p →
      Dies h outside p → Dies h outside (.cell t)
  | slot {k : K} {p : Place n T K} : .stream k ∈ h.contents p → Dies h outside p →
      Dies h outside (.slot k)
  | queue {q : Queue n} : Dies h outside (.queue q)

/-- What the drop of a resource does at once, beside the count. -/
def Done (c : Conf n T K) : Resource T K → Prop
  | .arc _ => True
  | .handle t => (c.heap.tasks t).complete = true → c.heap.contents (.cell t) = []
  | .stream k => c.heap.contents (.slot k) = []
  | .spawn t => t ∈ c.injector

/-- What a step does to places and items; `D` holds of the places that it empties. -/
structure Moves (D : Place n T K → Prop) (c c' : Conf n T K) : Prop where
  /-- A place stays as it is, or gives all that it holds to the list. -/
  place : ∀ p, c'.heap.contents p = c.heap.contents p
    ∨ (c'.heap.contents p = [] ∧ D p ∧ ∀ r ∈ c.heap.contents p, .drop r ∈ c'.items)
  /-- What leaves the list has been dropped. -/
  lost : ∀ r, .drop r ∈ c.items → .drop r ∈ c'.items ∨ Done c' r
  /-- What is on the list was there, is a plain reference, or comes from a place that is emptied. -/
  gained : ∀ r, .drop r ∈ c'.items →
    .drop r ∈ c.items ∨ (∃ t, r = .arc t) ∨ ∃ p, r ∈ c.heap.contents p ∧ D p
  /-- A queue is cleared when its turn comes. -/
  clears : ∀ q, .clear q ∈ c.items → .clear q ∈ c'.items ∨ c'.heap.contents (.queue q) = []
  /-- Only what was to be spawned goes into the injector. -/
  pushed : c'.injector = c.injector
    ∨ ∃ t, .drop (.spawn t) ∈ c.items ∧ c'.injector = c.injector ++ [t]
  complete : ∀ t, (c'.heap.tasks t).complete = (c.heap.tasks t).complete

theorem Moves.empty {D : Place n T K → Prop} {c c' : Conf n T K} (h : Moves D c c')
    {p : Place n T K} (hp : c.heap.contents p = []) : c'.heap.contents p = [] := by
  rcases h.place p with hsame | ⟨hnil, _⟩
  · rw [hsame, hp]
  · exact hnil

theorem Moves.done {D : Place n T K → Prop} {c c' : Conf n T K} (h : Moves D c c')
    {r : Resource T K} (hr : Done c r) : Done c' r := by
  cases r with
  | arc t => trivial
  | handle t =>
      intro hc
      rw [h.complete t] at hc
      exact h.empty (hr hc)
  | stream k => exact h.empty hr
  | spawn t =>
      rcases h.pushed with hsame | ⟨_, _, happ⟩
      · show t ∈ c'.injector
        rw [hsame]
        exact hr
      · show t ∈ c'.injector
        rw [happ]
        exact List.mem_append_left _ hr

/-- What is on the rest of the list was on the list. -/
theorem mem_items {c : Conf n T K} {i j : Item n T K} {rest : List (Item n T K)}
    (hi : c.items = i :: rest) (hj : j ∈ rest) : j ∈ c.items := by
  rw [hi]
  exact List.mem_cons_of_mem _ hj

/-- Released, a resource is done with. -/
theorem done_of_releases {c c' : Conf n T K} {r : Resource T K} {t : T} (hr : c.heap.Releases r t)
    (hc : (c'.heap.tasks t).complete = (c.heap.tasks t).complete) : Done c' r := by
  rcases hr with rfl | ⟨rfl, hincomplete⟩
  · trivial
  · intro hcomplete
    rw [hc, hincomplete] at hcomplete
    exact absurd hcomplete (by simp)

theorem slot_contents_eq_nil {h : Heap n T K} {k : K} :
    h.contents (.slot k) = [] ↔ (h.slots k).read = none ∧ (h.slots k).write = none := by
  cases hr : (h.slots k).read <;> cases hw : (h.slots k).write <;> simp [Heap.contents, hr, hw]

section Invariant

variable [DecidableEq T]

theorem counts_of_target {r : Resource T K} {t : T} (ht : r.target = some t) (t' : T) :
    r.counts t' = if t' = t then 1 else 0 := by
  by_cases heq : t' = t
  · subst heq
    rw [Resource.counts, if_pos ht, if_pos rfl]
  · rw [Resource.counts, ht, if_neg (fun h => heq (Option.some.inj h).symm), if_neg heq]

theorem counts_of_releases {h : Heap n T K} {r : Resource T K} {t : T} (hr : h.Releases r t)
    (t' : T) : r.counts t' = if t' = t then 1 else 0 := by
  refine counts_of_target ?_ t'
  rcases hr with rfl | ⟨rfl, _⟩ <;> rfl

variable [Fintype T] [Fintype K]

/-- The teardown of `h₀`, on its way. -/
structure DrainInv (h₀ : Heap n T K) (outside : T → Nat) (c : Conf n T K) : Prop where
  /-- Every strong count is the number of references. -/
  balance : ∀ t, (c.heap.tasks t).strong = c.owed t + c.injector.count t + outside t
  /-- A place is as it was, or it is empty and had to be. -/
  kept : ∀ p, c.heap.contents p = h₀.contents p ∨ (c.heap.contents p = [] ∧ Dies h₀ outside p)
  /-- A freed allocation holds nothing. -/
  dead : ∀ t, (c.heap.tasks t).strong = 0 →
    c.heap.contents (.header t) = [] ∧ c.heap.contents (.cell t) = []
  /-- Nobody completes any more. -/
  complete : ∀ t, (c.heap.tasks t).complete = (h₀.tasks t).complete
  /-- What is on the list, but for plain references, comes from places that die. -/
  source : ∀ r, .drop r ∈ c.items →
    (∃ t, r = .arc t) ∨ ∃ p, r ∈ h₀.contents p ∧ Dies h₀ outside p
  /-- What was in an emptied place is on the list or has been dropped. -/
  spent : ∀ p r, r ∈ h₀.contents p → c.heap.contents p = [] → Done c r ∨ .drop r ∈ c.items
  /-- What is in the injector was spawned by a destructor that has run. -/
  pushed : ∀ t ∈ c.injector, ∃ p, .spawn t ∈ h₀.contents p ∧ Dies h₀ outside p
  /-- A queue that holds something is still to be cleared. -/
  clears : ∀ q, c.heap.contents (.queue q) = [] ∨ .clear q ∈ c.items

variable {h₀ : Heap n T K} {outside : T → Nat}

theorem owed_cons {c : Conf n T K} {r : Resource T K} {rest : List (Item n T K)}
    (hi : c.items = .drop r :: rest) (t : T) :
    c.owed t = r.counts t + (Pool.weight (Resource.counts t) (drops rest)
      + Pool.weight (Resource.counts t) (Buckets.contents c.heap.contents)) := by
  simp only [Conf.owed, Conf.outstanding, hi, drops_cons]
  simp only [Pool.weight, Multiset.map_cons, Multiset.map_add, Multiset.sum_cons, Multiset.sum_add,
    Multiset.cons_add]

/-- An allocation that nothing refers to any more, in the heap, on the list or in the injector,
dies. -/
theorem DrainInv.dies {c : Conf n T K} (h : DrainInv h₀ outside c) {t : T} (hout : outside t = 0)
    (hnone : Pool.weight (Resource.counts t) (Buckets.contents c.heap.contents) = 0)
    (hitem : .drop (.spawn t) ∉ c.items) (hpushed : t ∉ c.injector) :
    Dies h₀ outside (.header t) := by
  -- a place that is still as it was would hold a reference
  have hgone : ∀ p r, r ∈ h₀.contents p → r.target = some t →
      c.heap.contents p = [] ∧ Dies h₀ outside p := by
    intro p r hr htarget
    rcases h.kept p with hsame | hempty
    · have hmem : r ∈ Buckets.contents c.heap.contents := by
        rw [Buckets.mem_contents]
        exact ⟨p, hsame ▸ hr⟩
      have hzero := Pool.eq_zero_of_weight hmem hnone
      rw [counts_of_target htarget, if_pos rfl] at hzero
      exact absurd hzero (by simp)
    · exact hempty
  refine .header hout ?_ fun p r hr htarget => (hgone p r hr htarget).2
  intro p hp
  rcases h.spent p (.spawn t) hp (hgone p _ hp rfl).1 with hdone | hlist
  · exact hpushed hdone
  · exact hitem hlist

/-- The part of the invariant that follows from `Moves`. -/
theorem DrainInv.moves {c c' : Conf n T K} (h : DrainInv h₀ outside c)
    (hm : Moves (Dies h₀ outside) c c')
    (hbalance : ∀ t, (c'.heap.tasks t).strong = c'.owed t + c'.injector.count t + outside t)
    (hdead : ∀ t, (c'.heap.tasks t).strong = 0 →
      c'.heap.contents (.header t) = [] ∧ c'.heap.contents (.cell t) = []) :
    DrainInv h₀ outside c' := by
  refine ⟨hbalance, ?_, hdead, fun t => (hm.complete t).trans (h.complete t), ?_, ?_, ?_, ?_⟩
  · intro p
    rcases hm.place p with hsame | ⟨hnil, hdies, _⟩
    · rw [hsame]
      exact h.kept p
    · exact .inr ⟨hnil, hdies⟩
  · intro r hr
    rcases hm.gained r hr with hold | harc | ⟨p, hp, hdies⟩
    · exact h.source r hold
    · exact .inl harc
    · refine .inr ⟨p, ?_, hdies⟩
      rcases h.kept p with hsame | ⟨hnil, _⟩
      · exact hsame ▸ hp
      · rw [hnil] at hp
        exact absurd hp List.not_mem_nil
  · intro p r hr hnil
    have hold : c.heap.contents p = [] → Done c' r ∨ .drop r ∈ c'.items := by
      intro hempty
      rcases h.spent p r hr hempty with hdone | hitem
      · exact .inl (hm.done hdone)
      · exact (hm.lost r hitem).symm
    rcases hm.place p with hsame | ⟨_, _, hgiven⟩
    · exact hold (hsame ▸ hnil)
    · rcases h.kept p with hkept | ⟨hempty, _⟩
      · exact .inr (hgiven r (hkept ▸ hr))
      · exact hold hempty
  · intro t ht
    rcases hm.pushed with hsame | ⟨t', hitem, happ⟩
    · exact h.pushed t (hsame ▸ ht)
    · rw [happ] at ht
      rcases List.mem_append.mp ht with hold | hnew
      · exact h.pushed t hold
      · obtain rfl := List.mem_singleton.mp hnew
        rcases h.source _ hitem with ⟨_, heq⟩ | hplace
        · exact absurd heq (by simp)
        · exact hplace
  · intro q
    rcases h.clears q with hnil | hitem
    · exact .inl (hm.empty hnil)
    · exact (hm.clears q hitem).symm

/-- A reference goes, and the count that it was part of goes down by one. -/
theorem DrainInv.balance_released {c c' : Conf n T K} (h : DrainInv h₀ outside c)
    {r : Resource T K} {t : T} (hr : c.heap.Releases r t)
    (hout : c.outstanding = r ::ₘ c'.outstanding) (hinjector : c'.injector = c.injector)
    (hstrong : ∀ t', (c.heap.tasks t').strong
      = (c'.heap.tasks t').strong + if t' = t then 1 else 0) (t' : T) :
    (c'.heap.tasks t').strong = c'.owed t' + c'.injector.count t' + outside t' := by
  have hb := h.balance t'
  have howed := congrArg (Pool.weight (Resource.counts t')) hout
  rw [Pool.weight_cons, counts_of_releases hr] at howed
  rw [hstrong t'] at hb
  simp only [Conf.owed, hinjector] at hb ⊢
  omega

/-! ## The end of the teardown -/

/-- At the end, nothing refers to what was kept by places that are empty now. -/
theorem DrainInv.owed_eq_zero {c : Conf n T K} (h : DrainInv h₀ outside c) (hend : c.items = [])
    {t : T} (hall : ∀ p r, r ∈ h₀.contents p → r.target = some t → c.heap.contents p = []) :
    c.owed t = 0 := by
  simp only [Conf.owed, Conf.outstanding, hend, drops_nil, zero_add]
  refine Pool.weight_eq_zero fun r hr => ?_
  obtain ⟨p, hp⟩ := Buckets.mem_contents.mp hr
  rw [Resource.counts, if_neg]
  intro htarget
  have hempty : c.heap.contents p = [] := by
    rcases h.kept p with hsame | ⟨hnil, _⟩
    · exact hall p r (hsame ▸ hp) htarget
    · exact hnil
  rw [hempty] at hp
  exact absurd hp List.not_mem_nil

/-- At the end, what dies is gone. -/
theorem DrainInv.empty_of_dies {c : Conf n T K} (h : DrainInv h₀ outside c) (hend : c.items = [])
    {p : Place n T K} (hp : Dies h₀ outside p) :
    c.heap.contents p = [] ∧ ∀ t, p = .header t → (c.heap.tasks t).strong = 0 := by
  have hdone : ∀ p r, r ∈ h₀.contents p → c.heap.contents p = [] → Done c r := by
    intro p r hr hnil
    rcases h.spent p r hr hnil with hd | hitem
    · exact hd
    · rw [hend] at hitem
      exact absurd hitem List.not_mem_nil
  induction hp with
  | @header t hout hspawn _ ih =>
      have howed : c.owed t = 0 :=
        h.owed_eq_zero hend fun q r hr htarget => (ih q r hr htarget).1
      have hpushed : t ∉ c.injector := by
        intro ht
        obtain ⟨q, hq, _⟩ := h.pushed t ht
        exact hspawn q hq
      have hzero : (c.heap.tasks t).strong = 0 := by
        rw [h.balance t, howed, hout, List.count_eq_zero.mpr hpushed]
      refine ⟨(h.dead t hzero).1, ?_⟩
      intro t' ht'
      obtain rfl := Place.header.inj ht'
      exact hzero
  | @cell t _ ih => exact ⟨(h.dead t (ih.2 t rfl)).2, fun _ heq => absurd heq (by simp)⟩
  | @output t p hc hp _ ih =>
      refine ⟨?_, fun _ heq => absurd heq (by simp)⟩
      exact hdone p (.handle t) hp ih.1 ((h.complete t).trans hc)
  | @slot k p hp _ ih =>
      exact ⟨hdone p (.stream k) hp ih.1, fun _ heq => absurd heq (by simp)⟩
  | @queue q =>
      refine ⟨?_, fun _ heq => absurd heq (by simp)⟩
      rcases h.clears q with hnil | hitem
      · exact hnil
      · rw [hend] at hitem
        exact absurd hitem List.not_mem_nil

theorem DrainInv.empty_iff {c : Conf n T K} (h : DrainInv h₀ outside c) (hend : c.items = [])
    (p : Place n T K) :
    c.heap.contents p = [] ↔ h₀.contents p = [] ∨ Dies h₀ outside p := by
  refine ⟨?_, ?_⟩
  · intro hnil
    rcases h.kept p with hsame | ⟨_, hd⟩
    · exact .inl (hsame ▸ hnil)
    · exact .inr hd
  · rintro (hnil | hd)
    · rcases h.kept p with hsame | ⟨hempty, _⟩
      · rw [hsame, hnil]
      · exact hempty
    · exact (h.empty_of_dies hend hd).1

/-- At the end, the injector holds what the destructors that ran have spawned. -/
theorem DrainInv.mem_injector {c : Conf n T K} (h : DrainInv h₀ outside c) (hend : c.items = [])
    (t : T) :
    t ∈ c.injector ↔ ∃ p, .spawn t ∈ h₀.contents p ∧ Dies h₀ outside p := by
  refine ⟨h.pushed t, ?_⟩
  rintro ⟨p, hp, hdies⟩
  rcases h.spent p (.spawn t) hp (h.empty_of_dies hend hdies).1 with hdone | hlist
  · exact hdone
  · rw [hend] at hlist
    exact absurd hlist List.not_mem_nil

/-- The runtime as it is dropped: the counts are right, and what is gone owns nothing. -/
structure Sound (s : Shared n T K) (outside : T → Nat) : Prop where
  /-- Beside the containers and the futures, `outside t` references to `t` are held elsewhere. -/
  balance : ∀ t, (s.heap.tasks t).strong = s.opening.owed t + outside t
  /-- A freed allocation holds nothing. -/
  dead : ∀ t, (s.heap.tasks t).strong = 0 →
    (s.heap.tasks t).joinWaker = none ∧ (s.heap.tasks t).spawner = none ∧ (s.heap.tasks t).cell = []

theorem Sound.drainInv {s : Shared n T K} (h : Sound s outside) :
    DrainInv s.heap outside s.opening where
  balance := h.balance
  kept p := .inl rfl
  clears := by
    intro q
    refine .inr ?_
    cases q with
    | localQueue i => simp [Shared.opening]
    | timers => simp [Shared.opening]
  dead := by
    intro t hzero
    obtain ⟨hjoin, hspawner, hcell⟩ := h.dead t hzero
    have hheader : s.heap.contents (.header t) = [] := by
      rw [Heap.contents, hjoin, hspawner]
      rfl
    exact ⟨hheader, hcell⟩
  complete _ := rfl
  source := by
    intro r hr
    have harc : ∃ t ∈ s.injector, .arc t = r := by simpa [Shared.opening] using hr
    obtain ⟨t, _, heq⟩ := harc
    exact .inl ⟨t, heq.symm⟩
  spent := by
    intro p r hr hnil
    have hnil' : s.heap.contents p = [] := hnil
    rw [hnil'] at hr
    exact absurd hr List.not_mem_nil
  pushed t ht := absurd ht List.not_mem_nil

/-! ## The steps -/

variable [DecidableEq K]

theorem drainInv_lower {c : Conf n T K} (h : DrainInv h₀ outside c) {r : Resource T K} {t : T}
    {rest : List (Item n T K)} {m : Nat} (hi : c.items = .drop r :: rest)
    (hr : c.heap.Releases r t) (hm : (c.heap.tasks t).strong = m + 2) :
    DrainInv h₀ outside { c with heap := c.heap.setStrong t (m + 1), items := rest } := by
  have hcomplete : ∀ t', ((c.heap.setStrong t (m + 1)).tasks t').complete
      = (c.heap.tasks t').complete := fun t' => c.heap.complete_setTask t t' rfl
  refine h.moves ⟨?_, ?_, ?_, ?_, .inl rfl, hcomplete⟩ ?_ ?_
  · intro p
    exact .inl (by simp only [Heap.contents_setStrong])
  · intro r' hr'
    rw [hi] at hr'
    rcases mem_tail hr' with rfl | hrest
    · exact .inr (done_of_releases hr (hcomplete t))
    · exact .inl hrest
  · intro r' hr'
    exact .inl (mem_items hi hr')
  · intro q hq
    rw [hi] at hq
    exact .inl (clear_mem_tail hq)
  · refine h.balance_released hr (Conf.outstanding_lower hi t (m + 1)) rfl fun t' => ?_
    simp only [Heap.strong_setStrong]
    split
    · rename_i ht
      rw [ht, hm]
    · rfl
  · intro t' hzero
    simp only [Heap.contents_setStrong]
    refine h.dead t' ?_
    simp only [Heap.strong_setStrong] at hzero
    split at hzero
    · exact absurd hzero (by simp)
    · exact hzero

/-- The last reference goes, and what the allocation owned goes on the list. -/
theorem drainInv_free {c : Conf n T K} (h : DrainInv h₀ outside c) {r : Resource T K} {t : T}
    {rest : List (Item n T K)} (hi : c.items = .drop r :: rest) (hr : c.heap.Releases r t)
    (hone : (c.heap.tasks t).strong = 1) :
    DrainInv h₀ outside { c with
      heap := c.heap.free t
      items := (c.heap.contents (.header t) ++ c.heap.contents (.cell t)).map .drop ++ rest } := by
  have hdies : Dies h₀ outside (.header t) := by
    -- the reference on the list is the last one, so nobody else holds any
    have hb := h.balance t
    rw [owed_cons hi, counts_of_releases hr, if_pos rfl, hone] at hb
    refine h.dies (by omega) (by omega) ?_ (List.count_eq_zero.mp (by omega))
    intro hitem
    rw [hi] at hitem
    rcases mem_tail hitem with rfl | hrest
    · rcases hr with heq | ⟨heq, _⟩ <;> exact absurd heq (by simp)
    · have hle := Pool.le_weight (g := Resource.counts t) (mem_drops hrest)
      rw [counts_of_target rfl, if_pos rfl] at hle
      omega
  have hcomplete : ∀ t', ((c.heap.free t).tasks t').complete = (c.heap.tasks t').complete :=
    fun t' => c.heap.complete_setTask t t' rfl
  refine h.moves ⟨?_, ?_, ?_, ?_, .inl rfl, hcomplete⟩ ?_ ?_
  · intro p
    simp only [Heap.contents_free]
    by_cases hcell : p = .cell t
    · subst hcell
      refine .inr ⟨Function.update_self _ _ _, .cell hdies, ?_⟩
      intro r' hr'
      exact List.mem_append_left _ (List.mem_map_of_mem (List.mem_append_right _ hr'))
    · rw [Function.update_of_ne hcell]
      by_cases hheader : p = .header t
      · subst hheader
        refine .inr ⟨Function.update_self _ _ _, hdies, ?_⟩
        intro r' hr'
        exact List.mem_append_left _ (List.mem_map_of_mem (List.mem_append_left _ hr'))
      · exact .inl (Function.update_of_ne hheader _ _)
  · intro r' hr'
    rw [hi] at hr'
    rcases mem_tail hr' with rfl | hrest
    · exact .inr (done_of_releases hr (hcomplete t))
    · exact .inl (List.mem_append_right _ hrest)
  · intro r' hr'
    rcases mem_map_drop hr' with hown | hrest
    · rcases List.mem_append.mp hown with hheader | hcell
      · exact .inr (.inr ⟨_, hheader, hdies⟩)
      · exact .inr (.inr ⟨_, hcell, .cell hdies⟩)
    · exact .inl (mem_items hi hrest)
  · intro q hq
    rw [hi] at hq
    exact .inl (List.mem_append_right _ (clear_mem_tail hq))
  · refine h.balance_released hr (Conf.outstanding_freed hi t) rfl fun t' => ?_
    simp only [Heap.strong_free]
    split
    · rename_i ht
      rw [ht, hone]
    · rfl
  · intro t' hzero
    simp only [Heap.contents_free]
    by_cases ht : t' = t
    · subst ht
      exact ⟨by simp, Function.update_self _ _ _⟩
    · simp only [Heap.strong_free, if_neg ht] at hzero
      obtain ⟨hheader, hcell⟩ := h.dead t' hzero
      refine ⟨?_, ?_⟩
      · rw [Function.update_of_ne (by simp), Function.update_of_ne (by simp [ht])]
        exact hheader
      · rw [Function.update_of_ne (by simp [ht]), Function.update_of_ne (by simp)]
        exact hcell

/-- The handle of a finished task takes the output with it. -/
theorem drainInv_output {c : Conf n T K} (h : DrainInv h₀ outside c) {t : T}
    {rest : List (Item n T K)} (hi : c.items = .drop (.handle t) :: rest)
    (hc : (c.heap.tasks t).complete = true) :
    DrainInv h₀ outside { c with
      heap := c.heap.emptyCell t
      items := (c.heap.contents (.cell t)).map .drop ++ .drop (.arc t) :: rest } := by
  have hdies : Dies h₀ outside (.cell t) := by
    -- the handle came from a place that dies, and the output goes with it
    rcases h.source (.handle t) (by rw [hi]; exact List.mem_cons_self) with
      ⟨_, heq⟩ | ⟨p, hp, hdies⟩
    · exact absurd heq (by simp)
    · exact .output (h.complete t ▸ hc) hp hdies
  have hempty : (c.heap.emptyCell t).contents (.cell t) = [] := by
    rw [Heap.contents_emptyCell, Function.update_self]
  refine h.moves ⟨?_, ?_, ?_, ?_, .inl rfl, fun t' => c.heap.complete_setTask t t' rfl⟩ ?_ ?_
  · intro p
    by_cases hcell : p = .cell t
    · subst hcell
      refine .inr ⟨hempty, hdies, ?_⟩
      intro r' hr'
      exact List.mem_append_left _ (List.mem_map_of_mem hr')
    · exact .inl (by simp only [Heap.contents_emptyCell]; exact Function.update_of_ne hcell _ _)
  · intro r' hr'
    rw [hi] at hr'
    rcases mem_tail hr' with rfl | hrest
    · exact .inr (fun _ => hempty)
    · exact .inl (List.mem_append_right _ (List.mem_cons_of_mem _ hrest))
  · intro r' hr'
    rcases mem_map_drop hr' with hown | hrest
    · exact .inr (.inr ⟨_, hown, hdies⟩)
    · rcases mem_tail hrest with rfl | hrest
      · exact .inr (.inl ⟨t, rfl⟩)
      · exact .inl (mem_items hi hrest)
  · intro q hq
    rw [hi] at hq
    exact .inl (List.mem_append_right _ (List.mem_cons_of_mem _ (clear_mem_tail hq)))
  · intro t'
    have hb := h.balance t'
    have howed := congrArg (Pool.weight (Resource.counts t')) (Conf.outstanding_output hi)
    rw [Pool.weight_cons, Pool.weight_cons] at howed
    -- the handle and its reference count for the same task
    have hsame : (Resource.handle t : Resource T K).counts t'
        = (Resource.arc t : Resource T K).counts t' := rfl
    simp only [Conf.owed, Heap.strong_emptyCell] at hb ⊢
    omega
  · intro t' hzero
    simp only [Heap.strong_emptyCell] at hzero
    obtain ⟨hheader, hcell⟩ := h.dead t' hzero
    simp only [Heap.contents_emptyCell]
    refine ⟨by rw [Function.update_of_ne (by simp)]; exact hheader, ?_⟩
    by_cases ht : t' = t
    · rw [ht]
      exact Function.update_self _ _ _
    · rw [Function.update_of_ne (by simp [ht])]
      exact hcell

/-- A socket goes, and its slot with it. -/
theorem drainInv_slot {c : Conf n T K} (h : DrainInv h₀ outside c) {k : K}
    {rest : List (Item n T K)} (hi : c.items = .drop (.stream k) :: rest) :
    DrainInv h₀ outside { c with
      heap := c.heap.clearSlot k
      items := (c.heap.contents (.slot k)).map .drop ++ .unlock .slots :: rest
      locked := Function.update c.locked .slots true } := by
  have hdies : Dies h₀ outside (.slot k) := by
    -- likewise the socket, and its slot
    rcases h.source (.stream k) (by rw [hi]; exact List.mem_cons_self) with
      ⟨_, heq⟩ | ⟨p, hp, hdies⟩
    · exact absurd heq (by simp)
    · exact .slot hp hdies
  have hempty : (c.heap.clearSlot k).contents (.slot k) = [] := by
    rw [Heap.contents_clearSlot, Function.update_self]
  refine h.moves ⟨?_, ?_, ?_, ?_, .inl rfl, fun _ => rfl⟩ ?_ ?_
  · intro p
    by_cases hslot : p = .slot k
    · subst hslot
      refine .inr ⟨hempty, hdies, ?_⟩
      intro r' hr'
      exact List.mem_append_left _ (List.mem_map_of_mem hr')
    · exact .inl (by simp only [Heap.contents_clearSlot]; exact Function.update_of_ne hslot _ _)
  · intro r' hr'
    rw [hi] at hr'
    rcases mem_tail hr' with rfl | hrest
    · exact .inr hempty
    · exact .inl (List.mem_append_right _ (List.mem_cons_of_mem _ hrest))
  · intro r' hr'
    rcases mem_map_drop hr' with hown | hrest
    · exact .inr (.inr ⟨_, hown, hdies⟩)
    · rcases List.mem_cons.mp hrest with heq | hrest
      · exact absurd heq (by simp)
      · exact .inl (mem_items hi hrest)
  · intro q hq
    rw [hi] at hq
    exact .inl (List.mem_append_right _ (List.mem_cons_of_mem _ (clear_mem_tail hq)))
  · intro t'
    have hb := h.balance t'
    have howed := congrArg (Pool.weight (Resource.counts t')) (Conf.outstanding_slot hi)
    rw [Pool.weight_cons] at howed
    -- a socket keeps no task alive
    have hzero : (Resource.stream k : Resource T K).counts t' = 0 := rfl
    simp only [Conf.owed] at hb ⊢
    rw [hzero, Nat.zero_add] at howed
    rw [← howed]
    exact hb
  · intro t' hzero
    have hold := h.dead t' hzero
    simp only [Heap.contents_clearSlot]
    refine ⟨?_, ?_⟩
    · rw [Function.update_of_ne (by simp)]
      exact hold.1
    · rw [Function.update_of_ne (by simp)]
      exact hold.2

omit [DecidableEq K] in
/-- What is spawned is in the injector from now on. -/
theorem drainInv_spawn {c : Conf n T K} (h : DrainInv h₀ outside c) {t : T}
    {rest : List (Item n T K)} (hi : c.items = .drop (.spawn t) :: rest) :
    DrainInv h₀ outside { c with items := rest, injector := c.injector ++ [t] } := by
  have hitem : .drop (.spawn t) ∈ c.items := by
    rw [hi]
    exact List.mem_cons_self
  refine h.moves ⟨fun p => .inl rfl, ?_, ?_, ?_, .inr ⟨t, hitem, rfl⟩, fun _ => rfl⟩ ?_ h.dead
  · intro r' hr'
    rw [hi] at hr'
    rcases mem_tail hr' with rfl | hrest
    · exact .inr (List.mem_append_right _ (List.mem_singleton.mpr rfl))
    · exact .inl hrest
  · intro r' hr'
    exact .inl (mem_items hi hr')
  · intro q hq
    rw [hi] at hq
    exact .inl (clear_mem_tail hq)
  · intro t'
    have hb := h.balance t'
    have howed := congrArg (Pool.weight (Resource.counts t')) (Conf.outstanding_spawn hi)
    rw [Pool.weight_cons, counts_of_target rfl] at howed
    -- the reference has moved from the list to the injector
    simp only [Conf.owed, List.count_append] at hb ⊢
    by_cases ht : t' = t
    · subst ht
      rw [if_pos rfl] at howed
      rw [List.count_singleton_self]
      omega
    · rw [if_neg ht] at howed
      rw [List.count_singleton, if_neg (by simp [Ne.symm ht])]
      omega

/-- The turn of a queue. -/
theorem drainInv_clear {c : Conf n T K} (h : DrainInv h₀ outside c) {q : Queue n}
    {rest : List (Item n T K)} (hi : c.items = .clear q :: rest) :
    DrainInv h₀ outside { c with
      heap := c.heap.clearQueue q
      items := (c.heap.contents (.queue q)).map .drop ++ rest } := by
  have hempty : (c.heap.clearQueue q).contents (.queue q) = [] := by
    rw [Heap.contents_clearQueue, Function.update_self]
  have hother : ∀ p, p ≠ .queue q → (c.heap.clearQueue q).contents p = c.heap.contents p := by
    intro p hp
    rw [Heap.contents_clearQueue]
    exact Function.update_of_ne hp _ _
  refine h.moves ⟨?_, ?_, ?_, ?_, .inl rfl, fun _ => rfl⟩ ?_ ?_
  · intro p
    by_cases hp : p = .queue q
    · subst hp
      refine .inr ⟨hempty, .queue, ?_⟩
      intro r hr
      exact List.mem_append_left _ (List.mem_map_of_mem hr)
    · exact .inl (hother p hp)
  · intro r hr
    rw [hi] at hr
    rcases List.mem_cons.mp hr with heq | hrest
    · exact absurd heq (by simp)
    · exact .inl (List.mem_append_right _ hrest)
  · intro r hr
    rcases mem_map_drop hr with hown | hrest
    · exact .inr (.inr ⟨_, hown, .queue⟩)
    · exact .inl (mem_items hi hrest)
  · intro q' hq'
    rw [hi] at hq'
    rcases List.mem_cons.mp hq' with heq | hrest
    · obtain rfl := Item.clear.inj heq
      exact .inr hempty
    · exact .inl (List.mem_append_right _ hrest)
  · intro t
    have hb := h.balance t
    simp only [Conf.owed] at hb ⊢
    rw [Conf.outstanding_clear hi] at hb
    exact hb
  · intro t hzero
    have hold := h.dead t hzero
    exact ⟨(hother _ (by simp)).trans hold.1, (hother _ (by simp)).trans hold.2⟩

omit [DecidableEq K] in
/-- A lock is given back, and nothing else happens. -/
theorem drainInv_unlock {c : Conf n T K} (h : DrainInv h₀ outside c) {l : Lock}
    {rest : List (Item n T K)} (hi : c.items = .unlock l :: rest) :
    DrainInv h₀ outside { c with items := rest, locked := Function.update c.locked l false } := by
  refine h.moves ⟨fun p => .inl rfl, ?_, ?_, ?_, .inl rfl, fun _ => rfl⟩ ?_ h.dead
  · intro r hr
    rw [hi] at hr
    rcases List.mem_cons.mp hr with heq | hrest
    · exact absurd heq (by simp)
    · exact .inl hrest
  · intro r hr
    exact .inl (mem_items hi hr)
  · intro q hq
    rw [hi] at hq
    rcases List.mem_cons.mp hq with heq | hrest
    · exact absurd heq (by simp)
    · exact .inl hrest
  · intro t
    have hb := h.balance t
    simp only [Conf.owed, Conf.outstanding, hi, drops_unlock] at hb ⊢
    exact hb

theorem drainInv_step {c c' : Conf n T K} (h : DrainInv h₀ outside c) (hs : StepTo c c') :
    DrainInv h₀ outside c' := by
  cases hs with
  | unlock hi => exact drainInv_unlock h hi
  | lower hi hr hm => exact drainInv_lower h hi hr hm
  | free hi hr hone => exact drainInv_free h hi hr hone
  | output hi hc => exact drainInv_output h hi hc
  | slot hi _ => exact drainInv_slot h hi
  | spawn hi _ => exact drainInv_spawn h hi
  | clear hi => exact drainInv_clear h hi

theorem Sound.drained {s : Shared n T K} (h : Sound s outside) {d : Conf n T K}
    (hd : Drains s.opening d) : DrainInv s.heap outside d ∧ d.items = [] :=
  hd.invariant (I := DrainInv s.heap outside) (fun _ _ hi hs => drainInv_step hi hs) h.drainInv

/-- No container of `Shared` holds a task. -/
def Shared.Empty (s : Shared n T K) : Prop :=
  s.injector = [] ∧ (∀ q, s.heap.queues q = [])
    ∧ ∀ k, (s.heap.slots k).read = none ∧ (s.heap.slots k).write = none

/--
**When `Multi::drop` returns, no container holds a task, provided that the slots go too and
no destructor has spawned.**

The local queues and the timers are always empty. The slab is exactly if every slot that
holds a waker belongs to a socket that dies: its owner is a future all of whose task's
references are in the queues, in the timer driver, or in places that die in turn. The
injector is exactly if nothing that dies has a destructor that spawns.
-/
theorem drop_leaves_no_task {s s' : Shared n T K} (h : Sound s outside) (hd : s.Drops s') :
    s'.Empty ↔
      (∀ k, (s.heap.slots k).read ≠ none ∨ (s.heap.slots k).write ≠ none →
        Dies s.heap outside (.slot k))
      ∧ ∀ p t, .spawn t ∈ s.heap.contents p → ¬ Dies s.heap outside p := by
  obtain ⟨d, hdrains, rfl⟩ := hd
  obtain ⟨hi, hend⟩ := h.drained hdrains
  have hqueues : ∀ q, d.heap.queues q = [] :=
    fun q => List.map_eq_nil_iff.mp (hi.empty_of_dies hend .queue).1
  refine ⟨?_, ?_⟩
  · rintro ⟨hinjector, _, hslots⟩
    refine ⟨?_, ?_⟩
    · intro k hk
      have hempty := (hi.empty_iff hend (.slot k)).mp (slot_contents_eq_nil.mpr (hslots k))
      rcases hempty with hnil | hdies
      · obtain ⟨hread, hwrite⟩ := slot_contents_eq_nil.mp hnil
        rcases hk with hk | hk
        · exact absurd hread hk
        · exact absurd hwrite hk
      · exact hdies
    · intro p t hp hdies
      have hmem := (hi.mem_injector hend t).mpr ⟨p, hp, hdies⟩
      have hnil : d.injector = [] := hinjector
      rw [hnil] at hmem
      exact absurd hmem List.not_mem_nil
  · rintro ⟨hall, hspawn⟩
    refine ⟨?_, hqueues, ?_⟩
    · refine List.eq_nil_iff_forall_not_mem.mpr fun t ht => ?_
      obtain ⟨p, hp, hdies⟩ := (hi.mem_injector hend t).mp ht
      exact hspawn p t hp hdies
    · intro k
      refine slot_contents_eq_nil.mp ((hi.empty_iff hend (.slot k)).mpr ?_)
      by_cases hk : (s.heap.slots k).read ≠ none ∨ (s.heap.slots k).write ≠ none
      · exact .inr (hall k hk)
      · rw [not_or, not_not, not_not] at hk
        exact .inl (slot_contents_eq_nil.mpr hk)

end Invariant

/-! ## Runtimes with one socket -/

/-- `none` names the `Arc<Shared>`, which `n` tasks and `Multi` hold. -/
def sharedArc (n : Nat) : Alloc (Option T) K where
  strong := n + 1
  complete := false
  joinWaker := none
  spawner := none
  cell := []

/-- An unfinished task of that runtime. -/
def task (strong : Nat) (joinWaker : Option (Option T)) (cell : List (Resource (Option T) K)) :
    Alloc (Option T) K where
  strong := strong
  complete := false
  joinWaker := joinWaker
  spawner := some none
  cell := cell

/-- `Multi` holds the `Arc<Shared>`, and nobody outside holds a task. -/
def byMulti (t : Option T) : Nat := if t.isNone then 1 else 0

/-- The local queues are empty. -/
def sleeping (ts : List T) : Queue n → List T
  | .localQueue _ => []
  | .timers => ts

/-- A queued task owns the socket; the waker in its slot is left over from another task, which
is sleeping. -/
def passedOn : Shared 1 (Option Bool) Unit where
  heap :=
    { tasks
        | none => sharedArc 2
        | some true => task 2 none []
        | some false => task 1 none [.stream ()]
      slots := fun _ => { read := some (some true), write := none }
      queues := sleeping [some true] }
  injector := [some false]

theorem passedOn_sound : Sound passedOn byMulti where
  balance := by decide +kernel
  dead := by decide +kernel

theorem passedOn_drops : ∃ s', passedOn.Drops s' := by
  have hdrains : ∃ d, Drains passedOn.opening d :=
    ⟨_, .step rfl (.step rfl (.step rfl (.step rfl (.step rfl (.step rfl (.step rfl
      (.step rfl (.step rfl (.step rfl (.done rfl))))))))))⟩
  obtain ⟨d, hd⟩ := hdrains
  exact ⟨_, d, hd, rfl⟩

theorem drop_leaves_no_task_passedOn : ∃ s', passedOn.Drops s' ∧ s'.Empty := by
  obtain ⟨s', hs'⟩ := passedOn_drops
  refine ⟨s', hs', (drop_leaves_no_task passedOn_sound hs').mpr ⟨?_, ?_⟩⟩
  · intro k _
    -- nothing but the queue refers to the owner of the socket
    have hnone : ∀ p, ∀ r ∈ passedOn.heap.contents p, r.target ≠ some (some false) := by
      decide +kernel
    have hfree : Dies passedOn.heap byMulti (.header (some false)) :=
      .header rfl (fun p hp => hnone p _ hp rfl)
        (fun p r hr htarget => absurd htarget (hnone p r hr))
    exact .slot (p := .cell (some false)) List.mem_cons_self (.cell hfree)
  · intro p t hp
    have hnone : ∀ p, ∀ t, .spawn t ∉ passedOn.heap.contents p := by decide +kernel
    exact absurd hp (hnone p t)

/-- A task is parked in `ReadyFor` on its own socket. -/
def parkedOnSocket : Shared 1 (Option Unit) Unit where
  heap :=
    { tasks
        | none => sharedArc 1
        | some () => task 1 none [.stream ()]
      slots := fun _ => { read := some (some ()), write := none }
      queues := sleeping [] }
  injector := []

theorem drop_leaves_task : ∃ s', Sound parkedOnSocket byMulti ∧ parkedOnSocket.Drops s'
    ∧ ¬ s'.Empty := by
  refine ⟨_, ⟨by decide +kernel, by decide +kernel⟩,
    ⟨_, .step rfl (.step rfl (.step rfl (.done rfl))), rfl⟩, ?_⟩
  rintro ⟨_, _, hslots⟩
  exact absurd (hslots ()).1 (by decide)

/-- The future of a sleeping task spawns another one when it is dropped, and drops the handle. -/
def spawnsOnDrop : Shared 1 (Option Bool) Unit where
  heap :=
    { tasks
        | none => sharedArc 2
        | some true => task 2 none []
        | some false => task 1 none [.spawn (some true), .handle (some true)]
      slots := fun _ => { read := none, write := none }
      queues := sleeping [some false] }
  injector := []

example : ∃ s', Sound spawnsOnDrop byMulti ∧ spawnsOnDrop.Drops s' ∧ s'.injector = [some true] :=
  ⟨_, ⟨by decide +kernel, by decide +kernel⟩,
    ⟨_, .step rfl (.step rfl (.step rfl (.step rfl (.step rfl (.step rfl (.step rfl
      (.done rfl))))))), rfl⟩, rfl⟩

end Nanorun.Teardown
