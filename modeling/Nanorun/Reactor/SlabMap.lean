import Mathlib.Algebra.Group.Nat.Defs
import Mathlib.Logic.Function.Basic
import Nanorun.Lib.Calls
import Nanorun.Reactor.Slab

/-!
# The slab is a map

`reactor/slab.rs` word for word: `next_free` and the links of the vacant entries are
`usize`s, and `usize::MAX` ends the list. `Slab.lean` has `none` in its place, which
changes nothing while there are fewer than `usize::MAX` entries.

Seen from outside a slab is a map with two more things to it: the keys that were
freed, of which the last one is handed out first, and the number of keys handed out
so far, which is the next one when no freed key is left. `Map` says so, and every
answer of the slab is the map's. The free list through the entries is the map's list
of freed keys, so every vacant index is on it once and no occupied one is.
-/

namespace Nanorun.Reactor

open Calls Function

/-- `SENTINEL`, that is `usize::MAX`. -/
abbrev SENTINEL : Nat := 2 ^ 64 - 1

inductive WordEntry (σ : Type) where
  | vacant (next : Nat)
  | occupied (slot : σ)
  deriving DecidableEq, Repr

structure WordSlab (σ : Type) where
  entries : List (WordEntry σ)
  nextFree : Nat
  deriving DecidableEq, Repr

/-- The calls made on a slab; a `get_mut` may write what it gets. -/
inductive SlabOp (σ : Type) where
  | insert
  | remove (key : Nat)
  | getMut (key : Nat) (write : σ → σ)

inductive SlabReply (σ : Type) where
  | key (key : Nat)
  | done
  | slot (slot : Option σ)
  /-- The `unreachable!` of `insert`, or an index out of bounds. -/
  | panicked
  deriving DecidableEq, Repr

variable {σ : Type}

namespace WordSlab

/-- `Slab::new` -/
def new : WordSlab σ := { entries := [], nextFree := SENTINEL }

/-- `Slab::remove` -/
def remove (s : WordSlab σ) (key : Nat) : WordSlab σ :=
  match s.entries[key]? with
  | none => s
  | some (.vacant _) => s
  | some (.occupied _) => { entries := s.entries.set key (.vacant s.nextFree), nextFree := key }

/-- `Slab::get_mut` -/
def get (s : WordSlab σ) (key : Nat) : Option σ :=
  match s.entries[key]? with
  | some (.occupied slot) => some slot
  | _ => none

/-- A write through `Slab::get_mut`. -/
def modify (s : WordSlab σ) (key : Nat) (write : σ → σ) : WordSlab σ :=
  match s.entries[key]? with
  | some (.occupied slot) => { s with entries := s.entries.set key (.occupied (write slot)) }
  | _ => s

section

variable [Inhabited σ]

/-- `Slab::insert`; the default of `σ` is `Slot::default()`. -/
def insert (s : WordSlab σ) : Option (Nat × WordSlab σ) :=
  if s.nextFree = SENTINEL then
    some (s.entries.length, { s with entries := s.entries ++ [.occupied default] })
  else
    match s.entries[s.nextFree]? with
    | some (.vacant next) =>
        some (s.nextFree,
          { entries := s.entries.set s.nextFree (.occupied default), nextFree := next })
    | some (.occupied _) => none
    | none => none

def call (s : WordSlab σ) : SlabOp σ → WordSlab σ × SlabReply σ
  | .insert =>
      match s.insert with
      | some (key, s') => (s', .key key)
      | none => (s, .panicked)
  | .remove key => (s.remove key, .done)
  | .getMut key write => (s.modify key write, .slot (s.get key))

end

/-- Fewer than `usize::MAX` entries. -/
def Small (s : WordSlab σ) : Prop := s.entries.length < SENTINEL

instance decidableSmall : DecidablePred (Small (σ := σ)) :=
  fun s => inferInstanceAs (Decidable (s.entries.length < SENTINEL))

/-- From `next` on the links lead through `keys`, all vacant, to the sentinel. -/
def Visits (entries : List (WordEntry σ)) : Nat → List Nat → Prop
  | next, [] => next = SENTINEL
  | next, key :: keys => next ≠ SENTINEL ∧ next = key
      ∧ ∃ next', entries[key]? = some (.vacant next') ∧ Visits entries next' keys

/-- The free list is `keys`: each vacant index once, and no other. -/
structure FreeList (s : WordSlab σ) (keys : List Nat) : Prop where
  visits : Visits s.entries s.nextFree keys
  nodup : keys.Nodup
  vacant : ∀ key, key ∈ keys ↔ ∃ next, s.entries[key]? = some (.vacant next)

end WordSlab

/-! ## What a slab is for -/

/-- Bindings, the keys that were freed, last one first, and how many keys there are. -/
structure Map (σ : Type) where
  bindings : Nat → Option σ
  freed : List Nat
  handedOut : Nat

namespace Map

def new : Map σ := { bindings := fun _ => none, freed := [], handedOut := 0 }

/-- A call on the map. -/
def call [Inhabited σ] (m : Map σ) : SlabOp σ → Map σ × SlabReply σ
  | .insert =>
      match m.freed with
      | key :: keys =>
          ({ m with bindings := update m.bindings key (some default), freed := keys }, .key key)
      | [] =>
          ({ m with
              bindings := update m.bindings m.handedOut (some default)
              handedOut := m.handedOut + 1 }, .key m.handedOut)
  | .remove key =>
      match m.bindings key with
      | some _ => ({ m with bindings := update m.bindings key none, freed := key :: m.freed }, .done)
      | none => (m, .done)
  | .getMut key write =>
      ({ m with bindings := update m.bindings key ((m.bindings key).map write) },
        .slot (m.bindings key))

end Map

/-! ## Words and links -/

/-- A link; the sentinel is no index. -/
def link (next : Nat) : Option Nat := if next = SENTINEL then none else some next

def WordEntry.abs : WordEntry σ → SlabEntry σ
  | .vacant next => .vacant (link next)
  | .occupied slot => .occupied slot

/-- The slab without words. -/
def WordSlab.abs (s : WordSlab σ) : RawSlab σ :=
  { entries := s.entries.map WordEntry.abs, nextFree := link s.nextFree }

namespace WordSlab

@[simp] theorem abs_getElem? (s : WordSlab σ) (key : Nat) :
    s.abs.entries[key]? = (s.entries[key]?).map WordEntry.abs := List.getElem?_map ..

theorem abs_get (s : WordSlab σ) (key : Nat) : s.abs.get key = s.get key := by
  unfold RawSlab.get get
  rw [abs_getElem?]
  cases s.entries[key]? with
  | none => rfl
  | some e => cases e <;> rfl

theorem abs_modify (s : WordSlab σ) (key : Nat) (write : σ → σ) :
    (s.modify key write).abs = s.abs.modify key write := by
  unfold RawSlab.modify modify
  rw [abs_getElem?]
  cases s.entries[key]? with
  | none => rfl
  | some e =>
      cases e with
      | vacant next => rfl
      | occupied slot => simp [abs, WordEntry.abs, List.map_set]

/-- An index is not the sentinel, so it can be linked to. -/
theorem abs_remove {s : WordSlab σ} (h : s.Small) (key : Nat) :
    (s.remove key).abs = s.abs.remove key := by
  unfold RawSlab.remove remove
  rw [abs_getElem?]
  cases hk : s.entries[key]? with
  | none => rfl
  | some e =>
      cases e with
      | vacant next => rfl
      | occupied slot =>
          have hlt : key < s.entries.length := (List.getElem?_eq_some_iff.mp hk).1
          have hne : key ≠ SENTINEL := by
            unfold Small at h
            omega
          simp [abs, WordEntry.abs, List.map_set, link, hne]

theorem abs_insert [Inhabited σ] (s : WordSlab σ) :
    s.abs.insert default = s.insert.map fun r => (r.1, r.2.abs) := by
  unfold RawSlab.insert insert
  by_cases hend : s.nextFree = SENTINEL
  · simp [abs, link, hend, WordEntry.abs]
  · have hlink : s.abs.nextFree = some s.nextFree := if_neg hend
    rw [if_neg hend, hlink]
    simp only [abs_getElem?]
    cases s.entries[s.nextFree]? with
    | none => rfl
    | some e =>
        cases e with
        | occupied slot => rfl
        | vacant next => simp [abs, WordEntry.abs, List.map_set]

theorem visits_iff {entries : List (WordEntry σ)} {next : Nat} {keys : List Nat} :
    Visits entries next keys ↔ FreeFrom (entries.map WordEntry.abs) (link next) keys := by
  induction keys generalizing next with
  | nil =>
      unfold Visits link
      split
      · rename_i hend
        exact ⟨fun _ => trivial, fun _ => hend⟩
      · rename_i hend
        exact ⟨fun h => absurd h hend, fun h => False.elim h⟩
  | cons key keys ih =>
      unfold Visits
      by_cases hend : next = SENTINEL
      · simp [link, hend, FreeFrom]
      · rw [link, if_neg hend]
        simp only [FreeFrom, ne_eq, hend, not_false_eq_true, true_and, List.getElem?_map]
        constructor
        · rintro ⟨rfl, next', hv, hrest⟩
          exact ⟨rfl, link next', by rw [hv]; rfl, ih.mp hrest⟩
        · rintro ⟨rfl, l, hv, hrest⟩
          obtain ⟨e, he, habs⟩ := Option.map_eq_some_iff.mp hv
          cases e with
          | occupied slot => exact absurd habs (by simp [WordEntry.abs])
          | vacant next' =>
              obtain rfl := SlabEntry.vacant.inj habs
              exact ⟨rfl, next', he, ih.mpr hrest⟩

end WordSlab

/-! ## The free list is the list of freed keys -/

namespace RawSlab

/-- `keys` are the vacant entries, in the order of the free list. -/
structure Threaded (s : RawSlab σ) (keys : List Nat) : Prop where
  chain : FreeFrom s.entries s.nextFree keys
  nodup : keys.Nodup
  vacant : ∀ key, key ∈ keys ↔ ∃ next, s.entries[key]? = some (.vacant next)

namespace Threaded

variable {s : RawSlab σ} {keys : List Nat}

theorem valid (h : Threaded s keys) : s.Valid := ⟨keys, h.chain, h.nodup⟩

/-- No freed key is left, so the new one is the end of the vector. -/
theorem insert_end (h : Threaded s []) (slot : σ) :
    ∃ s', s.insert slot = some (s.entries.length, s') ∧ Threaded s' []
      ∧ s'.entries.length = s.entries.length + 1 := by
  have hnone : s.nextFree = none := by
    have hchain := h.chain
    cases hn : s.nextFree with
    | none => rfl
    | some k => rw [hn] at hchain; exact False.elim hchain
  refine ⟨{ s with entries := s.entries ++ [.occupied slot] }, ?_, ⟨?_, List.nodup_nil, ?_⟩, ?_⟩
  · simp only [RawSlab.insert, hnone]
  · exact h.chain.append _
  · intro key
    rw [h.vacant key]
    constructor
    · rintro ⟨next, hv⟩
      have hlt : key < s.entries.length := (List.getElem?_eq_some_iff.mp hv).1
      exact ⟨next, by rw [List.getElem?_append_left hlt]; exact hv⟩
    · rintro ⟨next, hv⟩
      by_cases hlt : key < s.entries.length
      · exact ⟨next, by rw [List.getElem?_append_left hlt] at hv; exact hv⟩
      -- the only entry beyond the old end is occupied
      · rw [List.getElem?_append_right (by omega)] at hv
        have hmem := List.mem_of_getElem? hv
        exact absurd (List.mem_singleton.mp hmem) (by simp)
  · simp

/-- The last freed key is taken off the list. -/
theorem insert_freed {key : Nat} (h : Threaded s (key :: keys)) (slot : σ) :
    ∃ s', s.insert slot = some (key, s') ∧ Threaded s' keys
      ∧ s'.entries.length = s.entries.length := by
  have hchain := h.chain
  cases hn : s.nextFree with
  | none => rw [hn] at hchain; exact False.elim hchain
  | some k =>
      rw [hn] at hchain
      obtain ⟨rfl, next, hv, hrest⟩ := hchain
      obtain ⟨hnot, hnd⟩ := List.nodup_cons.mp h.nodup
      have hlt : k < s.entries.length := (List.getElem?_eq_some_iff.mp hv).1
      refine ⟨{ entries := s.entries.set k (.occupied slot), nextFree := next }, ?_,
        ⟨hrest.set hnot _, hnd, ?_⟩, by simp⟩
      · simp only [RawSlab.insert, hn, hv]
      · intro j
        by_cases hj : j = k
        · subst hj
          simp only [hnot, List.getElem?_set_self hlt, false_iff]
          rintro ⟨next', hc⟩
          exact absurd hc (by simp)
        · rw [List.getElem?_set_ne (Ne.symm hj), ← h.vacant j, List.mem_cons, or_iff_right hj]

theorem remove_live (h : Threaded s keys) {key : Nat} {slot : σ} (hk : s.get key = some slot) :
    Threaded (s.remove key) (key :: keys)
      ∧ (s.remove key).entries.length = s.entries.length := by
  have hent : s.entries[key]? = some (.occupied slot) := by
    unfold RawSlab.get at hk
    split at hk
    · rename_i slot' hslot
      rw [hslot, Option.some.inj hk]
    · exact absurd hk (by simp)
  have hr : s.remove key
      = { entries := s.entries.set key (.vacant s.nextFree), nextFree := some key } := by
    simp only [RawSlab.remove, hent]
  have hlt : key < s.entries.length := (List.getElem?_eq_some_iff.mp hent).1
  have hnot := h.chain.not_mem hent
  rw [hr]
  refine ⟨⟨⟨rfl, s.nextFree, List.getElem?_set_self hlt, h.chain.set hnot _⟩,
    List.nodup_cons.mpr ⟨hnot, h.nodup⟩, ?_⟩, by simp⟩
  intro j
  by_cases hj : j = key
  · subst hj
    simp only [List.mem_cons_self, List.getElem?_set_self hlt, true_iff]
    exact ⟨_, rfl⟩
  · rw [List.getElem?_set_ne (Ne.symm hj), ← h.vacant j, List.mem_cons, or_iff_right hj]

theorem modify (h : Threaded s keys) (key : Nat) (write : σ → σ) :
    Threaded (s.modify key write) keys
      ∧ (s.modify key write).entries.length = s.entries.length := by
  unfold RawSlab.modify
  split
  · rename_i slot hent
    have hlt : key < s.entries.length := (List.getElem?_eq_some_iff.mp hent).1
    have hnot := h.chain.not_mem hent
    refine ⟨⟨h.chain.set hnot _, h.nodup, ?_⟩, by simp⟩
    intro j
    by_cases hj : j = key
    · subst hj
      simp only [hnot, List.getElem?_set_self hlt, false_iff]
      rintro ⟨next, hc⟩
      exact absurd hc (by simp)
    · rw [List.getElem?_set_ne (Ne.symm hj)]
      exact h.vacant j
  · exact ⟨h, rfl⟩

end Threaded

end RawSlab

/-- A key that is not live is not removed. -/
theorem WordSlab.remove_absent {s : WordSlab σ} {key : Nat} (h : s.get key = none) :
    s.remove key = s := by
  unfold WordSlab.remove
  split
  · rfl
  · rfl
  · rename_i slot hent
    rw [WordSlab.get, hent] at h
    exact absurd h (by simp)

/-! ## One call -/

/-- The slab stands for the map. -/
structure StandsFor (s : WordSlab σ) (m : Map σ) : Prop where
  threaded : s.abs.Threaded m.freed
  bindings : ∀ key, s.get key = m.bindings key
  handedOut : s.entries.length = m.handedOut

theorem standsFor_new : StandsFor (WordSlab.new : WordSlab σ) Map.new where
  threaded := ⟨trivial, List.nodup_nil, by simp [WordSlab.new, WordSlab.abs, Map.new]⟩
  bindings := by intro key; simp [WordSlab.new, WordSlab.get, Map.new]
  handedOut := rfl

namespace StandsFor

variable {s : WordSlab σ} {m : Map σ}

theorem abs_length (s : WordSlab σ) : s.abs.entries.length = s.entries.length := by
  simp [WordSlab.abs]

theorem freeList (h : StandsFor s m) : s.FreeList m.freed where
  visits := WordSlab.visits_iff.mpr h.threaded.chain
  nodup := h.threaded.nodup
  vacant := by
    intro key
    rw [h.threaded.vacant key]
    simp only [WordSlab.abs_getElem?]
    constructor
    · rintro ⟨l, hl⟩
      obtain ⟨e, he, habs⟩ := Option.map_eq_some_iff.mp hl
      cases e with
      | occupied slot => exact absurd habs (by simp [WordEntry.abs])
      | vacant next => exact ⟨next, he⟩
    · rintro ⟨next, hnext⟩
      exact ⟨link next, by rw [hnext]; rfl⟩

section

variable [Inhabited σ]

/-- What an `insert` that hands out `key` leaves. -/
theorem inserted (h : StandsFor s m) {key : Nat} {t : RawSlab σ} {keys : List Nat} {n : Nat}
    (hins : s.abs.insert default = some (key, t)) (ht : t.Threaded keys)
    (hlen : t.entries.length = n) :
    ∃ s', s.insert = some (key, s') ∧ StandsFor s'
      { bindings := update m.bindings key (some default), freed := keys, handedOut := n } := by
  rw [WordSlab.abs_insert] at hins
  obtain ⟨⟨k, s'⟩, hs', heq⟩ := Option.map_eq_some_iff.mp hins
  obtain ⟨rfl, rfl⟩ := Prod.mk.inj heq
  refine ⟨s', hs', ht, ?_, by rw [← hlen, abs_length]⟩
  intro j
  obtain ⟨t, ht, _, _, hself, hother⟩ := h.threaded.valid.insert (default : σ)
  rw [WordSlab.abs_insert, hs'] at ht
  obtain ⟨hk, rfl⟩ := Prod.mk.inj (Option.some.inj ht)
  have hk : k = s.abs.nextKey := hk
  show s'.get j = update m.bindings k (some default) j
  by_cases hj : j = k
  · subst hj
    rw [update_self, ← WordSlab.abs_get, hk]
    exact hself
  · rw [update_of_ne hj, ← h.bindings j, ← WordSlab.abs_get, ← WordSlab.abs_get s]
    exact hother j (by rw [← hk]; exact hj)

/-- **One call answers as the map does, and leaves a slab that stands for the map it leaves.** -/
theorem call (h : StandsFor s m) (hs : s.Small) (op : SlabOp σ) :
    StandsFor (s.call op).1 (m.call op).1 ∧ (s.call op).2 = (m.call op).2 := by
  cases op with
  | insert =>
      have hth := h.threaded
      simp only [WordSlab.call, Map.call]
      cases hf : m.freed with
      | nil =>
          rw [hf] at hth
          obtain ⟨t, hins, ht, hlen⟩ := hth.insert_end (default : σ)
          rw [abs_length] at hins hlen
          obtain ⟨s', hs', hstand⟩ := h.inserted hins ht (hlen.trans (by rw [h.handedOut]))
          rw [hs', ← h.handedOut]
          rw [← h.handedOut] at hstand
          exact ⟨hstand, rfl⟩
      | cons key keys =>
          rw [hf] at hth
          obtain ⟨t, hins, ht, hlen⟩ := hth.insert_freed (default : σ)
          rw [abs_length] at hlen
          obtain ⟨s', hs', hstand⟩ := h.inserted hins ht (hlen.trans h.handedOut)
          rw [hs']
          exact ⟨hstand, rfl⟩
  | remove key =>
      have hget := h.bindings key
      simp only [WordSlab.call, Map.call]
      cases hb : m.bindings key with
      | none =>
          rw [hb] at hget
          rw [WordSlab.remove_absent hget]
          exact ⟨h, rfl⟩
      | some slot =>
          rw [hb] at hget
          have hlive : s.abs.get key = some slot := (WordSlab.abs_get s key).trans hget
          obtain ⟨hth, hlen⟩ := h.threaded.remove_live hlive
          rw [← WordSlab.abs_remove hs] at hth hlen
          rw [abs_length, abs_length] at hlen
          refine ⟨⟨hth, ?_, hlen.trans h.handedOut⟩, rfl⟩
          intro j
          obtain ⟨_, hself, hother⟩ := h.threaded.valid.remove key
          show (s.remove key).get j = update m.bindings key none j
          rw [← WordSlab.abs_get, WordSlab.abs_remove hs]
          by_cases hj : j = key
          · subst hj
            rw [update_self]
            exact hself
          · rw [update_of_ne hj, ← h.bindings j, ← WordSlab.abs_get]
            exact hother j hj
  | getMut key write =>
      obtain ⟨hth, hlen⟩ := h.threaded.modify key write
      rw [← WordSlab.abs_modify] at hth hlen
      rw [abs_length, abs_length] at hlen
      refine ⟨⟨hth, ?_, hlen.trans h.handedOut⟩, by simp only [WordSlab.call, Map.call, h.bindings]⟩
      intro j
      obtain ⟨_, hself, hother⟩ := h.threaded.valid.modify key write
      show (s.modify key write).get j = update m.bindings key _ j
      rw [← WordSlab.abs_get, WordSlab.abs_modify]
      by_cases hj : j = key
      · subst hj
        rw [update_self, ← h.bindings j, ← WordSlab.abs_get]
        exact hself
      · rw [update_of_ne hj, ← h.bindings j, ← WordSlab.abs_get]
        exact hother j hj

end

end StandsFor

/-! ## What a call does to the bindings -/

section

variable [Inhabited σ]

/-- What a caller may rely on. -/
def Law (s : WordSlab σ) (op : SlabOp σ) (reply : SlabReply σ) (s' : WordSlab σ) : Prop :=
  match op, reply with
  | .insert, .key key =>
      s.get key = none ∧ s'.get key = some default ∧ ∀ j, j ≠ key → s'.get j = s.get j
  | .remove key, .done =>
      s'.get key = none ∧ (∀ j, j ≠ key → s'.get j = s.get j) ∧ (s.get key = none → s' = s)
  | .getMut key write, .slot slot =>
      slot = s.get key ∧ s'.get key = (s.get key).map write ∧ ∀ j, j ≠ key → s'.get j = s.get j
  | _, _ => False

/-- The key a call is made with. -/
def SlabOp.names : SlabOp σ → Option Nat
  | .insert => none
  | .remove key => some key
  | .getMut key _ => some key

/-- What the call does to the bindings; an `insert` binds the key it has returned. -/
def SlabOp.effect (op : SlabOp σ) (reply : SlabReply σ) (b : Nat → Option σ) : Nat → Option σ :=
  match op, reply with
  | .insert, .key key => update b key (some default)
  | .insert, _ => b
  | .remove key, _ => update b key none
  | .getMut key write, _ => update b key ((b key).map write)

/-- What a list of calls does to the bindings. -/
def effects : List (SlabOp σ) → List (SlabReply σ) → (Nat → Option σ) → Nat → Option σ
  | op :: ops, reply :: replies, b => effects ops replies (op.effect reply b)
  | _, _, b => b

namespace StandsFor

variable {s : WordSlab σ} {m : Map σ}

/-- The key that the map hands out is not live. -/
theorem vacant (h : StandsFor s m) {key : Nat} (hr : (m.call .insert).2 = .key key) :
    s.get key = none := by
  simp only [Map.call] at hr
  cases hf : m.freed with
  | nil =>
      rw [hf] at hr
      obtain rfl := SlabReply.key.inj hr
      rw [WordSlab.get, ← h.handedOut, List.getElem?_eq_none (Nat.le_refl _)]
  | cons k keys =>
      rw [hf] at hr
      obtain rfl := SlabReply.key.inj hr
      obtain ⟨next, hv⟩ := (h.freeList.vacant k).mp (by rw [hf]; exact List.mem_cons_self)
      rw [WordSlab.get, hv]

theorem law (h : StandsFor s m) (hs : s.Small) (op : SlabOp σ) :
    Law s op (s.call op).2 (s.call op).1 := by
  obtain ⟨hstand, hreply⟩ := h.call hs op
  cases op with
  | insert =>
      obtain ⟨key, hkey, hbind⟩ : ∃ key, (m.call .insert).2 = .key key
          ∧ (m.call .insert).1.bindings = update m.bindings key (some default) := by
        simp only [Map.call]
        cases m.freed with
        | nil => exact ⟨_, rfl, rfl⟩
        | cons k keys => exact ⟨_, rfl, rfl⟩
      rw [hreply, hkey]
      refine ⟨h.vacant hkey, ?_, ?_⟩
      · rw [hstand.bindings, hbind, update_self]
      · intro j hj
        rw [hstand.bindings, hbind, update_of_ne hj, h.bindings]
  | remove key =>
      have hbind : (m.call (.remove key)).1.bindings = update m.bindings key none := by
        simp only [Map.call]
        cases hb : m.bindings key with
        | none =>
            have hself := update_eq_self key m.bindings
            rw [hb] at hself
            exact hself.symm
        | some slot => rfl
      refine ⟨?_, ?_, fun hnone => WordSlab.remove_absent hnone⟩
      · rw [hstand.bindings, hbind, update_self]
      · intro j hj
        rw [hstand.bindings, hbind, update_of_ne hj, h.bindings]
  | getMut key write =>
      refine ⟨rfl, ?_, ?_⟩
      · rw [hstand.bindings, h.bindings]
        exact update_self key _ m.bindings
      · intro j hj
        rw [hstand.bindings, h.bindings]
        exact update_of_ne hj _ m.bindings

/-- The effect of a call is what it does. -/
theorem effect (h : StandsFor s m) (hs : s.Small) (op : SlabOp σ) :
    (s.call op).1.get = op.effect (s.call op).2 s.get := by
  have hlaw := h.law hs op
  funext j
  cases op with
  | insert =>
      cases hr : (s.call .insert).2 with
      | key key =>
          rw [hr] at hlaw
          obtain ⟨_, hself, hother⟩ := hlaw
          by_cases hj : j = key
          · subst hj
            rw [SlabOp.effect, update_self]
            exact hself
          · rw [SlabOp.effect, update_of_ne hj]
            exact hother j hj
      | _ => rw [hr] at hlaw; exact False.elim hlaw
  | remove key =>
      obtain ⟨hself, hother, _⟩ := hlaw
      by_cases hj : j = key
      · subst hj
        rw [SlabOp.effect, update_self]
        exact hself
      · rw [SlabOp.effect, update_of_ne hj]
        exact hother j hj
  | getMut key write =>
      obtain ⟨_, hself, hother⟩ := hlaw
      by_cases hj : j = key
      · subst hj
        rw [SlabOp.effect, update_self]
        exact hself
      · rw [SlabOp.effect, update_of_ne hj]
        exact hother j hj

/-- **A run answers as the map does.** -/
theorem run (h : StandsFor s m) {ops : List (SlabOp σ)}
    (hs : Stays WordSlab.call WordSlab.Small s ops) :
    StandsFor (Calls.run WordSlab.call s ops).1 (Calls.run Map.call m ops).1
      ∧ (Calls.run WordSlab.call s ops).2 = (Calls.run Map.call m ops).2 := by
  induction ops generalizing s m with
  | nil => exact ⟨h, rfl⟩
  | cons op ops ih =>
      obtain ⟨hstand, hreply⟩ := h.call hs.1 op
      obtain ⟨hrest, hreplies⟩ := ih hstand hs.2
      refine ⟨hrest, ?_⟩
      rw [Calls.run, Calls.run, hreply, hreplies]

theorem effects_run (h : StandsFor s m) {ops : List (SlabOp σ)}
    (hs : Stays WordSlab.call WordSlab.Small s ops) :
    (Calls.run WordSlab.call s ops).1.get = effects ops (Calls.run WordSlab.call s ops).2 s.get := by
  induction ops generalizing s m with
  | nil => rfl
  | cons op ops ih =>
      rw [Calls.run, effects, ← h.effect hs.1 op]
      exact ih (h.call hs.1 op).1 hs.2

end StandsFor

/-- A call that does not touch `k` leaves its binding, and does the same to the others. -/
theorem effect_away {op : SlabOp σ} {reply : SlabReply σ} {k : Nat} (hop : op.names ≠ some k)
    (hreply : reply ≠ .key k) {b b' : Nat → Option σ} (hb : ∀ j, j ≠ k → b j = b' j) :
    op.effect reply b k = b k ∧ ∀ j, j ≠ k → op.effect reply b j = op.effect reply b' j := by
  -- one key is written, and it is not `k`
  have hwrite : ∀ key v, key ≠ k → update b key v k = b k
      ∧ ∀ j, j ≠ k → update b key v j = update b' key v j := by
    intro key v hne
    refine ⟨update_of_ne (Ne.symm hne) v b, ?_⟩
    intro j hj
    by_cases hjk : j = key
    · subst hjk
      rw [update_self, update_self]
    · rw [update_of_ne hjk, update_of_ne hjk]
      exact hb j hj
  cases op with
  | insert =>
      cases reply with
      | key key => exact hwrite key _ fun heq => hreply (congrArg SlabReply.key heq)
      | _ => exact ⟨rfl, hb⟩
  | remove key => exact hwrite key _ fun heq => hop (congrArg some heq)
  | getMut key write =>
      have hne : key ≠ k := fun heq => hop (congrArg some heq)
      have hsame := hwrite key ((b key).map write) hne
      rw [SlabOp.effect, SlabOp.effect, ← hb key hne]
      exact hsame

theorem effects_away {ops : List (SlabOp σ)} {replies : List (SlabReply σ)} {k : Nat}
    (hops : ∀ op ∈ ops, op.names ≠ some k) (hreplies : .key k ∉ replies) {b b' : Nat → Option σ}
    (hb : ∀ j, j ≠ k → b j = b' j) :
    effects ops replies b k = b k ∧ ∀ j, j ≠ k → effects ops replies b j = effects ops replies b' j := by
  induction ops generalizing replies b b' with
  | nil => cases replies <;> exact ⟨rfl, hb⟩
  | cons op ops ih =>
      cases replies with
      | nil => exact ⟨rfl, hb⟩
      | cons reply replies =>
          rw [List.mem_cons, not_or] at hreplies
          have hop := hops op List.mem_cons_self
          obtain ⟨hk, hoff⟩ := effect_away hop (Ne.symm hreplies.1) hb
          obtain ⟨hk', hoff'⟩ :=
            ih (fun o ho => hops o (List.mem_cons_of_mem _ ho)) hreplies.2 hoff
          exact ⟨hk'.trans hk, hoff'⟩

/-- Without an `insert` the replies do not matter. -/
theorem effects_named {ops : List (SlabOp σ)} (hops : ∀ op ∈ ops, op.names ≠ none)
    {replies replies' : List (SlabReply σ)} (hlen : replies.length = ops.length)
    (hlen' : replies'.length = ops.length) (b : Nat → Option σ) :
    effects ops replies b = effects ops replies' b := by
  induction ops generalizing replies replies' b with
  | nil => cases replies <;> cases replies' <;> rfl
  | cons op ops ih =>
      match replies, replies', hlen, hlen' with
      | r :: rs, r' :: rs', hlen, hlen' =>
          have hsame : op.effect r b = op.effect r' b := by
            cases op with
            | insert => exact absurd rfl (hops .insert List.mem_cons_self)
            | remove key => rfl
            | getMut key write => rfl
          rw [effects, effects, hsame]
          exact ih (fun o ho => hops o (List.mem_cons_of_mem _ ho)) (Nat.succ.inj hlen)
            (Nat.succ.inj hlen') _

theorem length_run (s : WordSlab σ) (ops : List (SlabOp σ)) :
    (Calls.run WordSlab.call s ops).2.length = ops.length := by
  induction ops generalizing s with
  | nil => rfl
  | cons op ops ih => rw [Calls.run, List.length_cons, List.length_cons, ih]

/-- Only `insert` makes the slab longer. -/
theorem stays_named {s : WordSlab σ} (hs : s.Small) {ops : List (SlabOp σ)}
    (hops : ∀ op ∈ ops, op.names ≠ none) : Stays WordSlab.call WordSlab.Small s ops := by
  induction ops generalizing s with
  | nil => exact hs
  | cons op ops ih =>
      refine ⟨hs, ih ?_ fun o ho => hops o (List.mem_cons_of_mem _ ho)⟩
      have hlen : (s.call op).1.entries.length = s.entries.length := by
        cases op with
        | insert => exact absurd rfl (hops .insert List.mem_cons_self)
        | remove key =>
            show (s.remove key).entries.length = _
            unfold WordSlab.remove
            split <;> simp
        | getMut key write =>
            show (s.modify key write).entries.length = _
            unfold WordSlab.modify
            split <;> simp
      unfold WordSlab.Small at hs ⊢
      rw [hlen]
      exact hs

namespace StandsFor

variable {s : WordSlab σ} {m : Map σ}

/-- A live key that no call names stays live, so no `insert` returns it. -/
theorem not_returned (h : StandsFor s m) {ops : List (SlabOp σ)}
    (hs : Stays WordSlab.call WordSlab.Small s ops) {k : Nat} (hops : ∀ op ∈ ops, op.names ≠ some k)
    (hk : s.get k ≠ none) : .key k ∉ (Calls.run WordSlab.call s ops).2 := by
  induction ops generalizing s m with
  | nil => exact List.not_mem_nil
  | cons op ops ih =>
      have hlaw := h.law hs.1 op
      have hne : (s.call op).2 ≠ .key k := by
        intro heq
        cases op with
        | insert =>
            rw [heq] at hlaw
            exact hk hlaw.1
        | remove key => exact absurd heq (by simp [WordSlab.call])
        | getMut key write => exact absurd heq (by simp [WordSlab.call])
      rw [Calls.run, List.mem_cons, not_or]
      refine ⟨Ne.symm hne, ih (h.call hs.1 op).1 hs.2
        (fun o ho => hops o (List.mem_cons_of_mem _ ho)) ?_⟩
      rw [h.effect hs.1 op, (effect_away (hops op List.mem_cons_self) hne fun _ _ => rfl).1]
      exact hk

/-- An `insert`, calls on other keys, and the removal of the inserted key: only the calls are left. -/
theorem undone (h : StandsFor s m) {k : Nat} (hk : (s.call .insert).2 = .key k)
    {mid : List (SlabOp σ)} (hmid : ∀ op ∈ mid, op.names ≠ some k)
    (hs : Stays WordSlab.call WordSlab.Small s (.insert :: mid)) :
    ((Calls.run WordSlab.call s (.insert :: mid)).1.remove k).get
      = effects mid (Calls.run WordSlab.call (s.call .insert).1 mid).2 s.get := by
  have hlaw := h.law hs.1 .insert
  rw [hk] at hlaw
  obtain ⟨hvac, hlive, hoff⟩ := hlaw
  have hstand := (h.call hs.1 .insert).1
  have hrun := (hstand.run hs.2).1
  obtain ⟨hnone, hother, _⟩ := hrun.law hs.last (.remove k)
  have hret := hstand.not_returned hs.2 hmid (by rw [hlive]; simp)
  have heff := hstand.effects_run hs.2
  obtain ⟨_, hsame⟩ := effects_away hmid hret hoff
  funext j
  by_cases hj : j = k
  · subst hj
    rw [(effects_away hmid hret fun _ _ => rfl).1, hvac]
    exact hnone
  · rw [← hsame j hj, ← heff]
    exact hother j hj

end StandsFor

/-- The slab after these calls, and the map. -/
def WordSlab.after (ops : List (SlabOp σ)) : WordSlab σ :=
  (Calls.run WordSlab.call WordSlab.new ops).1

def Map.after (ops : List (SlabOp σ)) : Map σ := (Calls.run Map.call Map.new ops).1

/--
**The slab is a finite map, and its free list is the list of vacant keys.**

After any calls on a new slab, as long as it has fewer than `usize::MAX` entries:
every answer was the map's and the bindings are the map's, following `next_free`
visits the freed keys, last one first, each vacant index once and nothing else, and
ends at the sentinel; every further call keeps the law, so no `insert` panics. An
`insert` that is undone later leaves the bindings as the calls in between make them,
each taken with the key it was made with or has returned; without further inserts
that is what these calls do on the slab alone.
-/
theorem slab_refines_map (ops : List (SlabOp σ))
    (hsmall : Stays WordSlab.call WordSlab.Small WordSlab.new ops) :
    (Calls.run WordSlab.call WordSlab.new ops).2 = (Calls.run Map.call Map.new ops).2
    ∧ (∀ key, (WordSlab.after ops).get key = (Map.after ops).bindings key)
    ∧ (WordSlab.after ops).FreeList (Map.after ops).freed
    ∧ (∀ op, Law (WordSlab.after ops) op ((WordSlab.after ops).call op).2
        ((WordSlab.after ops).call op).1)
    ∧ ∀ key mid, ((WordSlab.after ops).call .insert).2 = .key key →
        (∀ op ∈ mid, op.names ≠ some key) →
        Stays WordSlab.call WordSlab.Small (WordSlab.after ops) (.insert :: mid) →
        let undone := (Calls.run WordSlab.call (WordSlab.after ops) (.insert :: mid)).1.remove key
        undone.get = effects mid
          (Calls.run WordSlab.call ((WordSlab.after ops).call .insert).1 mid).2
          (WordSlab.after ops).get
        ∧ ((∀ op ∈ mid, op.names ≠ none) →
          undone.get = (Calls.run WordSlab.call (WordSlab.after ops) mid).1.get) := by
  obtain ⟨hstand, hreplies⟩ := standsFor_new.run hsmall
  have hstand : StandsFor (WordSlab.after ops) (Map.after ops) := hstand
  have hlast : (WordSlab.after ops).Small := hsmall.last
  refine ⟨hreplies, hstand.bindings, hstand.freeList, hstand.law hlast, ?_⟩
  intro key mid hkey hmid hs
  have hundone := hstand.undone hkey hmid hs
  refine ⟨hundone, ?_⟩
  intro hnamed
  rw [hundone, StandsFor.effects_run hstand (stays_named hlast hnamed)]
  exact effects_named hnamed (length_run _ _) (length_run _ _) _

end

/-- Removals of a live key, of a vacant one and of one out of range, between inserts. -/
def churn : List (SlabOp Nat) :=
  [.insert, .insert, .insert, .getMut 1 (· + 5), .remove 2, .remove 0, .remove 0, .remove 7, .insert]

theorem slab_refines_map_churn :
    (Calls.run WordSlab.call WordSlab.new churn).2
      = [.key 0, .key 1, .key 2, .slot (some 0), .done, .done, .done, .done, .key 0]
    ∧ (WordSlab.after churn).FreeList [2] :=
  ⟨by decide, (slab_refines_map churn (by decide)).2.2.1⟩

end Nanorun.Reactor
