import Mathlib.Tactic.Common

/-!
# The slab

`reactor/slab.rs`: a vector of entries in which the vacant ones form a singly
linked free list. `RawSlab` is the vector and the head of the list, with the
functions as the source has them; a `Slab` carries the proof that the free list is
one, so that `insert` never runs into its `unreachable!`.

`SENTINEL` is `usize::MAX`, which is no index of a vector; here it is `none`.

What the rest of the development uses of a slab is `get`, which slot a key stands
for, and one lemma for what each operation does to it.
-/

namespace Nanorun.Reactor

inductive SlabEntry (σ : Type) where
  | vacant (next : Option Nat)
  | occupied (slot : σ)
  deriving DecidableEq, Repr

structure RawSlab (σ : Type) where
  entries : List (SlabEntry σ)
  nextFree : Option Nat
  deriving DecidableEq, Repr

variable {σ : Type}

namespace RawSlab

/-- `Slab::get_mut`, as a lookup. -/
def get (s : RawSlab σ) (key : Nat) : Option σ :=
  match s.entries[key]? with
  | some (.occupied slot) => some slot
  | _ => none

/-- The key that `insert` hands out. -/
def nextKey (s : RawSlab σ) : Nat := s.nextFree.getD s.entries.length

/-- `Slab::insert` of a new slot; `none` where the source panics. -/
def insert (s : RawSlab σ) (slot : σ) : Option (Nat × RawSlab σ) :=
  match s.nextFree with
  | none => some (s.entries.length, { s with entries := s.entries ++ [.occupied slot] })
  | some key =>
      match s.entries[key]? with
      | some (.vacant next) =>
          some (key, { entries := s.entries.set key (.occupied slot), nextFree := next })
      | _ => none

/-- `Slab::remove` -/
def remove (s : RawSlab σ) (key : Nat) : RawSlab σ :=
  match s.entries[key]? with
  | some (.occupied _) =>
      { entries := s.entries.set key (.vacant s.nextFree), nextFree := some key }
  | _ => s

/-- A write through `Slab::get_mut`. -/
def modify (s : RawSlab σ) (key : Nat) (f : σ → σ) : RawSlab σ :=
  match s.entries[key]? with
  | some (.occupied slot) => { s with entries := s.entries.set key (.occupied (f slot)) }
  | _ => s

end RawSlab

/-! ## The free list -/

/-- `keys` are the vacant entries met from `next` on. -/
def FreeFrom (entries : List (SlabEntry σ)) : Option Nat → List Nat → Prop
  | none, [] => True
  | some k, key :: keys =>
      k = key ∧ ∃ next, entries[k]? = some (.vacant next) ∧ FreeFrom entries next keys
  | _, _ => False

def RawSlab.Valid (s : RawSlab σ) : Prop := ∃ keys, FreeFrom s.entries s.nextFree keys ∧ keys.Nodup

/-- An entry off the list may change. -/
theorem FreeFrom.set {entries : List (SlabEntry σ)} {next : Option Nat} {keys : List Nat}
    (h : FreeFrom entries next keys) {k : Nat} (hk : k ∉ keys) (e : SlabEntry σ) :
    FreeFrom (entries.set k e) next keys := by
  induction keys generalizing next with
  | nil =>
      cases next with
      | none => exact trivial
      | some k' => exact False.elim h
  | cons key keys ih =>
      cases next with
      | none => exact False.elim h
      | some k' =>
          obtain ⟨rfl, next, hv, hrest⟩ := h
          rw [List.mem_cons, not_or] at hk
          refine ⟨rfl, next, ?_, ih hrest hk.2⟩
          rw [List.getElem?_set_ne hk.1]
          exact hv

theorem FreeFrom.append {entries : List (SlabEntry σ)} {next : Option Nat} {keys : List Nat}
    (h : FreeFrom entries next keys) (more : List (SlabEntry σ)) :
    FreeFrom (entries ++ more) next keys := by
  induction keys generalizing next with
  | nil =>
      cases next with
      | none => exact trivial
      | some k' => exact False.elim h
  | cons key keys ih =>
      cases next with
      | none => exact False.elim h
      | some k' =>
          obtain ⟨rfl, next, hv, hrest⟩ := h
          refine ⟨rfl, next, ?_, ih hrest⟩
          have hlt : k' < entries.length := (List.getElem?_eq_some_iff.mp hv).1
          rw [List.getElem?_append_left hlt]
          exact hv

/-- An occupied entry is not on the list. -/
theorem FreeFrom.not_mem {entries : List (SlabEntry σ)} {next : Option Nat} {keys : List Nat}
    (h : FreeFrom entries next keys) {k : Nat} {slot : σ}
    (hk : entries[k]? = some (.occupied slot)) : k ∉ keys := by
  induction keys generalizing next with
  | nil => exact List.not_mem_nil
  | cons key keys ih =>
      cases next with
      | none => exact False.elim h
      | some k' =>
          obtain ⟨rfl, next, hv, hrest⟩ := h
          rw [List.mem_cons, not_or]
          refine ⟨?_, ih hrest⟩
          rintro rfl
          rw [hv] at hk
          exact absurd hk (by simp)

/-! ## One specification per operation -/

namespace RawSlab

/-- `insert` hands out a vacant key and fills it. -/
theorem Valid.insert {s : RawSlab σ} (h : s.Valid) (slot : σ) :
    ∃ s', s.insert slot = some (s.nextKey, s') ∧ s'.Valid ∧ s.get s.nextKey = none
      ∧ s'.get s.nextKey = some slot ∧ ∀ k, k ≠ s.nextKey → s'.get k = s.get k := by
  obtain ⟨keys, hfree, hnd⟩ := h
  cases hnext : s.nextFree with
  | none =>
      have hkey : s.nextKey = s.entries.length := by rw [RawSlab.nextKey, hnext]; rfl
      rw [hnext] at hfree
      rw [hkey]
      refine ⟨{ s with entries := s.entries ++ [.occupied slot] }, ?_, ?_, ?_, ?_, ?_⟩
      · simp only [RawSlab.insert, hnext]
      · exact ⟨keys, by show FreeFrom _ s.nextFree keys; rw [hnext]; exact hfree.append _, hnd⟩
      · simp [RawSlab.get]
      · simp [RawSlab.get]
      -- beyond the old end there is only the new entry
      · intro k hk
        unfold RawSlab.get
        by_cases hlt : k < s.entries.length
        · rw [List.getElem?_append_left hlt]
        · rw [List.getElem?_eq_none (by simp only [List.length_append, List.length_singleton]; omega),
            List.getElem?_eq_none (by omega)]
  | some key =>
      have hkey : s.nextKey = key := by rw [RawSlab.nextKey, hnext]; rfl
      rw [hnext] at hfree
      rw [hkey]
      cases keys with
      | nil => exact False.elim hfree
      | cons key' keys =>
          obtain ⟨rfl, next, hv, hrest⟩ := hfree
          -- the head leaves the list; it occurs there once, so the rest may be kept as it is
          have hnot := (List.nodup_cons.mp hnd).1
          have hlt : key < s.entries.length := (List.getElem?_eq_some_iff.mp hv).1
          refine ⟨{ entries := s.entries.set key (.occupied slot), nextFree := next }, ?_, ?_, ?_, ?_, ?_⟩
          · simp only [RawSlab.insert, hnext, hv]
          · exact ⟨keys, hrest.set hnot _, (List.nodup_cons.mp hnd).2⟩
          · simp only [RawSlab.get, hv]
          · simp only [RawSlab.get, List.getElem?_set_self hlt]
          · intro k hk
            simp only [RawSlab.get, List.getElem?_set_ne (Ne.symm hk)]

theorem Valid.remove {s : RawSlab σ} (h : s.Valid) (key : Nat) :
    (s.remove key).Valid ∧ (s.remove key).get key = none
      ∧ ∀ k, k ≠ key → (s.remove key).get k = s.get k := by
  obtain ⟨keys, hfree, hnd⟩ := h
  cases hk : s.entries[key]? with
  | none =>
      have hr : s.remove key = s := by simp only [RawSlab.remove, hk]
      rw [hr]
      exact ⟨⟨keys, hfree, hnd⟩, by simp only [RawSlab.get, hk], fun _ _ => rfl⟩
  | some e =>
      cases e with
      | vacant next =>
          have hr : s.remove key = s := by simp only [RawSlab.remove, hk]
          rw [hr]
          exact ⟨⟨keys, hfree, hnd⟩, by simp only [RawSlab.get, hk], fun _ _ => rfl⟩
      | occupied slot =>
          have hr : s.remove key
              = { entries := s.entries.set key (.vacant s.nextFree), nextFree := some key } := by
            simp only [RawSlab.remove, hk]
          have hlt : key < s.entries.length := (List.getElem?_eq_some_iff.mp hk).1
          -- the freed key becomes the head: last in, first out
          have hnot := hfree.not_mem hk
          rw [hr]
          refine ⟨⟨key :: keys, ⟨rfl, s.nextFree, ?_, hfree.set hnot _⟩,
            List.nodup_cons.mpr ⟨hnot, hnd⟩⟩, ?_, ?_⟩
          · exact List.getElem?_set_self hlt
          · simp only [RawSlab.get, List.getElem?_set_self hlt]
          · intro k hne
            simp only [RawSlab.get, List.getElem?_set_ne (Ne.symm hne)]

theorem Valid.modify {s : RawSlab σ} (h : s.Valid) (key : Nat) (f : σ → σ) :
    (s.modify key f).Valid ∧ (s.modify key f).get key = (s.get key).map f
      ∧ ∀ k, k ≠ key → (s.modify key f).get k = s.get k := by
  obtain ⟨keys, hfree, hnd⟩ := h
  cases hk : s.entries[key]? with
  | none =>
      have hr : s.modify key f = s := by simp only [RawSlab.modify, hk]
      rw [hr]
      exact ⟨⟨keys, hfree, hnd⟩, by simp only [RawSlab.get, hk, Option.map_none], fun _ _ => rfl⟩
  | some e =>
      cases e with
      | vacant next =>
          have hr : s.modify key f = s := by simp only [RawSlab.modify, hk]
          rw [hr]
          exact ⟨⟨keys, hfree, hnd⟩, by simp only [RawSlab.get, hk, Option.map_none], fun _ _ => rfl⟩
      | occupied slot =>
          have hr : s.modify key f = { s with entries := s.entries.set key (.occupied (f slot)) } := by
            simp only [RawSlab.modify, hk]
          have hlt : key < s.entries.length := (List.getElem?_eq_some_iff.mp hk).1
          rw [hr]
          refine ⟨⟨keys, hfree.set (hfree.not_mem hk) _, hnd⟩, ?_, ?_⟩
          · simp only [RawSlab.get, List.getElem?_set_self hlt, hk, Option.map_some]
          · intro k hne
            simp only [RawSlab.get, List.getElem?_set_ne (Ne.symm hne)]

end RawSlab

/-! ## Slabs -/

/-- A slab whose vacant entries form a list. -/
structure Slab (σ : Type) where
  raw : RawSlab σ
  valid : raw.Valid

namespace Slab

/-- `Slab::new` -/
def new : Slab σ := ⟨{ entries := [], nextFree := none }, [], trivial, List.nodup_nil⟩

def get (s : Slab σ) (key : Nat) : Option σ := s.raw.get key

/-- The key that `insert` hands out. -/
def nextKey (s : Slab σ) : Nat := s.raw.nextKey

theorem insert_isSome (s : Slab σ) (slot : σ) : (s.raw.insert slot).isSome := by
  obtain ⟨s', h, _⟩ := s.valid.insert slot
  rw [h]
  rfl

/-- `Slab::insert`, beside the key it hands out. -/
def insert (s : Slab σ) (slot : σ) : Slab σ where
  raw := ((s.raw.insert slot).get (s.insert_isSome slot)).2
  valid := by
    obtain ⟨s', h, hv, _⟩ := s.valid.insert slot
    simp only [h, Option.get_some]
    exact hv

/-- `Slab::remove` -/
def remove (s : Slab σ) (key : Nat) : Slab σ := ⟨s.raw.remove key, (s.valid.remove key).1⟩

/-- A write through `Slab::get_mut`. -/
def modify (s : Slab σ) (key : Nat) (f : σ → σ) : Slab σ :=
  ⟨s.raw.modify key f, (s.valid.modify key f).1⟩

@[simp] theorem get_new (key : Nat) : (new : Slab σ).get key = none := by
  simp [new, get, RawSlab.get]

/-- The next key is vacant. -/
@[simp] theorem get_nextKey (s : Slab σ) : s.get s.nextKey = none := by
  cases h : s.get s.nextKey with
  | none => rfl
  | some slot =>
      obtain ⟨_, _, _, hnone, _⟩ := s.valid.insert slot
      rw [← h]
      exact hnone

theorem get_insert (s : Slab σ) (slot : σ) (k : Nat) :
    (s.insert slot).get k = if k = s.nextKey then some slot else s.get k := by
  obtain ⟨s', h, _, _, hself, hother⟩ := s.valid.insert slot
  have hraw : (s.insert slot).raw = s' := by simp only [Slab.insert, h, Option.get_some]
  show (s.insert slot).raw.get k = _
  rw [hraw]
  by_cases hk : k = s.nextKey
  · rw [if_pos hk, hk]
    exact hself
  · rw [if_neg hk]
    exact hother k hk

theorem get_remove (s : Slab σ) (key k : Nat) :
    (s.remove key).get k = if k = key then none else s.get k := by
  obtain ⟨_, hself, hother⟩ := s.valid.remove key
  by_cases hk : k = key
  · rw [if_pos hk, hk]
    exact hself
  · rw [if_neg hk]
    exact hother k hk

theorem get_modify (s : Slab σ) (key : Nat) (f : σ → σ) (k : Nat) :
    (s.modify key f).get k = if k = key then (s.get key).map f else s.get k := by
  obtain ⟨_, hself, hother⟩ := s.valid.modify key f
  by_cases hk : k = key
  · rw [if_pos hk, hk]
    exact hself
  · rw [if_neg hk]
    exact hother k hk

theorem entry_of_get {s : Slab σ} {key : Nat} {slot : σ} (h : s.get key = some slot) :
    s.raw.entries[key]? = some (.occupied slot) := by
  unfold get RawSlab.get at h
  split at h
  · rename_i slot' hk
    rw [hk, Option.some.inj h]
  · exact absurd h (by simp)

/-- A write through `get_mut` depends on what it makes of the slot it finds. -/
theorem modify_congr {s : Slab σ} {key : Nat} {slot : σ} (h : s.get key = some slot) {f g : σ → σ}
    (hfg : f slot = g slot) : s.modify key f = s.modify key g := by
  have hent := entry_of_get h
  simp only [modify, RawSlab.modify, hent, hfg]

/-- Last in, first out. -/
theorem nextKey_remove {s : Slab σ} {key : Nat} {slot : σ} (h : s.get key = some slot) :
    (s.remove key).nextKey = key := by
  have hent := entry_of_get h
  simp only [nextKey, RawSlab.nextKey, remove, RawSlab.remove, hent, Option.getD_some]

end Slab

end Nanorun.Reactor
