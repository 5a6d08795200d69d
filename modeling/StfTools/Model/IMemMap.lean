import StfTools.Model.IMemData
import Mathlib.Data.List.Sort
import Mathlib.Algebra.BigOperators.Group.List
import Mathlib.Algebra.Order.Ring.Nat

/-!
# One footprint table: `IMemMap`

`IMemMap` is `std::map<uint64_t, IMemData>` (stf_imem.hpp:324): entries in
ascending key order, one per key. It is the list of its entries with the ordering
as a field, so a table out of order cannot be built. The profiler uses three
operations on it: `find`, `insert` (which leaves an existing key alone, as
`std::map::insert` does) and an in-place update of the value `find` returned.
-/

set_option autoImplicit false

namespace StfTools

/-- INTERNAL: two different keys are ordered one way or the other.
SOURCE: stf_imem.hpp:324 -/
theorem UInt64.lt_or_gt_of_ne' {a b : UInt64} (h : a ≠ b) : a < b ∨ b < a := by
  have hn : a.toNat ≠ b.toNat := fun e => h (UInt64.toNat.inj e)
  rcases Nat.lt_or_gt_of_ne hn with h' | h'
  · exact .inl h'
  · exact .inr h'

/-- `std::map<uint64_t, IMemData>`: entries with strictly ascending keys. -/
@[ext] structure IMemMap where
  entries : List (UInt64 × IMemData)
  sorted : (entries.map Prod.fst).Sorted (· < ·)

namespace IMemMap

/-- The empty table, as `IMemMap()` builds it. -/
def empty : IMemMap := ⟨[], List.sorted_nil⟩

/-- `find`: the value stored at `key`, if any. -/
def findIn {β : Type} (key : UInt64) : List (UInt64 × β) → Option β
  | [] => none
  | (k, d) :: rest => if k = key then some d else findIn key rest

/-- Placing a new key before the first larger one. -/
def insertIn {β : Type} (key : UInt64) (d : β) : List (UInt64 × β) → List (UInt64 × β)
  | [] => [(key, d)]
  | (k, d') :: rest =>
    if key < k then (key, d) :: (k, d') :: rest else (k, d') :: insertIn key d rest

/-- Applying `f` to the value stored at `key`. -/
def updateIn {β : Type} (key : UInt64) (f : β → β) : List (UInt64 × β) → List (UInt64 × β)
  | [] => []
  | (k, d) :: rest => (k, if k = key then f d else d) :: updateIn key f rest

/-- INTERNAL: an absent key is in no entry.
SOURCE: stf_imem.hpp:324 -/
theorem findIn_eq_none_iff (key : UInt64) (l : List (UInt64 × IMemData)) :
    findIn key l = none ↔ key ∉ l.map Prod.fst := by
  induction l with
  | nil => simp [findIn]
  | cons e rest ih =>
    obtain ⟨k, d⟩ := e
    by_cases h : k = key
    · simp [findIn, h]
    · simp [findIn, h, ih, Ne.symm h]

/-- INTERNAL: insertion adds `(key, d)` to the entries, in order.
SOURCE: stf_imem.hpp:324 -/
theorem insertIn_perm (key : UInt64) (d : IMemData) (l : List (UInt64 × IMemData)) :
    (insertIn key d l).Perm ((key, d) :: l) := by
  induction l with
  | nil => simp [insertIn]
  | cons e rest ih =>
    obtain ⟨k, d'⟩ := e
    simp only [insertIn]
    split_ifs
    · exact List.Perm.refl _
    · exact (ih.cons _).trans (List.Perm.swap _ _ _)

/-- INTERNAL: inserting an absent key keeps the keys strictly ascending.
SOURCE: stf_imem.hpp:324 -/
theorem sorted_insertIn (key : UInt64) (d : IMemData) :
    ∀ l : List (UInt64 × IMemData), (l.map Prod.fst).Sorted (· < ·) → key ∉ l.map Prod.fst →
      ((insertIn key d l).map Prod.fst).Sorted (· < ·)
  | [], _, _ => by simp [insertIn]
  | (k, d') :: rest, h, habs => by
    have hrest := List.sorted_cons.mp h
    have hne : key ≠ k := fun e => habs (by simp [e])
    simp only [insertIn]
    split_ifs with hlt
    · exact List.sorted_cons.mpr ⟨fun b hb => by
        rcases List.mem_cons.mp hb with rfl | hb
        · exact hlt
        · exact UInt64.lt_trans hlt (hrest.1 b hb), h⟩
    · have hgt : k < key := (UInt64.lt_or_gt_of_ne' hne).resolve_left hlt
      refine List.sorted_cons.mpr ⟨fun b hb => ?_,
        sorted_insertIn key d rest hrest.2 fun hm => habs (by simp [hm])⟩
      have hb' : b ∈ ((key, d) :: rest).map Prod.fst :=
        ((insertIn_perm key d rest).map Prod.fst).subset hb
      rcases List.mem_cons.mp hb' with rfl | hb'
      · exact hgt
      · exact hrest.1 b hb'

/-- INTERNAL: an update keeps every key in place.
SOURCE: stf_imem.hpp:324 -/
@[simp] theorem keys_updateIn (key : UInt64) (f : IMemData → IMemData)
    (l : List (UInt64 × IMemData)) : (updateIn key f l).map Prod.fst = l.map Prod.fst := by
  induction l with
  | nil => rfl
  | cons e rest ih => simp [updateIn, ih]

/-- `find` (`std::map::find`). -/
def find (m : IMemMap) (key : UInt64) : Option IMemData := findIn key m.entries

/-- `insert` (`std::map::insert`): a no-op when `key` is present. -/
def insert (m : IMemMap) (key : UInt64) (d : IMemData) : IMemMap :=
  if h : (m.find key).isSome then m
  else ⟨insertIn key d m.entries, sorted_insertIn key d m.entries m.sorted
    ((findIn_eq_none_iff key m.entries).mp (by simpa [find] using h))⟩

/-- Writing through the iterator `find` returned: apply `f` to the value at `key`. -/
def modify (m : IMemMap) (key : UInt64) (f : IMemData → IMemData) : IMemMap :=
  ⟨updateIn key f m.entries, (keys_updateIn key f m.entries).symm ▸ m.sorted⟩

/-- The sum of one counter over the entries of a table. -/
def total (c : Counter) (m : IMemMap) : Nat := (m.entries.map fun e => e.2.counter c).sum

/-! ## `find` and `total` after each operation -/

@[simp] theorem find_empty (key : UInt64) : empty.find key = none := rfl

@[simp] theorem total_empty (c : Counter) : empty.total c = 0 := rfl

/-- INTERNAL: `find` after inserting an absent key, on the entry list.
SOURCE: stf_imem.hpp:760-764 -/
theorem findIn_insertIn {key : UInt64} {l : List (UInt64 × IMemData)} (h : findIn key l = none)
    (k : UInt64) (d : IMemData) :
    findIn k (insertIn key d l) = if key = k then some d else findIn k l := by
  induction l with
  | nil => simp [insertIn, findIn]
  | cons e rest ih =>
    obtain ⟨k', d'⟩ := e
    have hk' : k' ≠ key := by intro e; simp [findIn, e] at h
    have hrest : findIn key rest = none := by simpa [findIn, hk'] using h
    by_cases hlt : key < k'
    · simp only [insertIn, hlt, if_true]
      by_cases hk : key = k <;> simp [findIn, hk]
    · simp only [insertIn, hlt, if_false]
      by_cases hk : k' = k
      · subst hk; simp [findIn, Ne.symm hk']
      · simp [findIn, hk, ih hrest]

/-- INTERNAL: `find` after `insert`.
SOURCE: stf_imem.hpp:760-764 -/
theorem find_insert (m : IMemMap) (key k : UInt64) (d : IMemData) :
    (m.insert key d).find k = if key = k then some ((m.find key).getD d) else m.find k := by
  unfold insert
  by_cases hs : (m.find key).isSome
  · obtain ⟨d0, h0⟩ := Option.isSome_iff_exists.mp hs
    rw [dif_pos hs]
    by_cases hk : key = k
    · subst hk; simp [h0]
    · simp [hk]
  · have h : m.find key = none := by simpa using hs
    rw [dif_neg hs]
    simp only [find] at h ⊢
    rw [findIn_insertIn h]
    simp [h]

/-- INTERNAL: `find` after an insertion of an absent key.
SOURCE: stf_imem.hpp:760-764 -/
@[simp] theorem find_insert_of_find_eq_none {m : IMemMap} {key : UInt64} (h : m.find key = none)
    (k : UInt64) (d : IMemData) :
    (m.insert key d).find k = if key = k then some d else m.find k := by
  simp [find_insert, h]

/-- INTERNAL: `find` after an in-place update, on the entry list.
SOURCE: stf_imem.hpp:769-780 -/
theorem findIn_updateIn (key k : UInt64) (f : IMemData → IMemData) (l : List (UInt64 × IMemData)) :
    findIn k (updateIn key f l) = if key = k then (findIn key l).map f else findIn k l := by
  induction l with
  | nil => simp [findIn, updateIn]
  | cons e rest ih =>
    obtain ⟨k', d'⟩ := e
    by_cases h1 : k' = key
    · subst h1; by_cases h2 : k' = k <;> simp [findIn, updateIn, h2, ih]
    · by_cases h2 : k' = k
      · subst h2; simp [findIn, updateIn, h1, Ne.symm h1]
      · simp [findIn, updateIn, h1, h2, ih]

/-- INTERNAL: `find` after an in-place update.
SOURCE: stf_imem.hpp:769-780 -/
@[simp] theorem find_modify (m : IMemMap) (key k : UInt64) (f : IMemData → IMemData) :
    (m.modify key f).find k = if key = k then (m.find key).map f else m.find k :=
  findIn_updateIn key k f m.entries

/-- INTERNAL: inserting an absent key adds its counters to the table's sums.
SOURCE: stf_imem.hpp:760-764 -/
theorem total_insert {m : IMemMap} {key : UInt64} (h : m.find key = none) (d : IMemData)
    (c : Counter) : (m.insert key d).total c = m.total c + d.counter c := by
  have hp := ((insertIn_perm key d m.entries).map fun e => e.2.counter c).sum_eq
  have hs : ¬(m.find key).isSome := by simp [h]
  simp only [total, insert, dif_neg hs, hp, List.map_cons, List.sum_cons]
  omega

/-- INTERNAL: an update of an absent key changes nothing.
SOURCE: stf_imem.hpp:769-780 -/
theorem updateIn_of_not_mem {key : UInt64} (f : IMemData → IMemData) :
    ∀ {l : List (UInt64 × IMemData)}, key ∉ l.map Prod.fst → updateIn key f l = l
  | [], _ => rfl
  | (k, d) :: rest, h => by
    have hk : k ≠ key := fun e => h (by simp [e])
    have hrest : key ∉ rest.map Prod.fst := fun hm => h (List.mem_cons_of_mem _ hm)
    simp [updateIn, hk, updateIn_of_not_mem f hrest]

/-- INTERNAL: the keys of a table are pairwise distinct.
SOURCE: stf_imem.hpp:324 -/
theorem keys_nodup (m : IMemMap) : (m.entries.map Prod.fst).Nodup :=
  m.sorted.imp fun h => UInt64.ne_of_lt h

/-- INTERNAL: an in-place update replaces the counters of one entry in the sums.
SOURCE: stf_imem.hpp:769-780 -/
theorem total_modify {m : IMemMap} {key : UInt64} {d : IMemData} (h : m.find key = some d)
    (f : IMemData → IMemData) (c : Counter) :
    (m.modify key f).total c + d.counter c = m.total c + (f d).counter c := by
  have hnd := keys_nodup m
  obtain ⟨l, hs⟩ := m
  simp only [total, modify, find] at h hnd ⊢
  clear hs
  induction l with
  | nil => simp [findIn] at h
  | cons e rest ih =>
    obtain ⟨k, d'⟩ := e
    rw [List.map_cons, List.nodup_cons] at hnd
    by_cases hk : k = key
    · subst hk
      have hd : d' = d := by simpa [findIn] using h
      subst hd
      simp [updateIn, updateIn_of_not_mem f hnd.1]
      omega
    · have := ih (by simpa [findIn, hk] using h) hnd.2
      simp [updateIn, hk]
      omega

/-! ## A change of values -/

/-- INTERNAL: a lookup commutes with a change of values.
SOURCE: stf_imem.hpp:324 -/
theorem findIn_map {β γ : Type} (g : β → γ) (key : UInt64) :
    ∀ l : List (UInt64 × β), findIn key (l.map (Prod.map id g)) = (findIn key l).map g
  | [] => rfl
  | (k, d) :: rest => by
    by_cases h : k = key <;> simp [findIn, h, findIn_map g key rest]

/-- INTERNAL: an insertion commutes with a change of values.
SOURCE: stf_imem.hpp:324 -/
theorem insertIn_map {β γ : Type} (g : β → γ) (key : UInt64) (d : β) :
    ∀ l : List (UInt64 × β),
      (insertIn key d l).map (Prod.map id g) = insertIn key (g d) (l.map (Prod.map id g))
  | [] => rfl
  | (k, d') :: rest => by
    by_cases h : key < k <;> simp [insertIn, h, insertIn_map g key d rest]

/-- INTERNAL: an update commutes with a change of values it commutes with.
SOURCE: stf_imem.hpp:324 -/
theorem updateIn_map {β γ : Type} (g : β → γ) (key : UInt64) (f : β → β) (f' : γ → γ)
    (hf : ∀ x, g (f x) = f' (g x)) :
    ∀ l : List (UInt64 × β),
      (updateIn key f l).map (Prod.map id g) = updateIn key f' (l.map (Prod.map id g))
  | [] => rfl
  | (k, d) :: rest => by
    by_cases h : k = key <;> simp [updateIn, h, hf, updateIn_map g key f f' hf rest]

end IMemMap

end StfTools
