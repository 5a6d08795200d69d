import Mathlib.Data.Nat.Defs
import Mathlib.Data.List.Basic
import Mathlib.Data.List.Rotate

/-!
# What a local history is meant to hold

A local history of an entry (its recent strides, its recent branch outcomes) is a
circular buffer of fixed capacity. After a sequence of values has been recorded,
the cursor is the number of values modulo the capacity, each of the most recent
`cap` values sits in the slot of its position modulo the capacity, and a slot
never written still holds its initial value. `RingHolds` states this;
`RingHolds.push` shows that writing at the cursor and advancing it modulo the
capacity records one more value. The slots are then determined by the values:
read from the cursor on, they hold the last `cap` values, oldest first, after the
initial value in the slots never written (`RingHolds.rotate_eq`).
-/

set_option autoImplicit false

namespace StfTools.Interface

/-- The buffer `slots` with cursor `idx`, of capacity `cap` and initial value
`init`, has recorded the values `vals` in order. -/
structure RingHolds {α : Type} (cap : Nat) (init : α) (slots : List α) (idx : Nat)
    (vals : List α) : Prop where
  length : slots.length = cap
  cursor : idx = vals.length % cap
  recent : ∀ j (hj : j < vals.length), vals.length ≤ j + cap → slots[j % cap]? = some vals[j]
  fresh : ∀ k, vals.length ≤ k → k < cap → slots[k]? = some init

section Ring

variable {α : Type} {cap : Nat} {init : α}

/-- INTERNAL: a buffer filled with its initial value has recorded nothing.
SOURCE: stf_imem.hpp:98-101 -/
theorem ringHolds_replicate (cap : Nat) (init : α) :
    RingHolds cap init (List.replicate cap init) 0 [] where
  length := List.length_replicate _ _
  cursor := by simp
  recent _ hj := absurd hj (Nat.not_lt_zero _)
  fresh k _ hk := by simp [hk]

/-- INTERNAL: the cursor designates a slot.
SOURCE: stf_imem.hpp:194-215 -/
theorem RingHolds.cursor_lt {slots : List α} {idx : Nat} {vals : List α} (hcap : 0 < cap)
    (h : RingHolds cap init slots idx vals) : idx < cap :=
  h.cursor ▸ Nat.mod_lt _ hcap

/-- INTERNAL: two positions less than `cap` apart, the later one first, fall in
different slots.
SOURCE: stf_imem.hpp:194-215 -/
theorem mod_ne_of_lt_of_sub_lt {j L : Nat} (hj : j < L) (hL : L < j + cap) :
    j % cap ≠ L % cap := fun h => by
  have hz : (L - j) % cap = 0 := Nat.sub_mod_eq_zero_of_mod_eq h.symm
  rw [Nat.mod_eq_of_lt (by omega)] at hz
  omega

/-- Writing `v` at the cursor and advancing the cursor modulo the capacity records
`v` after the values already recorded. -/
theorem RingHolds.push {slots : List α} {idx : Nat} {vals : List α} (hcap : 0 < cap)
    (h : RingHolds cap init slots idx vals) (v : α) :
    RingHolds cap init (slots.set idx v) ((idx + 1) % cap) (vals ++ [v]) where
  length := by rw [List.length_set, h.length]
  cursor := by rw [h.cursor, List.length_append, List.length_singleton, Nat.mod_add_mod]
  recent j hj hw := by
    have hidx : idx < slots.length := by rw [h.cursor, h.length]; exact Nat.mod_lt _ hcap
    simp only [List.length_append, List.length_singleton] at hj hw
    rcases Nat.lt_succ_iff_lt_or_eq.mp hj with hj | rfl
    · -- an older value keeps its slot
      have hne : idx ≠ j % cap := by
        rw [h.cursor]; exact (mod_ne_of_lt_of_sub_lt hj (by omega)).symm
      rw [List.getElem?_set_ne hne, h.recent j hj (by omega), List.getElem_append_left hj]
    · -- the new value sits at the cursor
      rw [← h.cursor, List.getElem?_set_self hidx, List.getElem_append_right (Nat.le_refl _)]
      simp
  fresh k hk hkc := by
    simp only [List.length_append, List.length_singleton] at hk
    have hne : idx ≠ k := by rw [h.cursor, Nat.mod_eq_of_lt (by omega)]; omega
    rw [List.getElem?_set_ne hne, h.fresh k (by omega) hkc]

/-- Read from the cursor on, the slots hold the last `cap` values recorded, oldest
first, after the initial value in the slots never written. -/
theorem RingHolds.rotate_eq {slots : List α} {idx : Nat} {vals : List α}
    (h : RingHolds cap init slots idx vals) :
    slots.rotate idx = (List.replicate cap init ++ vals).drop vals.length := by
  apply List.ext_getElem?
  intro n
  rw [List.getElem?_drop]
  by_cases hn : n < cap
  · rw [List.getElem?_rotate (h.length ▸ hn), h.length, h.cursor, Nat.add_mod_mod]
    by_cases hw : vals.length + n < cap
    · -- a slot never written
      rw [Nat.mod_eq_of_lt (by omega), h.fresh _ (by omega) (by omega),
        List.getElem?_append_left (by simpa using hw), List.getElem?_replicate, if_pos hw]
    · -- the slot of the value recorded `cap - n` values before the next
      have hj : vals.length + n - cap < vals.length := by omega
      have hmod : (n + vals.length) % cap = (vals.length + n - cap) % cap := by
        rw [show n + vals.length = vals.length + n - cap + cap by omega, Nat.add_mod_right]
      rw [hmod, h.recent _ hj (by omega), List.getElem?_append_right (by simp; omega),
        List.length_replicate]
      exact (List.getElem?_eq_getElem hj).symm
  · rw [List.getElem?_eq_none (by simp [h.length]; omega), List.getElem?_eq_none (by simp; omega)]

/-- INTERNAL: a ring that has recorded `m` copies of `v` holds `v` in its first
`min m cap` slots and its initial value in the others.
SOURCE: stf_imem.hpp:203-215 -/
theorem RingHolds.eq_of_replicate {slots : List α} {idx m : Nat} {v : α}
    (h : RingHolds cap init slots idx (List.replicate m v)) :
    slots = List.replicate (min m cap) v ++ List.replicate (cap - min m cap) init := by
  have hr := h.rotate_eq
  rw [List.length_replicate, List.rotate_eq_iff] at hr
  rw [hr]
  by_cases hm : m < cap
  · -- fewer values than slots: the values, then the slots never written
    have hd : (List.replicate cap init ++ List.replicate m v).drop m =
        List.replicate (cap - m) init ++ List.replicate m v := by
      rw [List.drop_append_of_le_length (by simp; omega), List.drop_replicate]
    rw [hd, h.cursor, List.length_replicate, Nat.min_eq_left hm.le]
    simp only [List.length_append, List.length_replicate, Nat.sub_add_cancel hm.le,
      Nat.mod_eq_of_lt hm]
    simpa using List.rotate_append_length_eq (List.replicate (cap - m) init) (List.replicate m v)
  · -- every slot has been written
    have hd : (List.replicate cap init ++ List.replicate m v).drop m = List.replicate cap v := by
      rw [List.drop_append_eq_append_drop, List.drop_replicate, List.drop_replicate]
      simp [Nat.sub_eq_zero_of_le (Nat.le_of_not_lt hm), Nat.sub_sub_self (Nat.le_of_not_lt hm)]
    rw [hd, List.rotate_replicate, Nat.min_eq_right (Nat.le_of_not_lt hm), Nat.sub_self]
    simp

end Ring

end StfTools.Interface
