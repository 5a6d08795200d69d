import StfTools.Model.Trace
import Mathlib.Data.Finset.Lattice.Fold
import Mathlib.Data.Finset.Card
import Mathlib.Data.Nat.Lattice

/-!
# What a footprint is meant to record

The profiler's purpose, stated over the admitted instructions alone and with no
tables: how often each (PC, opcode) pair was executed, which opcodes were seen at
each PC, and the largest number of opcodes any one PC carried. The analysis shows
that the tables `JavaIMem` builds are exactly this record
(`StfTools.Analysis.JavaTables`).
-/

set_option autoImplicit false

namespace StfTools.Interface

open StfTools

/-- How many of the admitted instructions executed `op` at `pc`. -/
def occurrences (seen : List STFInst) (pc : UInt64) (op : UInt32) : Nat :=
  seen.countP fun e => e.pc = pc ∧ e.opcode = op

/-- The opcodes seen at `pc`. -/
def opcodesAt (seen : List STFInst) (pc : UInt64) : Finset UInt32 :=
  ((seen.filter fun e => e.pc = pc).map (·.opcode)).toFinset

/-- The largest number of different opcodes seen at a single PC (0 before any
instruction). -/
def maxOpcodesPerPc (seen : List STFInst) : Nat :=
  (seen.map (·.pc)).toFinset.sup fun pc => (opcodesAt seen pc).card

@[simp] theorem occurrences_nil (pc : UInt64) (op : UInt32) : occurrences [] pc op = 0 := rfl

@[simp] theorem opcodesAt_nil (pc : UInt64) : opcodesAt [] pc = ∅ := rfl

@[simp] theorem maxOpcodesPerPc_nil : maxOpcodesPerPc [] = 0 := rfl

/-- INTERNAL: one more instruction counts once, at its own (PC, opcode).
SOURCE: stf_imem.hpp:699-701 -/
theorem occurrences_append_singleton (seen : List STFInst) (e : STFInst) (pc : UInt64)
    (op : UInt32) : occurrences (seen ++ [e]) pc op =
      occurrences seen pc op + if e.pc = pc ∧ e.opcode = op then 1 else 0 := by
  by_cases h : e.pc = pc ∧ e.opcode = op <;> simp_all [occurrences, List.countP_append]

/-- INTERNAL: an opcode was seen at a PC exactly when it occurred there.
SOURCE: stf_imem.hpp:802-862 -/
theorem mem_opcodesAt (seen : List STFInst) (pc : UInt64) (op : UInt32) :
    op ∈ opcodesAt seen pc ↔ 0 < occurrences seen pc op := by
  simp only [opcodesAt, occurrences, List.countP_pos_iff, List.mem_toFinset, List.mem_map,
    List.mem_filter, decide_eq_true_eq]
  exact ⟨fun ⟨a, ⟨ha, hpc⟩, hop⟩ => ⟨a, ha, hpc, hop⟩, fun ⟨a, ha, hpc, hop⟩ => ⟨a, ⟨ha, hpc⟩, hop⟩⟩

/-- INTERNAL: one more instruction adds its opcode at its own PC.
SOURCE: stf_imem.hpp:802-862 -/
theorem opcodesAt_append_singleton (seen : List STFInst) (e : STFInst) (pc : UInt64) :
    opcodesAt (seen ++ [e]) pc =
      if e.pc = pc then insert e.opcode (opcodesAt seen pc) else opcodesAt seen pc := by
  by_cases h : e.pc = pc <;> simp [opcodesAt, h, List.filter_append, Finset.insert_eq, Finset.union_comm]

/-- INTERNAL: no PC carries more opcodes than the maximum.
SOURCE: stf_imem.hpp:851-854 -/
theorem card_opcodesAt_le (seen : List STFInst) (pc : UInt64) :
    (opcodesAt seen pc).card ≤ maxOpcodesPerPc seen := by
  by_cases h : pc ∈ seen.map (·.pc)
  · exact @Finset.le_sup _ _ _ _ _ (fun pc => (opcodesAt seen pc).card) _ (List.mem_toFinset.mpr h)
  · have : opcodesAt seen pc = ∅ := by
      simp only [List.mem_map] at h
      simp only [opcodesAt, List.toFinset_eq_empty_iff, List.map_eq_nil_iff, List.filter_eq_nil_iff,
        decide_eq_true_eq]
      exact fun e he hpc => h ⟨e, he, hpc⟩
    simp [this]

/-- INTERNAL: the maximum is at most any bound on every PC's opcode count.
SOURCE: stf_imem.hpp:851-854 -/
theorem maxOpcodesPerPc_le {seen : List STFInst} {n : Nat}
    (h : ∀ pc, (opcodesAt seen pc).card ≤ n) : maxOpcodesPerPc seen ≤ n :=
  Finset.sup_le fun pc _ => h pc

/-- INTERNAL: the maximum never decreases along a run.
SOURCE: stf_imem.hpp:851-854 -/
theorem maxOpcodesPerPc_le_append (seen : List STFInst) (e : STFInst) :
    maxOpcodesPerPc seen ≤ maxOpcodesPerPc (seen ++ [e]) :=
  maxOpcodesPerPc_le fun pc => by
    have hsub : opcodesAt seen pc ⊆ opcodesAt (seen ++ [e]) pc := by
      rw [opcodesAt_append_singleton]; split_ifs
      · exact Finset.subset_insert _ _
      · exact Finset.Subset.refl _
    exact (Finset.card_le_card hsub).trans (card_opcodesAt_le (seen ++ [e]) pc)

end StfTools.Interface
