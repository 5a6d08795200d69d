import StfTools.Analysis.Steps
import StfTools.Model.Print

/-!
# Runs of `IMem`: every instruction is counted or warned about

`IMem::count_impl` keeps a single table, and each admitted instruction either adds
one execution to it (a new entry or a counted one) or, when its PC is already
stored with another opcode, leaves the table alone and writes one `two opcodes`
warning. So after any run the counts add up to `inst_count_` minus the number of
warnings (`imem_counted_add_warnings`), and they fall short of `inst_count_` as
soon as one PC is executed with two opcodes: then the assertion at the end of
the sorted report (stf_imem.hpp:650) cannot hold.

The same runs show two slips of the creation path (stf_imem.hpp:757-766), which
the match path does not make: a new entry's run length is 1 whenever the
instruction is past the warm-up window, even past the run-length window, and the
maxima `max_count_`, `max_warmup_` and `max_run_length_` are not raised for it.
-/

set_option autoImplicit false

namespace StfTools.Analysis

open StfTools IMemMapVec

/-! ## The single table -/

/-- INTERNAL: the entry `IMem` creates counts one execution.
SOURCE: stf_imem.hpp:757-766 -/
@[simp] theorem IMem.newEntry_count (inst : STFInst) (w : Bool) :
    (IMem.newEntry inst w).2.count = 1 := by
  unfold IMem.newEntry createIMemAddr_ createIMemBranch_ createIMem_
  split_ifs <;> simp

/-- INTERNAL: a history update leaves the counters.
SOURCE: stf_imem.hpp:776-780 -/
@[simp] theorem count_historyStep (inst : STFInst) (d : IMemData) :
    (historyStep inst d).count = d.count := by
  unfold historyStep; split_ifs <;> simp

/-- INTERNAL: a history update leaves the opcode.
SOURCE: stf_imem.hpp:776-780 -/
@[simp] theorem opcode_historyStep (inst : STFInst) (d : IMemData) :
    (historyStep inst d).opcode = d.opcode := by
  unfold historyStep; split_ifs <;> rfl

/-- INTERNAL: the entry `IMem` creates carries the instruction's opcode.
SOURCE: stf_imem.hpp:757-766 -/
@[simp] theorem IMem.newEntry_opcode (inst : STFInst) (w : Bool) :
    (IMem.newEntry inst w).2.opcode = inst.opcode := by
  unfold IMem.newEntry createIMemAddr_ createIMemBranch_ createIMem_
  split_ifs <;> simp

/-- The state of an `IMem` run: one table, designated by the cursor, whose counts
and the warnings written add up to the instructions counted so far, each warning
naming two different opcodes at one PC. -/
structure IMemInv (r : IMemMapVec × List Diag) (seen : List STFInst) : Prop where
  single : r.1.imemMapvec.length = 1
  itv_zero : r.1.itv = 0
  counted : tablesTotal .count r.1.imemMapvec + r.2.length = seen.length
  warnings : ∀ d ∈ r.2, ∃ key old new, d = .twoOpcodes key old new ∧ old ≠ new

/-- INTERNAL: the constructor's state, before any warning.
SOURCE: stf_imem.hpp:491-495 -/
theorem imemInv_init : IMemInv (IMemMapVec.init, []) [] :=
  ⟨rfl, rfl, rfl, fun _ h => by simp at h⟩

/-- INTERNAL: a step that updates the only table, adding one to its total count,
and writes nothing keeps the invariant.
SOURCE: stf_imem.hpp:699-701, 757-780 -/
theorem IMemInv.update {r : IMemMapVec × List Diag} {seen : List STFInst} (hinv : IMemInv r seen)
    {s' : IMemMapVec} (hs' : s'.imemMapvec = r.1.imemMapvec) (hi' : s'.itv = r.1.itv)
    (f : IMemMap → IMemMap) (hf : (f r.1.active).total .count = r.1.active.total .count + 1)
    (e : STFInst) :
    IMemInv ({ s'.modifyTable r.1.itv f with
      instCount := (s'.modifyTable r.1.itv f).instCount + 1 }, r.2 ++ []) (seen ++ [e]) := by
  have hs := sum_map_modify (IMemMap.total .count) f _ _ _
    (getElem?_itv (by rw [hinv.single, hinv.itv_zero]; omega : r.1.itv < _))
  refine ⟨by simpa [hs'] using hinv.single, by simpa [hi'] using hinv.itv_zero, ?_,
    by simpa using hinv.warnings⟩
  have := hinv.counted
  simp only [tablesTotal, modifyTable_frame, hs', List.append_nil] at hs this ⊢
  simp only [List.length_append, List.length_singleton]; omega

/-- INTERNAL: one `countStep` of `IMem` keeps the invariant.
SOURCE: stf_imem.hpp:699-701, 736-792 -/
theorem IMemInv.countStep {r : IMemMapVec × List Diag} {seen : List STFInst}
    (hinv : IMemInv r seen) (config : STFImemConfig) (e : STFInst) :
    IMemInv (countStep IMem.countImpl config e r) (seen ++ [e]) := by
  rcases imem_countImpl_cases config e r.1 with ⟨hf, h⟩ | ⟨cur, hf, -, h⟩ | ⟨cur, hf, hne, h⟩
  · -- a new entry counting one execution
    have hi := IMemMap.total_insert hf
      (IMem.newEntry e (decide (r.1.instCount < config.warmupCount.toNat))).2 .count
    simp only [IMemData.counter_count, IMem.newEntry_count] at hi
    simp only [StfTools.countStep, h]
    exact hinv.update rfl rfl _ hi e
  · -- the counted entry, one execution more
    have hm := IMemMap.total_modify hf (fun _ => historyStep e (r.1.countHit config cur).2) .count
    simp only [IMemData.counter_count, count_historyStep, count_countHit] at hm
    simp only [StfTools.countStep, h]
    exact hinv.update (countHit_frame config r.1 cur).1 (countHit_frame config r.1 cur).2.1 _
      (by omega) e
  · -- a mismatch: nothing counted, one warning
    refine ⟨?_, ?_, ?_, ?_⟩ <;> simp only [StfTools.countStep, h]
    · exact hinv.single
    · exact hinv.itv_zero
    · have := hinv.counted; simp only [List.length_append, List.length_singleton]; omega
    · intro d hd
      rcases List.mem_append.mp hd with hd | hd
      · exact hinv.warnings d hd
      · exact ⟨e.pc, cur.opcode, e.opcode, List.mem_singleton.mp hd, hne⟩

/-- For every sequence of admitted instructions, `IMem` keeps one table, and the
counts of its entries plus the number of `two opcodes` warnings it wrote equal
`inst_count_`; each warning names two different opcodes. -/
theorem imem_counted_add_warnings (config : STFImemConfig) (evs : List STFInst) :
    let r := countRun IMem.countImpl config evs (IMemMapVec.init, [])
    r.1.imemMapvec.length = 1 ∧ tablesTotal .count r.1.imemMapvec + r.2.length = r.1.instCount ∧
      ∀ d ∈ r.2, ∃ key old new, d = .twoOpcodes key old new ∧ old ≠ new := by
  intro r
  have hinv : IMemInv r evs := by
    simpa using countRun_inv IMem.countImpl config IMemInv (fun _ _ e h => h.countStep config e)
      evs _ [] imemInv_init
  refine ⟨hinv.single, ?_, hinv.warnings⟩
  rw [hinv.counted, countRun_instCount imem_countImpl_instCount]; simp [IMemMapVec.init]

/-- A valid instruction of thread 0 at `pc` that neither accesses memory, branches
nor faults. -/
def simpleInst (pc : UInt64) (op : UInt32) : STFInst :=
  { index := 0, pc := pc, opcode := op, isOpcode16 := false, isLoad := false, isStore := false,
    memoryReads := [], memoryWrites := [], isTakenBranch := false, hwtid := 0, pid := 0, tid := 0,
    isFault := false, valid := true }

/-- With the default configuration, the two admitted instructions `0x13` and then
`0x73` at PC `0x1000` leave `IMem` with a count of 1 for `inst_count_ = 2`, and a
sorted `print` of that state stops at its final assertion. -/
theorem imem_count_short_of_instCount :
    tablesTotal .count (countRun IMem.countImpl {} [simpleInst 0x1000 0x13, simpleInst 0x1000 0x73]
        (IMemMapVec.init, [])).1.imemMapvec = 1 ∧
      (countRun IMem.countImpl {} [simpleInst 0x1000 0x13, simpleInst 0x1000 0x73]
        (IMemMapVec.init, [])).1.instCount = 2 ∧
      ((countRun IMem.countImpl {} [simpleInst 0x1000 0x13, simpleInst 0x1000 0x73]
        (IMemMapVec.init, [])).1.print { sortOutput := true } false).sorted.assertFired = true := by
  decide

end StfTools.Analysis
