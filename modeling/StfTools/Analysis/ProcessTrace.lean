import StfTools.Analysis.JavaTables
import StfTools.Analysis.IMemRuns

/-!
# `processTrace_` counts the first admitted instructions

The loop of `processTrace_` skips the instructions of other threads and the
faulting ones, hands the others to `count_impl`, and stops once `inst_count_`
reaches `keep_count`. Its test comes after `++inst_count_`, so the first admitted
instruction is always counted: the loop runs `count_impl` on the first
`max 1 keep_count` admitted instructions, in stream order
(`processTrace_counts_first_admitted`), and with `keep_count = 0` it still counts
one (`processTrace_keep_zero_counts_one`).

The loop writes an `ERROR` line to `std::cerr` for each invalid instruction it
reads, before any filter. `JavaIMem::count_impl` writes nothing, so with it
`std::cerr` holds exactly the `ERROR` lines of the instructions read: the whole
stream, or the stream up to the admitted instruction that reaches the cap
(`javaIMem_error_lines`).
-/

set_option autoImplicit false

namespace StfTools.Analysis

open StfTools

/-- INTERNAL: one instruction of the loop: its `ERROR` line when invalid, then a
count when it is admitted, followed by the test against `keep_count`.
SOURCE: stf_imem.hpp:673-706 -/
theorem processLoop_cons (impl : STFImemConfig → STFInst → IMemMapVec → IMemMapVec × List Diag)
    (config : STFImemConfig) (inst : STFInst) (rest : List STFInst) (s : IMemMapVec)
    (log : List Diag) :
    processLoop impl config (inst :: rest) (s, log) =
      let log := if inst.valid then log else log ++ [.invalidInstruction inst.index inst.opcode inst.pc]
      if admitted config inst then
        let r := countStep impl config inst (s, log)
        if r.1.instCount ≥ config.keepCount.toNat then r else processLoop impl config rest r
      else processLoop impl config rest (s, log) := by
  have hadm : admitted config inst = true ↔ ¬(config.gHwTid ≠ 0 ∧ config.gHwTid ≠ inst.hwtid) ∧
      ¬(config.gPid ≠ 0 ∧ config.gPid ≠ inst.pid) ∧ ¬(config.gTid ≠ 0 ∧ config.gTid ≠ inst.tid) ∧
      ¬inst.isFault = true := by
    simp only [admitted, Bool.and_eq_true, Bool.or_eq_true, beq_iff_eq, Bool.not_eq_true', ne_eq,
      not_and, not_not, Bool.not_eq_true, or_iff_not_imp_left, and_assoc]
  simp only [processLoop]
  by_cases ha : admitted config inst = true
  · -- every filter lets the instruction through
    obtain ⟨h1, h2, h3, h4⟩ := hadm.mp ha
    simp only [h1, h2, h3, h4, ha, if_false, if_true, Bool.false_eq_true]
  · -- the first filter that stops it, or the fault test, skips it
    have hn := mt hadm.mpr ha
    rw [if_neg ha]
    by_cases h1 : config.gHwTid ≠ 0 ∧ config.gHwTid ≠ inst.hwtid
    · rw [if_pos h1]
    by_cases h2 : config.gPid ≠ 0 ∧ config.gPid ≠ inst.pid
    · rw [if_neg h1, if_pos h2]
    by_cases h3 : config.gTid ≠ 0 ∧ config.gTid ≠ inst.tid
    · rw [if_neg h1, if_neg h2, if_pos h3]
    rw [if_neg h1, if_neg h2, if_neg h3, if_pos (of_not_not fun h4 => hn ⟨h1, h2, h3, h4⟩)]

/-- INTERNAL: the state after a run does not depend on the lines written before it.
SOURCE: stf_imem.hpp:699-701 -/
theorem countRun_fst_log (impl : STFImemConfig → STFInst → IMemMapVec → IMemMapVec × List Diag)
    (config : STFImemConfig) :
    ∀ (evs : List STFInst) (r r' : IMemMapVec × List Diag), r.1 = r'.1 →
      (countRun impl config evs r).1 = (countRun impl config evs r').1
  | [], _, _, h => h
  | e :: rest, r, r', h => countRun_fst_log impl config rest _ _ (by simp [countStep, h])

/-- INTERNAL: from any state, the loop leaves the state of the run over the first
`max 1 (keep_count - inst_count_)` admitted instructions.
SOURCE: stf_imem.hpp:673-706 -/
theorem processLoop_fst {impl : STFImemConfig → STFInst → IMemMapVec → IMemMapVec × List Diag}
    (himpl : ∀ config inst s, (impl config inst s).1.instCount = s.instCount) (config : STFImemConfig) :
    ∀ (insts : List STFInst) (r : IMemMapVec × List Diag),
      (processLoop impl config insts r).1 = (countRun impl config
        ((insts.filter (admitted config)).take (max 1 (config.keepCount.toNat - r.1.instCount))) r).1
  | [], _ => by simp [processLoop, countRun]
  | inst :: rest, (s, log) => by
    rw [processLoop_cons]
    dsimp only
    generalize (if inst.valid = true then log
      else log ++ [Diag.invalidInstruction inst.index inst.opcode inst.pc]) = log'
    by_cases ha : admitted config inst = true
    · have hc : (countStep impl config inst (s, log')).1.instCount = s.instCount + 1 := by
        simp [countStep, himpl]
      simp only [ha, if_true, List.filter_cons_of_pos ha, hc]
      split_ifs with hk
      · -- the cap is reached: this was the last instruction counted
        rw [show max 1 (config.keepCount.toNat - s.instCount) = 0 + 1 by omega]
        rfl
      · rw [processLoop_fst himpl config rest, hc,
          show max 1 (config.keepCount.toNat - s.instCount) =
            max 1 (config.keepCount.toNat - (s.instCount + 1)) + 1 by omega]
        exact countRun_fst_log impl config _ _ _ rfl
    · simp only [ha, Bool.false_eq_true, if_false, List.filter_cons_of_neg ha]
      rw [processLoop_fst himpl config rest]
      exact countRun_fst_log impl config _ _ _ rfl

/-- For every configuration and every stream of instructions, `processTrace_`
with either profiler leaves the state of the run over the first
`max 1 keep_count` admitted instructions in stream order, each counted at its
position, and `inst_count_` ends at their number, `min (max 1 keep_count) A` for
`A` admitted instructions. -/
theorem processTrace_counts_first_admitted (config : STFImemConfig) (rv64 : Bool)
    (insts : List STFInst) :
    let E := (insts.filter (admitted config)).take (max 1 config.keepCount.toNat)
    let r0 : IMemMapVec × List Diag := ({ IMemMapVec.init with isRv64 := rv64 }, [])
    (processTrace IMem.countImpl config rv64 insts (IMemMapVec.init, [])).1 =
        (countRun IMem.countImpl config E r0).1 ∧
      (processTrace JavaIMem.countImpl config rv64 insts (IMemMapVec.init, [])).1 =
        (countRun JavaIMem.countImpl config E r0).1 ∧
      (processTrace IMem.countImpl config rv64 insts (IMemMapVec.init, [])).1.instCount =
        min (max 1 config.keepCount.toNat) (insts.filter (admitted config)).length ∧
      (processTrace JavaIMem.countImpl config rv64 insts (IMemMapVec.init, [])).1.instCount =
        min (max 1 config.keepCount.toNat) (insts.filter (admitted config)).length := by
  intro E r0
  have hI := processLoop_fst imem_countImpl_instCount config insts r0
  have hJ := processLoop_fst java_countImpl_instCount config insts r0
  have h0 : r0.1.instCount = 0 := rfl
  refine ⟨hI, hJ, ?_, ?_⟩
  · show (processLoop IMem.countImpl config insts r0).1.instCount = _
    rw [hI, countRun_instCount imem_countImpl_instCount, List.length_take, h0, Nat.zero_add,
      Nat.sub_zero]
  · show (processLoop JavaIMem.countImpl config insts r0).1.instCount = _
    rw [hJ, countRun_instCount java_countImpl_instCount, List.length_take, h0, Nat.zero_add,
      Nat.sub_zero]

/-- With `keep_count = 0`, a stream of one admitted instruction is counted by
either profiler: `inst_count_` ends at 1, not at `min(keep_count, A) = 0`. -/
theorem processTrace_keep_zero_counts_one :
    (processTrace IMem.countImpl { keepCount := 0 } false [simpleInst 0x1000 0x13]
        (IMemMapVec.init, [])).1.instCount = 1 ∧
      (processTrace JavaIMem.countImpl { keepCount := 0 } false [simpleInst 0x1000 0x13]
        (IMemMapVec.init, [])).1.instCount = 1 := by
  decide

/-! ## What the loop writes to `std::cerr` -/

/-- The `ERROR` lines of the invalid instructions among `insts`, in order
(stf_imem.hpp:675-681). -/
def errorLines (insts : List STFInst) : List Diag :=
  (insts.filter fun inst => !inst.valid).map fun inst =>
    .invalidInstruction inst.index inst.opcode inst.pc

@[simp] theorem errorLines_append (a b : List STFInst) :
    errorLines (a ++ b) = errorLines a ++ errorLines b := by
  simp only [errorLines, List.filter_append, List.map_append]

/-- INTERNAL: the loop's report of an invalid instruction is its `ERROR` line.
SOURCE: stf_imem.hpp:675-681 -/
theorem log_invalid (inst : STFInst) (log : List Diag) :
    (if inst.valid then log else log ++ [.invalidInstruction inst.index inst.opcode inst.pc]) =
      log ++ errorLines [inst] := by
  cases h : inst.valid <;> simp [errorLines, h]

/-- INTERNAL: `JavaIMem::count_impl` writes nothing.
SOURCE: stf_imem.hpp:802-862 -/
theorem java_countImpl_silent (config : STFImemConfig) (inst : STFInst) (s : IMemMapVec) :
    (JavaIMem.countImpl config inst s).2 = [] := by
  unfold JavaIMem.countImpl
  split
  · split <;> rfl
  · rfl

section Silent

variable {impl : STFImemConfig → STFInst → IMemMapVec → IMemMapVec × List Diag}
  (hsilent : ∀ config inst s, (impl config inst s).2 = [])
  (hcount : ∀ config inst s, (impl config inst s).1.instCount = s.instCount)
  (config : STFImemConfig)

include hsilent hcount

/-- INTERNAL: a silent `count_impl` leaves the lines written, and the count goes
up by one.
SOURCE: stf_imem.hpp:699-701 -/
theorem countStep_silent (inst : STFInst) (s : IMemMapVec) (log : List Diag) :
    (countStep impl config inst (s, log)).2 = log ∧
      (countStep impl config inst (s, log)).1.instCount = s.instCount + 1 := by
  simp [countStep, hsilent, hcount]

/-- INTERNAL: with a silent `count_impl`, a loop that admits fewer instructions
than its cap reads them all and writes the `ERROR` line of each invalid one.
SOURCE: stf_imem.hpp:673-706 -/
theorem processLoop_log_all (insts : List STFInst) : ∀ (s : IMemMapVec) (log : List Diag),
    (insts.filter (admitted config)).length < max 1 (config.keepCount.toNat - s.instCount) →
      (processLoop impl config insts (s, log)).2 = log ++ errorLines insts := by
  induction insts with
  | nil => exact fun _ _ _ => (List.append_nil _).symm
  | cons inst rest ih =>
    intro s log h
    rw [processLoop_cons]
    dsimp only
    rw [log_invalid, show errorLines (inst :: rest) = errorLines [inst] ++ errorLines rest from
      errorLines_append [inst] rest, ← List.append_assoc]
    by_cases ha : admitted config inst = true
    · rw [List.filter_cons_of_pos ha, List.length_cons] at h
      obtain ⟨hl, hc⟩ := countStep_silent hsilent hcount config inst s (log ++ errorLines [inst])
      rw [if_pos ha, if_neg (by omega), ih _ _ (by omega), hl]
    · rw [List.filter_cons_of_neg ha] at h
      rw [if_neg ha, ih s _ h]

/-- INTERNAL: with a silent `count_impl`, a loop whose cap is reached at the
admitted instruction `inst` reads up to it and writes the `ERROR` line of each
invalid instruction read.
SOURCE: stf_imem.hpp:673-706 -/
theorem processLoop_log_stop (inst : STFInst) (post : List STFInst) (ha : admitted config inst)
    (pre : List STFInst) : ∀ (s : IMemMapVec) (log : List Diag),
      (pre.filter (admitted config)).length + 1 = max 1 (config.keepCount.toNat - s.instCount) →
      (processLoop impl config (pre ++ inst :: post) (s, log)).2 = log ++ errorLines (pre ++ [inst]) := by
  induction pre with
  | nil =>
    intro s log h
    obtain ⟨hl, hc⟩ := countStep_silent hsilent hcount config inst s (log ++ errorLines [inst])
    rw [List.nil_append, processLoop_cons]
    dsimp only
    rw [log_invalid, if_pos ha, if_pos (by rw [List.filter_nil, List.length_nil] at h; omega), hl,
      List.nil_append]
  | cons p pre ih =>
    intro s log h
    rw [List.cons_append, processLoop_cons]
    dsimp only
    rw [log_invalid, List.cons_append, show errorLines (p :: (pre ++ [inst])) =
      errorLines [p] ++ errorLines (pre ++ [inst]) from errorLines_append [p] _, ← List.append_assoc]
    by_cases hp : admitted config p = true
    · rw [List.filter_cons_of_pos hp, List.length_cons] at h
      obtain ⟨hl, hc⟩ := countStep_silent hsilent hcount config p s (log ++ errorLines [p])
      rw [if_pos hp, if_neg (by omega), ih _ _ (by omega), hl]
    · rw [List.filter_cons_of_neg hp] at h
      rw [if_neg hp, ih s _ h]

end Silent

/-- For every configuration, every trace encoding and every stream of
instructions, `processTrace_` with `JavaIMem` writes to `std::cerr` only the
`ERROR` lines of the invalid instructions it reads, in stream order: those of the
whole stream when it admits fewer than `max 1 keep_count` instructions, and
otherwise those up to the `max 1 keep_count`-th admitted instruction, after which
it reads nothing. -/
theorem javaIMem_error_lines (config : STFImemConfig) (rv64 : Bool) (insts : List STFInst) :
    let log := (processTrace JavaIMem.countImpl config rv64 insts (IMemMapVec.init, [])).2
    ((insts.filter (admitted config)).length < max 1 config.keepCount.toNat →
      log = errorLines insts) ∧
    ∀ pre inst post, insts = pre ++ inst :: post → admitted config inst = true →
      (pre.filter (admitted config)).length + 1 = max 1 config.keepCount.toNat →
      log = errorLines (pre ++ [inst]) :=
  ⟨processLoop_log_all java_countImpl_silent java_countImpl_instCount config insts
      { IMemMapVec.init with isRv64 := rv64 } [],
    fun pre inst post hi ha => hi ▸ processLoop_log_stop java_countImpl_silent
      java_countImpl_instCount config inst post ha pre { IMemMapVec.init with isRv64 := rv64 } []⟩

end StfTools.Analysis
