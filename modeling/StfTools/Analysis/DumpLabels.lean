import StfTools.Model.Dump

/-!
# What stf_dump prints, and when it writes a `PID` label

The loop of `processTrace_` prints every instruction the iterator yields up to and
including the first whose index reaches a nonzero `end_inst`
(`printedInsts`). Its state is the three loop variables of the previous triple,
which each iteration overwrites with the triple of the instruction it printed, and
the base of `std::cerr`, which the first `ERROR` line switches to hexadecimal for
good. So the output is the header followed by one iteration's lines for each
printed instruction, the variables holding the triple of the instruction printed
before it; and on `std::cerr` the `ERROR` lines of the invalid ones, the first with
its index in decimal and every later one in hexadecimal (`cerrLines`,
`dump_prints_through_end_inst`).

An iteration writes a `PID` label exactly when the dump is not concise and the
instruction's triple differs from the loop variables (`any_isPidLabel_dumpInst`).
Hence a label comes before each printed instruction whose triple differs from that
of the instruction printed before it, and before the first one unless its triple
is the initial value of the variables, `(UINT32_MAX, UINT32_MAX, UINT32_MAX)`
(`dump_pid_labels`, `dump_first_sentinel_triple_unlabelled`).
-/

set_option autoImplicit false

namespace StfTools.Analysis

open StfTools Dump

/-! ## The instructions printed -/

/-- Whether the loop stops after `inst`: its index reaches a nonzero `end_inst`
(stf_dump.cpp:259-261). -/
def stopsAt (config : STFDumpConfig) (inst : DumpInst) : Bool :=
  config.endInst != 0 && inst.index >= config.endInst

/-- The instructions the loop prints: those the iterator yields, up to and
including the first after which it stops. -/
def printedInsts (config : STFDumpConfig) (insts : List DumpInst) : List DumpInst :=
  insts.take (insts.findIdx (stopsAt config) + 1)

@[simp] theorem printedInsts_nil (config : STFDumpConfig) : printedInsts config [] = [] := rfl

/-- INTERNAL: the first instruction is printed, and the loop goes on after it
unless it stops there.
SOURCE: stf_dump.cpp:156, 259-261 -/
theorem printedInsts_cons (config : STFDumpConfig) (inst : DumpInst) (rest : List DumpInst) :
    printedInsts config (inst :: rest) =
      inst :: if stopsAt config inst then [] else printedInsts config rest := by
  unfold printedInsts
  rw [List.findIdx_cons]
  cases stopsAt config inst <;> rfl

/-- A valid instruction of thread triple `(hwtid, pid, tid)`, neither a branch nor
a fault nor an interrupt, with no record attached. -/
def simpleDumpInst (index pc : UInt64) (op : UInt32) (hwtid pid tid : UInt32) : DumpInst :=
  { index := index, pc := pc, physPc := 0, opcode := op, isOpcode16 := false, valid := true,
    hwtid := hwtid, pid := pid, tid := tid, isTakenBranch := false, branchTarget := 0,
    physBranchTarget := 0, isFault := false, isInterrupt := false, memoryAccesses := [],
    embeddedPtes := [], registerStates := [], operands := [], events := [], comments := [],
    microOps := [], readyRegs := [] }

/-! ## The `ERROR` lines -/

/-- The `ERROR` lines of the invalid instructions among `insts`, in order, from
`std::cerr` hexadecimal when `hex`: the first line's index is written in that base,
and every later one's in hexadecimal, the first line having switched the stream. -/
def cerrLines (hex : Bool) (insts : List DumpInst) : List ErrorLine :=
  match insts.filter fun i => !i.valid with
  | [] => []
  | i :: rest => ErrorLine.of hex i :: rest.map (ErrorLine.of true)

@[simp] theorem cerrLines_nil (hex : Bool) : cerrLines hex [] = [] := rfl

/-- INTERNAL: once the stream is hexadecimal, every `ERROR` line's index is.
SOURCE: stf_dump.cpp:160 -/
theorem cerrLines_true (insts : List DumpInst) :
    cerrLines true insts = (insts.filter fun i => !i.valid).map (ErrorLine.of true) := by
  unfold cerrLines
  cases insts.filter fun i => !i.valid <;> rfl

/-- INTERNAL: the first instruction's `ERROR` line, if any, is written in the
stream's base and leaves the stream hexadecimal.
SOURCE: stf_dump.cpp:159-161 -/
theorem cerrLines_cons (hex : Bool) (inst : DumpInst) (rest : List DumpInst) :
    cerrLines hex (inst :: rest) = invalidLine hex inst ++ cerrLines (hex || !inst.valid) rest := by
  cases hv : inst.valid with
  | false =>
    rw [Bool.not_false, Bool.or_true, cerrLines_true]
    simp [cerrLines, invalidLine, hv]
  | true => simp [cerrLines, invalidLine, hv]

/-! ## The loop -/

/-- INTERNAL: one iteration of the loop, with its exit test read as `stopsAt`.
SOURCE: stf_dump.cpp:156-261 -/
theorem dumpLoop_cons (config : STFDumpConfig) (prev : ThreadPrev) (hex : Bool)
    (inst : DumpInst) (rest : List DumpInst) :
    dumpLoop config prev hex (inst :: rest) =
      if stopsAt config inst then ([dumpInst config prev inst], invalidLine hex inst)
      else
        let r := dumpLoop config (ThreadPrev.of inst) (hex || !inst.valid) rest
        (dumpInst config prev inst :: r.1, invalidLine hex inst ++ r.2) := rfl

/-- INTERNAL: from loop variables holding `prev` and `std::cerr` hexadecimal when
`hex`, the loop writes, for each instruction it prints, the lines of one iteration
with the variables holding the triple of the instruction printed before it, and
the `ERROR` lines of the invalid ones.
SOURCE: stf_dump.cpp:156-261 -/
theorem dumpLoop_eq (config : STFDumpConfig) :
    ∀ (prev : ThreadPrev) (hex : Bool) (insts : List DumpInst),
    dumpLoop config prev hex insts =
      (List.zipWith (dumpInst config) (prev :: (printedInsts config insts).map ThreadPrev.of)
        (printedInsts config insts), cerrLines hex (printedInsts config insts))
  | _, _, [] => rfl
  | prev, hex, inst :: rest => by
    rw [dumpLoop_cons, printedInsts_cons, cerrLines_cons]
    cases stopsAt config inst with
    | true => simp
    | false => simp [dumpLoop_eq config (ThreadPrev.of inst) (hex || !inst.valid) rest]

/-- For every configuration and every sequence of instructions the iterator yields,
stf_dump writes its header, then for each instruction up to and including the
first whose index reaches a nonzero `end_inst`, in order, the lines of one
iteration, the loop variables holding the triple of the instruction printed
before it (initially `(UINT32_MAX, UINT32_MAX, UINT32_MAX)`); and on `std::cerr`
one `ERROR` line for each invalid instruction among them, in order, with the
opcode and the PC in hexadecimal and the index in decimal on the first line and in
hexadecimal on every later one. -/
theorem dump_prints_through_end_inst (config : STFDumpConfig) (insts : List DumpInst) :
    Dump.processTrace config insts =
      (headerLines config ++ (List.zipWith (dumpInst config)
          (initialPrev :: (printedInsts config insts).map ThreadPrev.of)
          (printedInsts config insts)).flatten,
        cerrLines false (printedInsts config insts)) := by
  rw [Dump.processTrace, dumpLoop_eq]

/-- Two invalid instructions: the second `ERROR` line's index is hexadecimal. -/
example : (Dump.processTrace {} [{ simpleDumpInst 10 0x1000 0 0 0 0 with valid := false },
    { simpleDumpInst 11 0x1004 0 0 0 0 with valid := false }]).2 =
      [⟨false, 10, 0, 0x1000⟩, ⟨true, 11, 0, 0x1004⟩] := by
  decide

/-! ## The `PID` labels -/

/-- INTERNAL: an iteration writes a `PID` label exactly outside concise mode when
the instruction's triple differs from the loop variables; no other line it writes
is one.
SOURCE: stf_dump.cpp:166-174, 179-257 -/
theorem any_isPidLabel_dumpInst (config : STFDumpConfig) (prev : ThreadPrev) (inst : DumpInst) :
    (dumpInst config prev inst).any DumpLine.isPidLabel =
      (!config.conciseMode && ThreadPrev.of inst != prev) := by
  have hrec : (recordLines config inst).any DumpLine.isPidLabel = false := by
    unfold recordLines
    split_ifs <;> simp only [List.any_append, Bool.or_eq_false_iff, List.any_eq_false,
      List.forall_mem_map, DumpLine.isPidLabel, Bool.false_eq_true, not_false_eq_true, implies_true,
      List.not_mem_nil, false_implies, and_self, and_true]
  have htriple : (inst.tid != prev.tid_prev || inst.pid != prev.pid_prev ||
      inst.hwtid != prev.hw_tid_prev) = (ThreadPrev.of inst != prev) := by
    obtain ⟨h, p, t⟩ := prev
    rw [Bool.eq_iff_iff]
    simp only [ThreadPrev.of, bne_iff_ne, ne_eq, ThreadPrev.mk.injEq, Bool.or_eq_true, not_and_or,
      or_comm, or_left_comm]
  unfold dumpInst
  rw [htriple]
  cases config.conciseMode <;> cases ThreadPrev.of inst != prev <;>
    simp [hrec, DumpLine.isPidLabel]

/-- For every configuration and every sequence of instructions the iterator yields,
the iteration that prints an instruction writes a `PID` label exactly when the
dump is not concise and the instruction's thread triple differs from that of the
instruction printed before it, or, for the first instruction, from
`(UINT32_MAX, UINT32_MAX, UINT32_MAX)`. -/
theorem dump_pid_labels (config : STFDumpConfig) (insts : List DumpInst) :
    (dumpLoop config initialPrev false insts).1.map (fun lines => lines.any DumpLine.isPidLabel) =
      List.zipWith (fun prev inst => !config.conciseMode && ThreadPrev.of inst != prev)
        (initialPrev :: (printedInsts config insts).map ThreadPrev.of) (printedInsts config insts) := by
  rw [dumpLoop_eq, List.map_zipWith]
  simp only [any_isPidLabel_dumpInst]

/-- With the default configuration, the dump of a trace whose one instruction runs
on the thread triple `(0xFFFFFFFF, 0xFFFFFFFF, 0xFFFFFFFF)` has no `PID` label,
while that of the same instruction on `(0, 0, 0)` has one before it. -/
theorem dump_first_sentinel_triple_unlabelled :
    (Dump.processTrace {} [simpleDumpInst 0 0x1000 0x13 0xFFFFFFFF 0xFFFFFFFF 0xFFFFFFFF]).1 =
        [.header, .inst false 0 0x1000 none .blank 0x13] ∧
      (Dump.processTrace {} [simpleDumpInst 0 0x1000 0x13 0 0 0]).1 =
        [.header, .pidLabel 0 0 0, .inst false 0 0x1000 none .blank 0x13] := by
  decide

end StfTools.Analysis
