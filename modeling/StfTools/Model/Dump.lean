import StfTools.Model.Trace

/-!
# The dump: `processTrace_` of stf_dump

`processTrace_` (stf_dump.cpp:111-262) writes a header, then one group of lines for
each instruction the region iterator yields: a `PID` label when the thread triple
differs from that of the previous instruction, the instruction line, and outside
concise mode one line per record the trace attaches to the instruction. It stops
after an instruction whose index reaches a nonzero `end_inst`. An invalid
instruction also gets an `ERROR` line on `std::cerr` (`ErrorLine`).

The loop carries two pieces of state. The previous triple is three loop variables
that start at `std::numeric_limits<uint32_t>::max()`; the label test compares each
instruction with them and then overwrites them. The base of `std::cerr` starts
decimal; the `ERROR` line switches it to hexadecimal with `std::hex` before the
opcode, and nothing switches it back, so the index of every `ERROR` line after the
first is hexadecimal too.

A line is modelled by the values it prints, as for the profiler's report: its
padding, its disassembly and the text of a record are functions of these values
and of the external printers. The header's values come from the trace reader and
are left to it. The iterator (its start at `start_inst - 1`, its region of
interest) belongs to the trace codec: the loop runs on the instructions it yields.
-/

set_option autoImplicit false

namespace StfTools.Dump

/-- The options of `STFDumpConfig` that `processTrace_` reads (stf_dump.cpp:25-74),
with the values `parseCommandLine` leaves when a flag is absent; 0 for an
instruction bound, which the source reads as "not given". `showPhys` is the
process-wide flag `format_utils::showPhys()` that `-p` sets (stf_dump.cpp:49). -/
structure STFDumpConfig where
  conciseMode : Bool := false
  showPhys : Bool := false
  showPte : Bool := false
  startInst : UInt64 := 0
  endInst : UInt64 := 0
  omitHeader : Bool := false
  deriving DecidableEq, Repr

/-- A record the trace attaches to an instruction and `operator<<` prints (a memory
access, a page-table walk, a register state or operand, an event, a comment),
modelled by its position in the trace. -/
structure TraceRecord where
  position : Nat
  deriving DecidableEq, Repr

/-- A micro-op record: its size in bytes and its opcode. -/
structure MicroOp where
  size : Nat
  microOp : UInt32
  deriving DecidableEq, Repr

/-- The instruction view of the trace reader, restricted to the fields stf_dump
reads. -/
structure DumpInst where
  index : UInt64
  pc : UInt64
  physPc : UInt64
  opcode : UInt32
  isOpcode16 : Bool
  valid : Bool
  hwtid : UInt32
  pid : UInt32
  tid : UInt32
  isTakenBranch : Bool
  branchTarget : UInt64
  physBranchTarget : UInt64
  isFault : Bool
  isInterrupt : Bool
  memoryAccesses : List TraceRecord
  embeddedPtes : List TraceRecord
  registerStates : List TraceRecord
  operands : List TraceRecord
  events : List TraceRecord
  comments : List TraceRecord
  microOps : List MicroOp
  readyRegs : List Nat
  deriving DecidableEq, Repr

/-- The field after the PC on an instruction line (stf_dump.cpp:190-213). -/
inductive TargetField where
  /-- `PC target`, with `:phys` when physical addresses are shown. -/
  | taken (target : UInt64) (physTarget : Option UInt64)
  /-- `FAULT`, in concise mode. -/
  | fault
  /-- `INTERRUPT`, in concise mode. -/
  | interrupt
  /-- Spaces. -/
  | blank
  deriving DecidableEq, Repr

/-- A line stf_dump writes to `std::cout`. -/
inductive DumpLine where
  /-- The reader's header: `VERSION`, the trace information, `ISA`, `INST_IEM` and
  `INST_EXT` (stf_dump.cpp:119-136). -/
  | header
  /-- `Start Inst:s  End Inst:e`, without the end when `end_inst` is 0
  (stf_dump.cpp:138-146). -/
  | startEnd (startInst : UInt64) (endInst : Option UInt64)
  /-- `PID hwtid:pid:tid` (stf_dump.cpp:166-174). -/
  | pidLabel (hwtid pid tid : UInt32)
  /-- `INST16` or `INST32`, the index, the PC (`:phys`), the target field, the opcode
  and its disassembly (stf_dump.cpp:179-216). -/
  | inst (is16 : Bool) (index : UInt64) (pc : UInt64) (physPc : Option UInt64)
      (target : TargetField) (opcode : UInt32)
  /-- A record, printed by its own `operator<<` (stf_dump.cpp:220-244). -/
  | record (r : TraceRecord)
  /-- `UOp16` or `UOp32`, the micro-op and its disassembly at the instruction's PC
  (stf_dump.cpp:246-251). -/
  | microOp (is16 : Bool) (opcode : UInt32) (pc : UInt64)
  /-- `ReadyReg reg` (stf_dump.cpp:253-256). -/
  | readyReg (reg : Nat)
  deriving DecidableEq, Repr

/-- Whether a line is a `PID` label. -/
def DumpLine.isPidLabel : DumpLine → Bool
  | .pidLabel .. => true
  | _ => false

/-- The loop variables `hw_tid_prev`, `pid_prev` and `tid_prev`
(stf_dump.cpp:150-152). -/
structure ThreadPrev where
  hw_tid_prev : UInt32
  pid_prev : UInt32
  tid_prev : UInt32
  deriving DecidableEq, Repr

/-- Their initial values, `std::numeric_limits<uint32_t>::max()`
(stf_dump.cpp:150-152). -/
def initialPrev : ThreadPrev := ⟨0xFFFFFFFF, 0xFFFFFFFF, 0xFFFFFFFF⟩

/-- Their values after an iteration on `inst` (stf_dump.cpp:175-177). -/
def ThreadPrev.of (inst : DumpInst) : ThreadPrev := ⟨inst.hwtid, inst.pid, inst.tid⟩

/-- The line `ERROR: i invalid instruction op PC pc` on `std::cerr`
(stf_dump.cpp:159-161): the opcode and the PC in hexadecimal, the index in the base
the stream was left in, hexadecimal when `indexHex`. -/
structure ErrorLine where
  indexHex : Bool
  index : UInt64
  opcode : UInt32
  pc : UInt64
  deriving DecidableEq, Repr

/-- The `ERROR` line of `inst`, `std::cerr` being hexadecimal when `hex`. -/
def ErrorLine.of (hex : Bool) (inst : DumpInst) : ErrorLine :=
  ⟨hex, inst.index, inst.opcode, inst.pc⟩

/-- The `ERROR` line an invalid instruction gets (stf_dump.cpp:159-161). -/
def invalidLine (hex : Bool) (inst : DumpInst) : List ErrorLine :=
  if inst.valid then [] else [ErrorLine.of hex inst]

/-- The target field: the branch target of a taken branch, else in concise mode
`FAULT` or `INTERRUPT`, else blank (stf_dump.cpp:190-213). -/
def targetField (config : STFDumpConfig) (inst : DumpInst) : TargetField :=
  if inst.isTakenBranch then
    .taken inst.branchTarget (if config.showPhys then some inst.physBranchTarget else none)
  else if config.conciseMode && (inst.isFault || inst.isInterrupt) then
    if inst.isFault then .fault else .interrupt
  else .blank

/-- The lines after the instruction line outside concise mode: the memory accesses,
the page-table walks when `show_pte`, the register states, the operands, the
events, the comments, the micro-ops and the ready registers (stf_dump.cpp:219-257). -/
def recordLines (config : STFDumpConfig) (inst : DumpInst) : List DumpLine :=
  inst.memoryAccesses.map .record ++
    (if config.showPte then inst.embeddedPtes.map .record else []) ++
    inst.registerStates.map .record ++ inst.operands.map .record ++ inst.events.map .record ++
    inst.comments.map .record ++
    inst.microOps.map (fun u => .microOp (u.size == 2) u.microOp inst.pc) ++
    inst.readyRegs.map .readyReg

/-- The lines one iteration writes to `std::cout` for `inst`, the loop variables
holding `prev` (stf_dump.cpp:163-257). -/
def dumpInst (config : STFDumpConfig) (prev : ThreadPrev) (inst : DumpInst) : List DumpLine :=
  (if !config.conciseMode &&
      (inst.tid != prev.tid_prev || inst.pid != prev.pid_prev || inst.hwtid != prev.hw_tid_prev)
    then [.pidLabel inst.hwtid inst.pid inst.tid] else []) ++
    .inst inst.isOpcode16 inst.index inst.pc (if config.showPhys then some inst.physPc else none)
      (targetField config inst) inst.opcode ::
    (if config.conciseMode then [] else recordLines config inst)

/-- The loop over the instructions the iterator yields (stf_dump.cpp:156-261), the
loop variables holding `prev` and `std::cerr` being hexadecimal when `hex`: the
lines of each iteration in order, and the `ERROR` lines. An `ERROR` line leaves the
stream hexadecimal. The loop stops after an instruction whose index reaches a
nonzero `end_inst`. -/
def dumpLoop (config : STFDumpConfig) :
    ThreadPrev → Bool → List DumpInst → List (List DumpLine) × List ErrorLine
  | _, _, [] => ([], [])
  | prev, hex, inst :: rest =>
    if config.endInst != 0 && inst.index >= config.endInst then
      ([dumpInst config prev inst], invalidLine hex inst)
    else
      let r := dumpLoop config (ThreadPrev.of inst) (hex || !inst.valid) rest
      (dumpInst config prev inst :: r.1, invalidLine hex inst ++ r.2)

/-- The header, unless `omit_header` (stf_dump.cpp:118-148). -/
def headerLines (config : STFDumpConfig) : List DumpLine :=
  if config.omitHeader then []
  else .header :: if config.startInst != 0 || config.endInst != 0 then
      [.startEnd config.startInst (if config.endInst != 0 then some config.endInst else none)]
    else []

/-- `processTrace_` (stf_dump.cpp:111-262) on the instructions the iterator yields:
the lines it writes to `std::cout`, and those it writes to `std::cerr`, which starts
decimal. -/
def processTrace (config : STFDumpConfig) (insts : List DumpInst) :
    List DumpLine × List ErrorLine :=
  let r := dumpLoop config initialPrev false insts
  (headerLines config ++ r.1.flatten, r.2)

end StfTools.Dump
