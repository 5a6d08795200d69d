import Mathlib.Data.List.Basic

/-!
# Instruction events, the profiler's configuration and its diagnostic lines

`STFInst` is the part of the trace codec's instruction view that `stf_imem` reads
(stf_imem.hpp:664-862): the PC, the opcode and its width, the load/store and
taken-branch flags, the addresses of the memory reads and writes, the thread
triple, the fault flag and the validity flag. `STFImemConfig` holds the options of
stf_imem.hpp:25-49 that the profiler and its report read.

A line the profiler writes to `std::cerr` is a `Diag`: the profiler never reads one
back, so each operation returns the lines it writes next to its new state.
-/

set_option autoImplicit false

namespace StfTools

/-- The instruction view of the trace reader, restricted to the fields the
profiler reads. A memory access contributes only its address. -/
structure STFInst where
  index : UInt64
  pc : UInt64
  opcode : UInt32
  isOpcode16 : Bool
  isLoad : Bool
  isStore : Bool
  memoryReads : List UInt64
  memoryWrites : List UInt64
  isTakenBranch : Bool
  hwtid : UInt32
  pid : UInt32
  tid : UInt32
  isFault : Bool
  valid : Bool
  deriving DecidableEq, Repr

/-- The command-line options the profiler core and its report consume, with the
defaults of stf_imem.hpp:25-49. -/
structure STFImemConfig where
  showPercentage : Bool := false
  traceFilename : String := ""
  outputFilename : String := ""
  gHwTid : UInt32 := 0
  gPid : UInt32 := 0
  gTid : UInt32 := 0
  keepCount : UInt64 := 0xFFFFFFFFFFFFFFFF
  showPhyspc : Bool := false
  runlengthCount : UInt64 := 0xFFFFFFFFFFFFFFFF
  warmupCount : UInt64 := 0
  track : Bool := false
  sortOutput : Bool := false
  skipNonUser : Bool := false
  localHistory : Bool := false
  deriving DecidableEq, Repr

/-- A line the profiler writes to the diagnostic stream.
* `invalidInstruction i op pc`: `ERROR: i invalid instruction op PC pc`
  (stf_imem.hpp:676-682);
* `twoOpcodes key old new`: `WARN : 0xkey two opcodes old new`
  (stf_imem.hpp:784-790).

The hexadecimal fields go through the trace library's `format_utils::formatHex`,
which is not part of this repository; a line is modelled by its values. stf_dump's
`ERROR` line, which sets `std::hex` on the stream itself, is `Dump.ErrorLine`. -/
inductive Diag where
  | invalidInstruction (index : UInt64) (opcode : UInt32) (pc : UInt64)
  | twoOpcodes (key : UInt64) (stored : UInt32) (seen : UInt32)
  deriving DecidableEq, Repr

/-- The address `count_impl` keeps from a list of memory accesses: the loop
`for (m : accesses) addr = m.getAddress();` leaves the last one, and `0` when the
list is empty (stf_imem.hpp:743-752). -/
def lastAddress (accesses : List UInt64) : UInt64 :=
  accesses.foldl (fun _ a => a) 0

@[simp] theorem lastAddress_nil : lastAddress [] = 0 := rfl

/-- INTERNAL: the loop's result after one more access is that access.
SOURCE: stf_imem.hpp:745-747 -/
@[simp] theorem lastAddress_append_singleton (l : List UInt64) (a : UInt64) :
    lastAddress (l ++ [a]) = a := by
  simp [lastAddress]

end StfTools
