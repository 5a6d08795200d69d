import StfTools.Model.Trace

/-!
# One footprint entry: `IMemData`

`IMemData` (stf_imem.hpp:57-221) is the per-PC record of the profiler: opcode,
width, execution counters, and two fixed-capacity local histories of
`MAX_LHIST_ = 50` slots each, a ring of load/store strides and a ring of branch
outcomes. Counters are `uint64_t` in the source; they are natural numbers here,
since a run stops at `keep_count < 2^64` admitted instructions and no counter
exceeds the number of instructions admitted (`StfTools.Analysis.ProcessTrace`).

The stride ring is `std::vector<int64_t>` and the outcome ring `std::bitset<50>`;
both are lists written with `List.set` at their cursor, the cursor being the
source's `uint32_t` index. That the cursor stays below 50 is a theorem about the
operations, not a property of the type.
-/

set_option autoImplicit false

namespace StfTools

/-- `MAX_LHIST_`, the capacity of both local histories (stf_imem.hpp:59). -/
def MAX_LHIST_ : Nat := 50

/-- The value of `static_cast<int64_t>(x)` for a `uint64_t` `x`: its two's
complement reading. -/
def toInt64 (x : UInt64) : Int := x.toBitVec.toInt

/-- The three execution counters of an entry, each with its own maximum in the
table collection (stf_imem.hpp:63-65, 232-234). -/
inductive Counter where
  | count
  | warmup
  | runLength
  deriving DecidableEq, Repr

/-- The fields of `IMemData`, in the source's order. -/
structure IMemData where
  is16bit : Bool
  opcode : UInt32
  physPc : UInt64
  warmup : Nat
  runlength : Nat
  count : Nat
  isLoadstore : Bool
  lastAddress : UInt64
  recentStrides : List Int
  recentStridesIdx : Nat
  isBranch : Bool
  branchLhr : List Bool
  branchLhrIdx : Nat
  deriving DecidableEq, Repr

namespace IMemData

/-- `opcodeMatch` (stf_imem.hpp:129). -/
def opcodeMatch (d : IMemData) (op : UInt32) : Bool := d.opcode == op

/-- `getOpcodeSize` (stf_imem.hpp:220): 2 bytes for a compressed instruction. -/
def getOpcodeSize (d : IMemData) : UInt32 := if d.is16bit then 2 else 4

/-- The value of one counter: `getCount`, `getWarmup` or `getRunLength`. -/
def counter : Counter → IMemData → Nat
  | .count, d => d.count
  | .warmup, d => d.warmup
  | .runLength, d => d.runlength

/-- One increment, `++count_`, `++warmup_` or `++runlength_`
(stf_imem.hpp:169-179). -/
def bump : Counter → IMemData → IMemData
  | .count, d => { d with count := d.count + 1 }
  | .warmup, d => { d with warmup := d.warmup + 1 }
  | .runLength, d => { d with runlength := d.runlength + 1 }

/-- `incCount` (stf_imem.hpp:169). -/
def incCount (d : IMemData) : IMemData := bump .count d

/-- `incWarmup` (stf_imem.hpp:174). -/
def incWarmup (d : IMemData) : IMemData := bump .warmup d

/-- `incRunLength` (stf_imem.hpp:179). -/
def incRunLength (d : IMemData) : IMemData := bump .runLength d

/-- `nextStride` (stf_imem.hpp:194-198): store the stride at the cursor, advance
the cursor with the test `idx == MAX_LHIST_ - 1 ? 0 : idx + 1`, and remember the
address. -/
def nextStride (d : IMemData) (curr_addr : UInt64) : IMemData :=
  { d with
    recentStrides := d.recentStrides.set d.recentStridesIdx (toInt64 (curr_addr - d.lastAddress))
    recentStridesIdx :=
      if d.recentStridesIdx = MAX_LHIST_ - 1 then 0 else d.recentStridesIdx + 1
    lastAddress := curr_addr }

/-- `nextBranchHistory` (stf_imem.hpp:203-215): mark the entry a branch, set or
reset the bit at the cursor, then increment the cursor and wrap it when it
reaches `MAX_LHIST_`. -/
def nextBranchHistory (d : IMemData) (taken : Bool) : IMemData :=
  { d with
    isBranch := true
    branchLhr := d.branchLhr.set d.branchLhrIdx taken
    branchLhrIdx := if d.branchLhrIdx + 1 = MAX_LHIST_ then 0 else d.branchLhrIdx + 1 }

/-- The seven-argument constructor (stf_imem.hpp:89-106): one execution, counted
in the warm-up window when `in_warmup` and in the run length otherwise; a
load/store exactly when `mem_addr != 0`; both histories empty, and a first branch
outcome recorded when `is_branch`. -/
def make (is_16bit : Bool) (opcode : UInt32) (phys_pc : UInt64) (in_warmup : Bool)
    (is_branch : Bool) (br_taken : Bool) (mem_addr : UInt64) : IMemData :=
  let d : IMemData :=
    { is16bit := is_16bit, opcode := opcode, physPc := phys_pc
      warmup := if in_warmup then 1 else 0
      runlength := if in_warmup then 0 else 1
      count := 1
      isLoadstore := mem_addr != 0
      lastAddress := mem_addr
      recentStrides := List.replicate MAX_LHIST_ 0
      recentStridesIdx := 0
      isBranch := is_branch
      branchLhr := List.replicate MAX_LHIST_ false
      branchLhrIdx := 0 }
  if is_branch then d.nextBranchHistory br_taken else d

/-! ## Field lemmas -/

@[simp] theorem counter_count (d : IMemData) : d.counter .count = d.count := rfl
@[simp] theorem counter_warmup (d : IMemData) : d.counter .warmup = d.warmup := rfl
@[simp] theorem counter_runLength (d : IMemData) : d.counter .runLength = d.runlength := rfl

/-- INTERNAL: an increment raises its own counter by one and leaves the others.
SOURCE: stf_imem.hpp:169-179 -/
@[simp] theorem counter_bump (c c' : Counter) (d : IMemData) :
    (d.bump c).counter c' = d.counter c' + if c = c' then 1 else 0 := by
  cases c <;> cases c' <;> rfl

/-- INTERNAL: an increment touches no field but its counter.
SOURCE: stf_imem.hpp:169-179 -/
@[simp] theorem bump_fields (c : Counter) (d : IMemData) :
    (d.bump c).opcode = d.opcode ∧ (d.bump c).is16bit = d.is16bit ∧
      (d.bump c).physPc = d.physPc ∧ (d.bump c).isLoadstore = d.isLoadstore ∧
      (d.bump c).lastAddress = d.lastAddress ∧ (d.bump c).recentStrides = d.recentStrides ∧
      (d.bump c).recentStridesIdx = d.recentStridesIdx ∧ (d.bump c).isBranch = d.isBranch ∧
      (d.bump c).branchLhr = d.branchLhr ∧ (d.bump c).branchLhrIdx = d.branchLhrIdx := by
  cases c <;> simp [bump]

@[simp] theorem opcode_bump (c : Counter) (d : IMemData) : (d.bump c).opcode = d.opcode :=
  (bump_fields c d).1

/-- INTERNAL: recording a stride touches only the stride ring and the address.
SOURCE: stf_imem.hpp:194-198 -/
@[simp] theorem nextStride_fields (d : IMemData) (a : UInt64) :
    (d.nextStride a).opcode = d.opcode ∧ (d.nextStride a).is16bit = d.is16bit ∧
      (d.nextStride a).physPc = d.physPc ∧ (d.nextStride a).count = d.count ∧
      (d.nextStride a).warmup = d.warmup ∧ (d.nextStride a).runlength = d.runlength ∧
      (d.nextStride a).isLoadstore = d.isLoadstore ∧ (d.nextStride a).isBranch = d.isBranch ∧
      (d.nextStride a).branchLhr = d.branchLhr ∧
      (d.nextStride a).branchLhrIdx = d.branchLhrIdx := by
  simp [nextStride]

/-- INTERNAL: recording a branch outcome touches only the outcome ring and the
branch flag.
SOURCE: stf_imem.hpp:203-215 -/
@[simp] theorem nextBranchHistory_fields (d : IMemData) (b : Bool) :
    (d.nextBranchHistory b).opcode = d.opcode ∧ (d.nextBranchHistory b).is16bit = d.is16bit ∧
      (d.nextBranchHistory b).physPc = d.physPc ∧ (d.nextBranchHistory b).count = d.count ∧
      (d.nextBranchHistory b).warmup = d.warmup ∧
      (d.nextBranchHistory b).runlength = d.runlength ∧
      (d.nextBranchHistory b).isLoadstore = d.isLoadstore ∧
      (d.nextBranchHistory b).lastAddress = d.lastAddress ∧
      (d.nextBranchHistory b).recentStrides = d.recentStrides ∧
      (d.nextBranchHistory b).recentStridesIdx = d.recentStridesIdx := by
  simp [nextBranchHistory]

@[simp] theorem opcode_nextStride (d : IMemData) (a : UInt64) :
    (d.nextStride a).opcode = d.opcode := rfl

@[simp] theorem opcode_nextBranchHistory (d : IMemData) (b : Bool) :
    (d.nextBranchHistory b).opcode = d.opcode := rfl

@[simp] theorem counter_nextStride (c : Counter) (d : IMemData) (a : UInt64) :
    (d.nextStride a).counter c = d.counter c := by
  cases c <;> rfl

@[simp] theorem counter_nextBranchHistory (c : Counter) (d : IMemData) (b : Bool) :
    (d.nextBranchHistory b).counter c = d.counter c := by
  cases c <;> rfl

/-- INTERNAL: the constructor's counters: one execution, in exactly one of the
two windows.
SOURCE: stf_imem.hpp:95-97 -/
@[simp] theorem make_counters (is_16bit : Bool) (opcode : UInt32) (phys_pc : UInt64)
    (in_warmup is_branch br_taken : Bool) (mem_addr : UInt64) :
    (make is_16bit opcode phys_pc in_warmup is_branch br_taken mem_addr).count = 1 ∧
      (make is_16bit opcode phys_pc in_warmup is_branch br_taken mem_addr).warmup =
        (if in_warmup then 1 else 0) ∧
      (make is_16bit opcode phys_pc in_warmup is_branch br_taken mem_addr).runlength =
        (if in_warmup then 0 else 1) := by
  cases is_branch <;> simp [make, nextBranchHistory]

/-- INTERNAL: the constructor keeps the opcode, width and physical PC it is given.
SOURCE: stf_imem.hpp:92-94 -/
@[simp] theorem make_ident (is_16bit : Bool) (opcode : UInt32) (phys_pc : UInt64)
    (in_warmup is_branch br_taken : Bool) (mem_addr : UInt64) :
    (make is_16bit opcode phys_pc in_warmup is_branch br_taken mem_addr).opcode = opcode ∧
      (make is_16bit opcode phys_pc in_warmup is_branch br_taken mem_addr).is16bit = is_16bit ∧
      (make is_16bit opcode phys_pc in_warmup is_branch br_taken mem_addr).physPc = phys_pc := by
  cases is_branch <;> simp [make, nextBranchHistory]

end IMemData

end StfTools
