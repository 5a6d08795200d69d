import StfTools.Model.IMemMapVec

/-!
# The report: `IMemMapVec::print`

`print` (stf_imem.hpp:509-654) walks the tables from the last element of
`imem_mapvec_` to the first, each in ascending PC, and writes one line per entry,
cutting the sequence into blocks wherever a PC does not follow the previous
entry's PC and size. With `sort_output` it collects the blocks in a
`std::multimap` keyed by `SortedMapKey`, writes them again, heaviest first, to a
second file, and asserts at the end that the listed counts add up to
`inst_count_`.

A written line is modelled by the values it prints. Its padding, percentages and
disassembly are functions of these values, of the configuration and of the three
column widths, which `print` returns. With `track`, the footprint starts with the
`CONFIG` block and the column titles (`trackHeader`).
-/

set_option autoImplicit false

namespace StfTools

/-- A table entry, as an iterator of `IMemMap` dereferences it. -/
abbrev Entry := UInt64 × IMemData

/-- A line of the footprint file. -/
inductive ImemLine where
  /-- With `track`, the block `============ CONFIG  ============`, `original trace: `,
  `warmup: ` and `skip non-user: ` with the trace's name, `warmup_count` and
  `skip_non_user` (stf_imem.hpp:525-528). -/
  | config (traceFilename : String) (warmup : UInt64) (skipNonUser : Bool)
  /-- With `track`, the column titles `printField_` draws centred in their widths:
  `total%`, `warm%` and `run%` when percentages are shown, then `total`, `warm`,
  `runl`, `instpc`, `opcode` and `disasm` (stf_imem.hpp:530-540). -/
  | titles (showPercentage : Bool) (countWidth warmupWidth runLengthWidth instpcWidth : Nat)
  /-- `============ MAP n IEM:RV64 ============` (`RV32` when not RV64), before each
  table. -/
  | mapHeader (mapNum : Nat) (rv64 : Bool)
  /-- `...`, before a block other than the first when the output is not sorted. -/
  | gap
  /-- `printIMemItem_` (stf_imem.hpp:365-412): the counters, the PC, the physical
  PC and the opcode of one entry. -/
  | item (pc : UInt64) (count warmup runLength : Nat) (physPc : UInt64) (opcode : UInt32)
  deriving DecidableEq, Repr

/-- Whether a line is a table header. -/
def ImemLine.isMapHeader : ImemLine → Bool
  | .mapHeader _ _ => true
  | _ => false

/-- Whether a line is a header: the CONFIG block, the column titles or a table
header, rather than a `...` line or an entry's line. -/
def ImemLine.isHeader : ImemLine → Bool
  | .config .. | .titles .. | .mapHeader .. => true
  | .gap | .item .. => false

/-- The line `printIMemItem_` writes for an entry. -/
def itemLine (e : Entry) : ImemLine :=
  .item e.1 e.2.count e.2.warmup e.2.runlength e.2.physPc e.2.opcode

/-- The local history `printSortedIMemItem_` appends (stf_imem.hpp:442-460). -/
inductive LocalHistory where
  /-- `LStrides={s0,s1,...}` -/
  | strides (recent : List Int)
  /-- `LHR=b0b1...` -/
  | lhr (bits : List Bool)
  deriving DecidableEq, Repr

/-- The history of an entry: its strides for a load or store, else its outcomes
for a branch, else none. -/
def localHistory (d : IMemData) : Option LocalHistory :=
  if d.isLoadstore then some (.strides d.recentStrides)
  else if d.isBranch then some (.lhr d.branchLhr)
  else none

/-- A line of the sorted file. -/
inductive SortedLine where
  /-- `------- pct% - count inst, n addr`, before each block. -/
  | blockHeader (count : Nat) (addrs : Nat)
  /-- `printSortedIMemItem_` (stf_imem.hpp:414-463). -/
  | item (pc : UInt64) (count cumulative : Nat) (physPc : UInt64) (opcode : UInt32)
      (history : Option LocalHistory)
  deriving DecidableEq, Repr

/-- The line `printSortedIMemItem_` writes for an entry, at cumulative count
`cumulative_count`. -/
def sortedItemLine (config : STFImemConfig) (e : Entry) (cumulative_count : Nat) : SortedLine :=
  .item e.1 e.2.count cumulative_count e.2.physPc e.2.opcode
    (if config.localHistory then localHistory e.2 else none)

/-! ## `SortedMapKey` and the multimap -/

/-- `IMemMapVec::SortedMapKey` (stf_imem.hpp:294-317): a block's total count and
the PC of its first entry. -/
structure SortedMapKey where
  count : Nat
  pc : UInt64
  deriving DecidableEq, Repr

/-- `SortedMapKey::operator<` (stf_imem.hpp:305-307): the smaller count first, and
for equal counts the larger PC first. -/
def SortedMapKey.lt (a b : SortedMapKey) : Bool :=
  a.count < b.count || (a.count == b.count && a.pc > b.pc)

/-- `std::multimap::emplace` on a multimap held in key order: the new element goes
after every element whose key is not greater, at the end of its key's equal
range. -/
def emplace {β : Type} (k : SortedMapKey) (v : β) :
    List (SortedMapKey × β) → List (SortedMapKey × β)
  | [] => [(k, v)]
  | e :: rest => if k.lt e.1 then (k, v) :: e :: rest else e :: emplace k v rest

/-! ## The loop over the tables -/

/-- The locals of `print` that its loop updates (stf_imem.hpp:510-551). -/
structure PrintState where
  prevPc : UInt64
  prevSize : UInt32
  first : Bool
  currentBlock : List Entry
  blockCount : Nat
  sortedMap : List (SortedMapKey × List Entry)
  lines : List ImemLine

/-- The locals before the loop. -/
def PrintState.init : PrintState :=
  { prevPc := 0, prevSize := 0, first := true, currentBlock := [], blockCount := 0,
    sortedMap := [], lines := [] }

/-- `sorted_map.emplace(SortedMapKey(block_count, current_block.front()->first),
current_block)` (stf_imem.hpp:576-578, 599-603); the block is never empty there, and
the model keys an empty one at PC 0. -/
def PrintState.flush (st : PrintState) : List (SortedMapKey × List Entry) :=
  emplace ⟨st.blockCount, (st.currentBlock.head?.map Prod.fst).getD 0⟩ st.currentBlock st.sortedMap

/-- The body of the inner loop of `print` (stf_imem.hpp:563-594) for the entry
`cur`: close the current block when `cur` does not follow the previous entry,
add `cur` to the block, write its line unless only the sorted file goes to the
standard output, and remember its PC and size. -/
def printEntry (config : STFImemConfig) (isStdout : Bool) (st : PrintState) (cur : Entry) :
    PrintState :=
  let inst_pc := cur.1
  let st :=
    if st.first || st.prevPc + st.prevSize.toUInt64 != inst_pc then
      if st.first then { st with first := false }
      else
        let st := if !config.sortOutput then { st with lines := st.lines ++ [.gap] } else st
        if config.sortOutput then
          { st with sortedMap := st.flush, currentBlock := [], blockCount := 0 }
        else st
    else st
  let st :=
    if config.sortOutput then
      { st with blockCount := st.blockCount + cur.2.count, currentBlock := st.currentBlock ++ [cur] }
    else st
  let st := if !isStdout || !config.sortOutput then { st with lines := st.lines ++ [itemLine cur] }
    else st
  { st with prevPc := inst_pc, prevSize := cur.2.getOpcodeSize }

/-- The outer loop of `print` (stf_imem.hpp:553-597) over the tables it is given,
numbering them from `mapNum`. -/
def printMaps (config : STFImemConfig) (isStdout rv64 : Bool) :
    List IMemMap → Nat → PrintState → PrintState
  | [], _, st => st
  | m :: rest, mapNum, st =>
    printMaps config isStdout rv64 rest (mapNum + 1)
      (m.entries.foldl (printEntry config isStdout)
        { st with lines := st.lines ++ [.mapHeader mapNum rv64] })

/-- The entries in the order `print` visits them: the tables from the last element
of `imem_mapvec_` to the first, each in ascending PC. -/
def visitOrder (s : IMemMapVec) : List Entry :=
  (s.imemMapvec.reverse.map IMemMap.entries).flatten

/-- The locals of `print` after its loop over `reverse(imem_mapvec_)`. -/
def printLoop (config : STFImemConfig) (isStdout : Bool) (s : IMemMapVec) : PrintState :=
  printMaps config isStdout s.isRv64 s.imemMapvec.reverse 1 PrintState.init

/-- `sorted_map` after the final flush of the last block (stf_imem.hpp:599-603). -/
def sortedMapOf (config : STFImemConfig) (st : PrintState) : List (SortedMapKey × List Entry) :=
  if config.sortOutput && !st.currentBlock.isEmpty then st.flush else st.sortedMap

/-- The blocks in the order the ranked loop visits them: `sorted_map` from
`rbegin()` to `rend()`. -/
def rankedBlocks (config : STFImemConfig) (isStdout : Bool) (s : IMemMapVec) :
    List (SortedMapKey × List Entry) :=
  (sortedMapOf config (printLoop config isStdout s)).reverse

/-! ## The ranked loop -/

/-- The loop over one block's entries (stf_imem.hpp:641-644), from cumulative count
`cumulative_count`: the final cumulative count and the lines written. -/
def printBlock (config : STFImemConfig) : Nat → List Entry → Nat × List SortedLine
  | cumulative_count, [] => (cumulative_count, [])
  | cumulative_count, e :: rest =>
    let cumulative_count := cumulative_count + e.2.count
    let r := printBlock config cumulative_count rest
    (r.1, sortedItemLine config e cumulative_count :: r.2)

/-- The ranked loop (stf_imem.hpp:633-645) over the blocks in the order given:
a header per block, then its entries. -/
def rankedLoop (config : STFImemConfig) :
    List (SortedMapKey × List Entry) → Nat → Nat × List SortedLine
  | [], cumulative_count => (cumulative_count, [])
  | (k, b) :: rest, cumulative_count =>
    let r := printBlock config cumulative_count b
    let r' := rankedLoop config rest r.1
    (r'.1, .blockHeader k.count b.length :: r.2 ++ r'.2)

/-! ## `print` -/

/-- The number of decimal digits of `n` (`numDecimalDigits`, 1 for 0). -/
def numDecimalDigits (n : Nat) : Nat :=
  (Nat.toDigits 10 n).length

/-- The name of the sorted file (stf_imem.hpp:609-622): `-` when the footprint
goes to the standard output, else the output name with a final `.imem` replaced
by `.s_imem`, or with `.s_imem` appended. -/
def sortedFilename (output_filename : String) (isStdout : Bool) : String :=
  if isStdout then "-"
  else if output_filename.endsWith ".imem" then output_filename.dropRight 5 ++ ".s_imem"
  else output_filename ++ ".s_imem"

/-- The sorted file: its name, the totals of its head, its lines, and the
cumulative count after the ranked loop. -/
structure SortedReport where
  filename : String
  instCount : Nat
  maxCount : Nat
  lines : List SortedLine
  cumulativeCount : Nat
  deriving DecidableEq, Repr

/-- What `print` does for the sorted file. -/
inductive SortedOutput where
  /-- `sort_output` is off. -/
  | off
  /-- `Warning: generated imem was empty! Skipping generation of sorted imem.` -/
  | emptyWarning
  /-- The file is written and the final `stf_assert` holds. -/
  | written (r : SortedReport)
  /-- The file is written and the final `stf_assert` fires: `Not all blocks were
  included in sorted output!` -/
  | assertFailed (r : SortedReport)
  deriving DecidableEq, Repr

/-- Whether `print` stopped at its final `stf_assert`. -/
def SortedOutput.assertFired : SortedOutput → Bool
  | .assertFailed _ => true
  | _ => false

/-- Everything `print` produces. -/
structure PrintOutput where
  countFieldWidth : Nat
  warmupFieldWidth : Nat
  runLengthFieldWidth : Nat
  imem : List ImemLine
  sorted : SortedOutput
  deriving DecidableEq, Repr

/-- `TABLE_FIELD_WIDTH_` (stf_imem.hpp:225). -/
def TABLE_FIELD_WIDTH_ : Nat := 8

/-- The width of the `instpc` title without physical PCs (stf_imem.hpp:514). -/
def NOPHYSPC_WIDTH : Nat := 16

/-- The width of the `instpc` title with physical PCs (stf_imem.hpp:515). -/
def PHYSPC_WIDTH : Nat := NOPHYSPC_WIDTH + 17

/-- What `print` writes to the footprint before the tables (stf_imem.hpp:524-541):
with `track`, the CONFIG block and the column titles at the field widths it has
computed; otherwise nothing. -/
def trackHeader (config : STFImemConfig) (count_field_width warmup_field_width
    run_length_field_width : Nat) : List ImemLine :=
  if config.track then
    [.config config.traceFilename config.warmupCount config.skipNonUser,
      .titles config.showPercentage count_field_width warmup_field_width run_length_field_width
        (if config.showPhyspc then PHYSPC_WIDTH else NOPHYSPC_WIDTH)]
  else []

/-- `IMemMapVec::print` (stf_imem.hpp:509-654), `isStdout` telling whether the
footprint goes to the standard output. -/
def IMemMapVec.print (config : STFImemConfig) (isStdout : Bool) (s : IMemMapVec) : PrintOutput :=
  let count_field_width := max TABLE_FIELD_WIDTH_ (numDecimalDigits s.maxCount)
  let warmup_field_width := max TABLE_FIELD_WIDTH_ (numDecimalDigits s.maxWarmup)
  let run_length_field_width := max TABLE_FIELD_WIDTH_ (numDecimalDigits s.maxRunLength)
  let st := printLoop config isStdout s
  let sorted :=
    if config.sortOutput then
      let sorted_map := sortedMapOf config st
      if sorted_map.isEmpty then .emptyWarning
      else
        let r := rankedLoop config sorted_map.reverse 0
        let report : SortedReport :=
          { filename := sortedFilename config.outputFilename isStdout, instCount := s.instCount,
            maxCount := s.maxCount, lines := r.2, cumulativeCount := r.1 }
        if r.1 = s.instCount then .written report else .assertFailed report
    else .off
  { countFieldWidth := count_field_width, warmupFieldWidth := warmup_field_width,
    runLengthFieldWidth := run_length_field_width,
    imem := trackHeader config count_field_width warmup_field_width run_length_field_width ++
      st.lines,
    sorted := sorted }

end StfTools
