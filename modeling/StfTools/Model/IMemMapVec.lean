import StfTools.Model.IMemMap

/-!
# The profiler: `IMemMapVec`, `IMem`, `JavaIMem` and `processTrace_`

`IMemMapVec` (stf_imem.hpp:223-655) owns the collection of footprint tables
`imem_mapvec_`, the cursor `itv_` naming the active table, the admitted-instruction
counter and the three counter maxima. `IMem::count_impl` (stf_imem.hpp:736-792)
keeps one table and tracks local histories; `JavaIMem::count_impl`
(stf_imem.hpp:802-862) disambiguates a PC carrying several opcodes over several
tables. `IMemMapVecIntf::processTrace_` (stf_imem.hpp:664-707) filters the region
iterator's instructions and feeds the admitted ones to either.

The cursor `itv_` is an index into `imem_mapvec_`; inserting a table at the front
(stf_imem.hpp:853) makes the cursor 0, as the returned iterator does. A
`count_impl` returns the new state together with the lines it writes to
`std::cerr`.
-/

set_option autoImplicit false

namespace StfTools

/-- The members of `IMemMapVec` the profiler updates. -/
structure IMemMapVec where
  imemMapvec : List IMemMap
  itv : Nat
  instCount : Nat
  maxCount : Nat
  maxWarmup : Nat
  maxRunLength : Nat
  isRv64 : Bool

namespace IMemMapVec

/-- The constructor (stf_imem.hpp:491-495): one empty table, the cursor on it,
every counter 0. -/
def init : IMemMapVec :=
  { imemMapvec := [IMemMap.empty], itv := 0, instCount := 0, maxCount := 0, maxWarmup := 0,
    maxRunLength := 0, isRv64 := false }

/-- The maximum kept for one counter. -/
def maxOf : Counter → IMemMapVec → Nat
  | .count, s => s.maxCount
  | .warmup, s => s.maxWarmup
  | .runLength, s => s.maxRunLength

/-- `max_X = std::max(max_X, v)` for one counter. -/
def raiseMax : Counter → IMemMapVec → Nat → IMemMapVec
  | .count, s, v => { s with maxCount := max s.maxCount v }
  | .warmup, s, v => { s with maxWarmup := max s.maxWarmup v }
  | .runLength, s, v => { s with maxRunLength := max s.maxRunLength v }

/-- The shared body of `incCount_`, `incWarmup_` and `incRunLength_`
(stf_imem.hpp:467-480): increment the entry's counter, then raise its maximum to
the new value. -/
def incCounter_ (c : Counter) (s : IMemMapVec) (data : IMemData) : IMemMapVec × IMemData :=
  let data := data.bump c
  (s.raiseMax c (data.counter c), data)

/-- `incCount_` (stf_imem.hpp:467-470). -/
def incCount_ (s : IMemMapVec) (data : IMemData) : IMemMapVec × IMemData :=
  incCounter_ .count s data

/-- `incWarmup_` (stf_imem.hpp:472-475). -/
def incWarmup_ (s : IMemMapVec) (data : IMemData) : IMemMapVec × IMemData :=
  incCounter_ .warmup s data

/-- `incRunLength_` (stf_imem.hpp:477-480). -/
def incRunLength_ (s : IMemMapVec) (data : IMemData) : IMemMapVec × IMemData :=
  incCounter_ .runLength s data

/-- The increments every match path performs on the entry it found
(stf_imem.hpp:769-775, 809-815, 841-847): `incCount_`, then `incWarmup_` inside
the warm-up window, else `incRunLength_` inside the run-length window. -/
def countHit (config : STFImemConfig) (s : IMemMapVec) (data : IMemData) :
    IMemMapVec × IMemData :=
  let r := s.incCount_ data
  if s.instCount < config.warmupCount.toNat then r.1.incWarmup_ r.2
  else if s.instCount < config.runlengthCount.toNat then r.1.incRunLength_ r.2
  else r

/-- The table the cursor designates (`*itv_`). -/
def active (s : IMemMapVec) : IMemMap := s.imemMapvec.getD s.itv IMemMap.empty

/-- Apply `f` to table `i`. -/
def modifyTable (s : IMemMapVec) (i : Nat) (f : IMemMap → IMemMap) : IMemMapVec :=
  { s with imemMapvec := s.imemMapvec.modify f i }

/-! ## Field lemmas -/

@[simp] theorem raiseMax_frame (c : Counter) (s : IMemMapVec) (v : Nat) :
    (s.raiseMax c v).imemMapvec = s.imemMapvec ∧ (s.raiseMax c v).itv = s.itv ∧
      (s.raiseMax c v).instCount = s.instCount ∧ (s.raiseMax c v).isRv64 = s.isRv64 := by
  cases c <;> simp [raiseMax]

/-- INTERNAL: `max_X = std::max(max_X, v)` raises one maximum and no other.
SOURCE: stf_imem.hpp:469-479 -/
@[simp] theorem maxOf_raiseMax (c c' : Counter) (s : IMemMapVec) (v : Nat) :
    (s.raiseMax c v).maxOf c' = if c = c' then max (s.maxOf c) v else s.maxOf c' := by
  cases c <;> cases c' <;> rfl

@[simp] theorem countHit_frame (config : STFImemConfig) (s : IMemMapVec) (d : IMemData) :
    (s.countHit config d).1.imemMapvec = s.imemMapvec ∧ (s.countHit config d).1.itv = s.itv ∧
      (s.countHit config d).1.instCount = s.instCount ∧ (s.countHit config d).1.isRv64 = s.isRv64 := by
  unfold countHit; split_ifs <;> simp [incCount_, incWarmup_, incRunLength_, incCounter_]

/-- INTERNAL: the entry after the increments of a match path: one more execution,
counted in the warm-up window, else in the run length inside its window.
SOURCE: stf_imem.hpp:769-775 -/
theorem countHit_snd (config : STFImemConfig) (s : IMemMapVec) (d : IMemData) :
    (s.countHit config d).2 =
      if s.instCount < config.warmupCount.toNat then (d.bump .count).bump .warmup
      else if s.instCount < config.runlengthCount.toNat then (d.bump .count).bump .runLength
      else d.bump .count := by
  unfold countHit; split_ifs <;> rfl

@[simp] theorem opcode_countHit (config : STFImemConfig) (s : IMemMapVec) (d : IMemData) :
    (s.countHit config d).2.opcode = d.opcode := by
  rw [countHit_snd]; split_ifs <;> simp

@[simp] theorem count_countHit (config : STFImemConfig) (s : IMemMapVec) (d : IMemData) :
    (s.countHit config d).2.count = d.count + 1 := by
  rw [countHit_snd]; split_ifs <;> simp [IMemData.bump]

@[simp] theorem modifyTable_frame (s : IMemMapVec) (i : Nat) (f : IMemMap → IMemMap) :
    (s.modifyTable i f).imemMapvec = s.imemMapvec.modify f i ∧ (s.modifyTable i f).itv = s.itv ∧
      (s.modifyTable i f).instCount = s.instCount ∧
      (∀ c, (s.modifyTable i f).maxOf c = s.maxOf c) := by
  refine ⟨rfl, rfl, rfl, fun c => ?_⟩
  cases c <;> rfl

/-- INTERNAL: `++inst_count_` leaves the maxima.
SOURCE: stf_imem.hpp:699-701 -/
@[simp] theorem maxOf_setInstCount (s : IMemMapVec) (n : Nat) (c : Counter) :
    ({ s with instCount := n } : IMemMapVec).maxOf c = s.maxOf c := by
  cases c <;> rfl

end IMemMapVec

/-! ## Entry creation -/

/-- `createIMem_(key, inst, physpc, in_warmup)` (stf_imem.hpp:344-349). -/
def createIMem_ (key : UInt64) (inst : STFInst) (physpc : UInt64) (in_warmup : Bool) :
    UInt64 × IMemData :=
  (key, IMemData.make inst.isOpcode16 inst.opcode physpc in_warmup false false 0)

/-- `createIMem_(key, inst, physpc, in_warmup, addr)` (stf_imem.hpp:350-356). -/
def createIMemAddr_ (key : UInt64) (inst : STFInst) (physpc : UInt64) (in_warmup : Bool)
    (addr : UInt64) : UInt64 × IMemData :=
  (key, IMemData.make inst.isOpcode16 inst.opcode physpc in_warmup false false addr)

/-- `createIMem_(key, inst, physpc, in_warmup, is_branch, br_taken)`
(stf_imem.hpp:357-364). -/
def createIMemBranch_ (key : UInt64) (inst : STFInst) (physpc : UInt64) (in_warmup : Bool)
    (is_branch br_taken : Bool) : UInt64 × IMemData :=
  (key, IMemData.make inst.isOpcode16 inst.opcode physpc in_warmup is_branch br_taken 0)

/-- INTERNAL: the entry the four-argument `createIMem_` builds.
SOURCE: stf_imem.hpp:344-349 -/
@[simp] theorem createIMem_fields (key : UInt64) (inst : STFInst) (physpc : UInt64) (w : Bool) :
    (createIMem_ key inst physpc w).1 = key ∧ (createIMem_ key inst physpc w).2.opcode = inst.opcode ∧
      (createIMem_ key inst physpc w).2.count = 1 := by
  simp [createIMem_]

/-! ## `IMem::count_impl` -/

/-- The address `IMem::count_impl` attributes to an instruction: that of its last
memory read for a load, of its last memory write for a store, else 0
(stf_imem.hpp:743-752). -/
def memAddr (inst : STFInst) : UInt64 :=
  if inst.isLoad then lastAddress inst.memoryReads
  else if inst.isStore then lastAddress inst.memoryWrites
  else 0

/-- The history update of the `IMem` match path (stf_imem.hpp:776-780): a stride
for a load or store, else an outcome for a taken branch. -/
def historyStep (inst : STFInst) (data : IMemData) : IMemData :=
  if inst.isLoad || inst.isStore then data.nextStride (memAddr inst)
  else if inst.isTakenBranch then data.nextBranchHistory inst.isTakenBranch
  else data

/-- The entry `IMem::count_impl` creates for a PC it has not seen
(stf_imem.hpp:757-766). -/
def IMem.newEntry (inst : STFInst) (in_warmup : Bool) : UInt64 × IMemData :=
  if inst.isLoad || inst.isStore then createIMemAddr_ inst.pc inst 0 in_warmup (memAddr inst)
  else if inst.isTakenBranch then
    createIMemBranch_ inst.pc inst 0 in_warmup inst.isTakenBranch inst.isTakenBranch
  else createIMem_ inst.pc inst 0 in_warmup

/-- `IMem::count_impl` (stf_imem.hpp:736-792): create the entry of a new PC in the
active table, count a PC seen with the same opcode, and only warn on a PC seen
with another opcode. -/
def IMem.countImpl (config : STFImemConfig) (inst : STFInst) (s : IMemMapVec) :
    IMemMapVec × List Diag :=
  let key := inst.pc
  let in_warmup := decide (s.instCount < config.warmupCount.toNat)
  match s.active.find key with
  | none =>
    let e := IMem.newEntry inst in_warmup
    (s.modifyTable s.itv (·.insert e.1 e.2), [])
  | some cur =>
    if cur.opcodeMatch inst.opcode then
      let r := s.countHit config cur
      (r.1.modifyTable s.itv (·.modify key fun _ => historyStep inst r.2), [])
    else (s, [.twoOpcodes key cur.opcode inst.opcode])

/-! ## `JavaIMem::count_impl` -/

/-- The `while` loop of `JavaIMem::count_impl` (stf_imem.hpp:819-838) over the
tables from index `i` on: the first table holding `key` with `opcode`, with its
entry, and the last table without `key` seen so far (`itt`). -/
def searchMaps (key : UInt64) (opcode : UInt32) :
    List IMemMap → Nat → Option Nat → Option (Nat × IMemData) × Option Nat
  | [], _, itt => (none, itt)
  | m :: rest, i, itt =>
    match m.find key with
    | some cur => if cur.opcodeMatch opcode then (some (i, cur), itt)
                  else searchMaps key opcode rest (i + 1) itt
    | none => searchMaps key opcode rest (i + 1) (some i)

/-- The branch of `JavaIMem::count_impl` taken when the active table does not hold
the PC with this opcode (stf_imem.hpp:817-861): count the entry another table
holds and make that table active, or insert a new entry into a table without the
PC, creating a table at the front when every table holds it. -/
def JavaIMem.slowPath (config : STFImemConfig) (inst : STFInst) (s : IMemMapVec) :
    IMemMapVec :=
  let key := inst.pc
  let in_warmup := decide (s.instCount < config.warmupCount.toNat)
  match searchMaps key inst.opcode s.imemMapvec 0 none with
  | (some (i, cur), _) =>
    let r := s.countHit config cur
    { r.1.modifyTable i (·.modify key fun _ => r.2) with itv := i }
  | (none, itt) =>
    let s := match itt with
      | none => { s with imemMapvec := IMemMap.empty :: s.imemMapvec, itv := 0 }
      | some j => if (s.active.find key).isSome then { s with itv := j } else s
    let e := createIMem_ key inst 0 in_warmup
    s.modifyTable s.itv (·.insert e.1 e.2)

/-- `JavaIMem::count_impl` (stf_imem.hpp:802-862). It writes no diagnostic. -/
def JavaIMem.countImpl (config : STFImemConfig) (inst : STFInst) (s : IMemMapVec) :
    IMemMapVec × List Diag :=
  match s.active.find inst.pc with
  | some cur =>
    if cur.opcodeMatch inst.opcode then
      let r := s.countHit config cur
      (r.1.modifyTable s.itv (·.modify inst.pc fun _ => r.2), [])
    else (JavaIMem.slowPath config inst s, [])
  | none => (JavaIMem.slowPath config inst s, [])

/-! ## `processTrace_` -/

/-- The filters of `processTrace_` (stf_imem.hpp:684-697): an instruction reaches
`count_impl` when each thread filter is 0 or matches, and it does not fault. -/
def admitted (config : STFImemConfig) (inst : STFInst) : Bool :=
  (config.gHwTid == 0 || config.gHwTid == inst.hwtid) &&
    (config.gPid == 0 || config.gPid == inst.pid) &&
    (config.gTid == 0 || config.gTid == inst.tid) && !inst.isFault

/-- One admitted instruction: `count_impl` through `impl`, then `++inst_count_`
(stf_imem.hpp:699-701). The lines `impl` writes follow those already written. -/
def countStep (impl : STFImemConfig → STFInst → IMemMapVec → IMemMapVec × List Diag)
    (config : STFImemConfig) (inst : STFInst) (r : IMemMapVec × List Diag) :
    IMemMapVec × List Diag :=
  let out := impl config inst r.1
  ({ out.1 with instCount := out.1.instCount + 1 }, r.2 ++ out.2)

/-- The loop of `IMemMapVecIntf::processTrace_` (stf_imem.hpp:673-706) over the
region iterator's instructions, for a `count_impl` given as `impl`: report an
invalid instruction, skip a filtered or faulting one, count the others, and stop
once `inst_count_` reaches `keep_count`. -/
def processLoop (impl : STFImemConfig → STFInst → IMemMapVec → IMemMapVec × List Diag)
    (config : STFImemConfig) : List STFInst → IMemMapVec × List Diag → IMemMapVec × List Diag
  | [], r => r
  | inst :: rest, (s, log) =>
    let log := if inst.valid then log else log ++ [.invalidInstruction inst.index inst.opcode inst.pc]
    if config.gHwTid ≠ 0 ∧ config.gHwTid ≠ inst.hwtid then processLoop impl config rest (s, log)
    else if config.gPid ≠ 0 ∧ config.gPid ≠ inst.pid then processLoop impl config rest (s, log)
    else if config.gTid ≠ 0 ∧ config.gTid ≠ inst.tid then processLoop impl config rest (s, log)
    else if inst.isFault then processLoop impl config rest (s, log)
    else
      let r := countStep impl config inst (s, log)
      if r.1.instCount ≥ config.keepCount.toNat then r
      else processLoop impl config rest r

/-- `IMemMapVecIntf::processTrace_` (stf_imem.hpp:664-707): note whether the
trace's initial instruction encoding is RV64 (`rv64`), then run the loop. The
reader's other header fields serve only the disassembler. -/
def processTrace (impl : STFImemConfig → STFInst → IMemMapVec → IMemMapVec × List Diag)
    (config : STFImemConfig) (rv64 : Bool) (insts : List STFInst) (r : IMemMapVec × List Diag) :
    IMemMapVec × List Diag :=
  processLoop impl config insts ({ r.1 with isRv64 := rv64 }, r.2)

/-- The admitted instructions fed one after another to `countStep`: the run
`processTrace_` performs on them when no cap stops it. -/
def countRun (impl : STFImemConfig → STFInst → IMemMapVec → IMemMapVec × List Diag)
    (config : STFImemConfig) : List STFInst → IMemMapVec × List Diag → IMemMapVec × List Diag
  | [], r => r
  | inst :: rest, r => countRun impl config rest (countStep impl config inst r)

end StfTools
