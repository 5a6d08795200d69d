import StfTools.Analysis.IMemRuns
import StfTools.Analysis.Report

/-!
# `JavaIMem` and `IMem` agree when no PC changes its opcode

The two profilers share the update skeleton: they create an entry for a new PC
and count a PC seen again with the same opcode, with the same counters and the
same maxima. They differ in what else they do: `IMem` warns on a PC seen with
another opcode and keeps local histories, `JavaIMem` opens more tables. On an
instruction sequence where no PC carries two opcodes neither difference in
control flow can arise, and the two runs go in lockstep (`Lockstep.step`): one
table each, with the same keys, and at every key the same opcode, size, physical
PC and counters.

`print` reads nothing else of an entry when `local_history` is off: it gives the
same output for a state and for the state with every entry reduced to these
fields (`print_stripState`). So the two profilers print the same report
(`javaIMem_agrees_with_imem`).
-/

set_option autoImplicit false

namespace StfTools.Analysis

open StfTools IMemMapVec

/-! ## What `print` reads of an entry -/

/-- The fields of an entry that `print` reads when local histories are off:
`getOpcode`, `getOpcodeSize`, `getPhysPC`, `getCount`, `getWarmup` and
`getRunLength`. -/
structure EntryView where
  opcode : UInt32
  opcodeSize : UInt32
  physPc : UInt64
  count : Nat
  warmup : Nat
  runLength : Nat
  deriving DecidableEq, Repr

/-- The view of an entry. -/
def EntryView.of (d : IMemData) : EntryView :=
  ⟨d.opcode, d.getOpcodeSize, d.physPc, d.count, d.warmup, d.runlength⟩

/-- The entry with this view and empty histories. -/
def EntryView.toData (v : EntryView) : IMemData :=
  { is16bit := v.opcodeSize == 2, opcode := v.opcode, physPc := v.physPc, warmup := v.warmup,
    runlength := v.runLength, count := v.count, isLoadstore := false, lastAddress := 0,
    recentStrides := [], recentStridesIdx := 0, isBranch := false, branchLhr := [],
    branchLhrIdx := 0 }

/-- The keys of a table with the views of their entries, in key order. -/
def tableView (m : IMemMap) : List (UInt64 × EntryView) :=
  m.entries.map (Prod.map id EntryView.of)

/-- An entry reduced to its view. -/
def stripEntry (e : Entry) : Entry :=
  (e.1, (EntryView.of e.2).toData)

/-- A table with every entry reduced to its view. -/
def stripTable (m : IMemMap) : IMemMap :=
  ⟨m.entries.map stripEntry, by simpa [List.map_map, Function.comp_def, stripEntry] using m.sorted⟩

/-- The state with every entry of every table reduced to its view. -/
def stripState (s : IMemMapVec) : IMemMapVec :=
  { s with imemMapvec := s.imemMapvec.map stripTable }

/-- The locals of `print` with every entry they hold reduced to its view. -/
def stripPrintState (st : PrintState) : PrintState :=
  { st with
    currentBlock := st.currentBlock.map stripEntry
    sortedMap := st.sortedMap.map (Prod.map id (List.map stripEntry)) }

/-- INTERNAL: the size class survives the reduction.
SOURCE: stf_imem.hpp:220 -/
@[simp] theorem getOpcodeSize_toData (d : IMemData) :
    (EntryView.of d).toData.getOpcodeSize = d.getOpcodeSize := by
  unfold EntryView.toData EntryView.of IMemData.getOpcodeSize
  cases d.is16bit
  · show (if ((4 : UInt32) == 2) = true then 2 else 4 : UInt32) = 4; decide
  · show (if ((2 : UInt32) == 2) = true then 2 else 4 : UInt32) = 2; decide

/-- INTERNAL: the reduction keeps the key and every field `print` reads.
SOURCE: stf_imem.hpp:365-412 -/
@[simp] theorem stripEntry_fields (e : Entry) :
    (stripEntry e).1 = e.1 ∧ (stripEntry e).2.count = e.2.count ∧
      (stripEntry e).2.getOpcodeSize = e.2.getOpcodeSize ∧ itemLine (stripEntry e) = itemLine e :=
  ⟨rfl, rfl, getOpcodeSize_toData e.2, rfl⟩

/-- INTERNAL: `emplace` reads only the key, so it commutes with a change of values.
SOURCE: stf_imem.hpp:576-578 -/
theorem emplace_map {β γ : Type} (g : β → γ) (k : SortedMapKey) (v : β) :
    ∀ M : List (SortedMapKey × β),
      (emplace k v M).map (Prod.map id g) = emplace k (g v) (M.map (Prod.map id g))
  | [] => rfl
  | e :: rest => by
    unfold emplace
    split <;> simp [emplace_map g k v rest, *]

/-- INTERNAL: the reduction commutes with closing a block.
SOURCE: stf_imem.hpp:576-578 -/
theorem flush_stripPrintState (st : PrintState) :
    (stripPrintState st).flush = st.flush.map (Prod.map id (List.map stripEntry)) := by
  simp only [PrintState.flush, stripPrintState, emplace_map, List.head?_map, Option.map_map]
  rfl

/-- INTERNAL: one iteration of the loop commutes with the reduction.
SOURCE: stf_imem.hpp:563-594 -/
theorem printEntry_strip (config : STFImemConfig) (isStdout : Bool) (st : PrintState)
    (cur : Entry) :
    printEntry config isStdout (stripPrintState st) (stripEntry cur) =
      stripPrintState (printEntry config isStdout st cur) := by
  cases h : config.sortOutput
  · rw [printEntry_unsorted h, printEntry_unsorted h]
    simp [stripPrintState]
  · rw [printEntry_sorted h, printEntry_sorted h]
    simp only [flush_stripPrintState]
    simp only [stripEntry_fields, stripPrintState]
    split_ifs <;> simp

/-- INTERNAL: the loop over the tables commutes with the reduction.
SOURCE: stf_imem.hpp:553-597 -/
theorem printMaps_strip (config : STFImemConfig) (isStdout rv64 : Bool) :
    ∀ (ts : List IMemMap) (n : Nat) (st : PrintState),
      printMaps config isStdout rv64 (ts.map stripTable) n (stripPrintState st) =
        stripPrintState (printMaps config isStdout rv64 ts n st)
  | [], _, _ => rfl
  | m :: ts, n, st => by
    rw [List.map_cons, printMaps, printMaps, ← printMaps_strip config isStdout rv64 ts]
    congr 1
    simp only [stripTable, List.foldl_map]
    exact List.foldl_hom stripPrintState (printEntry config isStdout)
      (fun acc x => printEntry config isStdout acc (stripEntry x)) m.entries
      { st with lines := st.lines ++ [.mapHeader n rv64] }
      fun st cur => printEntry_strip config isStdout st cur

/-- INTERNAL: one block of the ranked loop reads only the views.
SOURCE: stf_imem.hpp:641-644 -/
theorem printBlock_strip {config : STFImemConfig} (h : config.localHistory = false) :
    ∀ (c : Nat) (b : List Entry), printBlock config c (b.map stripEntry) = printBlock config c b
  | _, [] => rfl
  | c, e :: rest => by
    simp [printBlock, printBlock_strip h _ rest, sortedItemLine, h, stripEntry, EntryView.toData,
      EntryView.of]

/-- INTERNAL: the ranked loop reads only the views.
SOURCE: stf_imem.hpp:633-645 -/
theorem rankedLoop_strip {config : STFImemConfig} (h : config.localHistory = false) :
    ∀ (B : List (SortedMapKey × List Entry)) (c : Nat),
      rankedLoop config (B.map (Prod.map id (List.map stripEntry))) c = rankedLoop config B c
  | [], _ => rfl
  | (k, b) :: rest, c => by
    simp [rankedLoop, printBlock_strip h, rankedLoop_strip h rest]

/-- INTERNAL: with local histories off, `print` gives the same output for a state
and for the state with every entry reduced to its view.
SOURCE: stf_imem.hpp:509-654 -/
theorem print_stripState {config : STFImemConfig} (h : config.localHistory = false)
    (isStdout : Bool) (s : IMemMapVec) :
    (stripState s).print config isStdout = s.print config isStdout := by
  have hloop : printLoop config isStdout (stripState s) =
      stripPrintState (printLoop config isStdout s) := by
    rw [printLoop, printLoop, ← printMaps_strip]
    simp [stripState, List.map_reverse]
    rfl
  have hsorted : sortedMapOf config (stripPrintState (printLoop config isStdout s)) =
      (sortedMapOf config (printLoop config isStdout s)).map (Prod.map id (List.map stripEntry)) := by
    have he : (stripPrintState (printLoop config isStdout s)).currentBlock.isEmpty =
        (printLoop config isStdout s).currentBlock.isEmpty := by
      simp only [stripPrintState]
      cases (printLoop config isStdout s).currentBlock <;> rfl
    unfold sortedMapOf
    rw [he, flush_stripPrintState]
    split <;> rfl
  have hempty : ((sortedMapOf config (printLoop config isStdout s)).map
      (Prod.map id (List.map stripEntry))).isEmpty =
        (sortedMapOf config (printLoop config isStdout s)).isEmpty := by
    cases sortedMapOf config (printLoop config isStdout s) <;> rfl
  simp only [IMemMapVec.print, hloop, hsorted, hempty, ← List.map_reverse, rankedLoop_strip h]
  rfl

/-- INTERNAL: a reduced table is its views with empty histories.
SOURCE: stf_imem.hpp:324 -/
theorem entries_stripTable (m : IMemMap) :
    (stripTable m).entries = (tableView m).map fun p => (p.1, p.2.toData) := by
  simp [stripTable, tableView, stripEntry, Function.comp_def]

/-- INTERNAL: tables with the same views reduce to the same table.
SOURCE: stf_imem.hpp:324 -/
theorem map_stripTable_eq : ∀ {ts ts' : List IMemMap}, ts.map tableView = ts'.map tableView →
    ts.map stripTable = ts'.map stripTable
  | [], [], _ => rfl
  | m :: ts, m' :: ts', h => by
    simp only [List.map_cons, List.cons.injEq] at h ⊢
    exact ⟨IMemMap.ext (by rw [entries_stripTable, entries_stripTable, h.1]),
      map_stripTable_eq h.2⟩

/-- INTERNAL: the reduced state is determined by the views of the tables and by
the members `print` reads.
SOURCE: stf_imem.hpp:223-326 -/
theorem stripState_eq {s s' : IMemMapVec} (ht : s.imemMapvec.map tableView = s'.imemMapvec.map tableView)
    (hv : s.itv = s'.itv) (hc : s.instCount = s'.instCount) (hm : ∀ c, s.maxOf c = s'.maxOf c)
    (hr : s.isRv64 = s'.isRv64) : stripState s = stripState s' := by
  have htab := map_stripTable_eq ht
  rcases s with ⟨ts, i, n, mc, mw, mr, rv⟩
  rcases s' with ⟨ts', i', n', mc', mw', mr', rv'⟩
  have h1 := hm .count
  have h2 := hm .warmup
  have h3 := hm .runLength
  simp only [maxOf] at h1 h2 h3 hv hc hr
  simp only [stripState] at htab ⊢
  subst hv hc hr h1 h2 h3
  rw [htab]

/-! ## The views after each operation -/

/-- INTERNAL: looking a key up in the views.
SOURCE: stf_imem.hpp:324 -/
theorem findIn_tableView (m : IMemMap) (k : UInt64) :
    IMemMap.findIn k (tableView m) = (m.find k).map EntryView.of :=
  IMemMap.findIn_map _ _ _

/-- INTERNAL: the views after an insertion.
SOURCE: stf_imem.hpp:324 -/
theorem tableView_insert (m : IMemMap) (k : UInt64) (d : IMemData) :
    tableView (m.insert k d) =
      if (m.find k).isSome then tableView m else IMemMap.insertIn k (EntryView.of d) (tableView m) := by
  unfold IMemMap.insert
  split <;> simp_all [tableView, IMemMap.insertIn_map]

/-- INTERNAL: the views after storing a value through `find`'s iterator.
SOURCE: stf_imem.hpp:324 -/
theorem tableView_modify (m : IMemMap) (k : UInt64) (x : IMemData) :
    tableView (m.modify k fun _ => x) = IMemMap.updateIn k (fun _ => EntryView.of x) (tableView m) :=
  IMemMap.updateIn_map EntryView.of k (fun _ => x) (fun _ => EntryView.of x) (fun _ => rfl) m.entries

/-- INTERNAL: a history update leaves the view.
SOURCE: stf_imem.hpp:776-780 -/
@[simp] theorem view_historyStep (inst : STFInst) (d : IMemData) :
    EntryView.of (historyStep inst d) = EntryView.of d := by
  unfold historyStep; split_ifs <;> rfl

/-- INTERNAL: the entries the two profilers create for a new PC have one view.
SOURCE: stf_imem.hpp:757-766, 855-859 -/
theorem view_newEntry (inst : STFInst) (w : Bool) :
    EntryView.of (IMem.newEntry inst w).2 = EntryView.of (createIMem_ inst.pc inst 0 w).2 := by
  unfold IMem.newEntry createIMemAddr_ createIMemBranch_ createIMem_
  split_ifs <;> simp [EntryView.of, IMemData.getOpcodeSize]

/-- INTERNAL: the increments of a match path act on views.
SOURCE: stf_imem.hpp:769-775, 809-815 -/
theorem view_countHit (config : STFImemConfig) {s s' : IMemMapVec} {d d' : IMemData}
    (hi : s.instCount = s'.instCount) (h : EntryView.of d = EntryView.of d') :
    EntryView.of (s.countHit config d).2 = EntryView.of (s'.countHit config d').2 := by
  simp only [EntryView.of, EntryView.mk.injEq] at h
  rw [countHit_snd, countHit_snd, hi]
  split_ifs <;> simp [EntryView.of, IMemData.bump, IMemData.getOpcodeSize, h] <;>
    simpa [IMemData.getOpcodeSize] using h.2.1

/-- INTERNAL: the maxima after the increments depend on the entry's counters only.
SOURCE: stf_imem.hpp:467-480 -/
theorem maxOf_countHit (config : STFImemConfig) {s s' : IMemMapVec} {d d' : IMemData}
    (hi : s.instCount = s'.instCount) (hm : ∀ c, s.maxOf c = s'.maxOf c)
    (h : EntryView.of d = EntryView.of d') (c : Counter) :
    (s.countHit config d).1.maxOf c = (s'.countHit config d').1.maxOf c := by
  simp only [EntryView.of, EntryView.mk.injEq] at h
  obtain ⟨-, -, -, h1, h2, h3⟩ := h
  unfold countHit incCount_ incWarmup_ incRunLength_ incCounter_
  rw [hi]
  split_ifs <;> simp only [maxOf_raiseMax, IMemData.counter_bump, IMemData.counter_count,
    IMemData.counter_warmup, IMemData.counter_runLength, hm, h1, h2, h3]

/-! ## One table each -/

/-- INTERNAL: updating the only table.
SOURCE: stf_imem.hpp:326 -/
theorem single_modifyTable (s : IMemMapVec) (hs : s.imemMapvec = [s.active]) (hi : s.itv = 0)
    (f : IMemMap → IMemMap) :
    (s.modifyTable 0 f).imemMapvec = [f s.active] ∧ (s.modifyTable 0 f).active = f s.active := by
  have ht : (s.modifyTable 0 f).imemMapvec = [f s.active] := by
    rw [(modifyTable_frame s 0 f).1, hs]; rfl
  refine ⟨ht, ?_⟩
  simp only [active, ht, (modifyTable_frame s 0 f).2.1, hi]
  rfl

/-- INTERNAL: `JavaIMem` with one table and a new PC inserts into that table.
SOURCE: stf_imem.hpp:817-861 -/
theorem java_countImpl_single_new (config : STFImemConfig) (inst : STFInst) {s : IMemMapVec}
    (hs : s.imemMapvec = [s.active]) (hi : s.itv = 0) (hf : s.active.find inst.pc = none) :
    JavaIMem.countImpl config inst s = (s.modifyTable 0 (·.insert inst.pc
      (createIMem_ inst.pc inst 0 (decide (s.instCount < config.warmupCount.toNat))).2), []) := by
  simp [JavaIMem.countImpl, JavaIMem.slowPath, hf, hs, searchMaps, hi, createIMem_]

/-- INTERNAL: `JavaIMem` counts a PC its active table holds with the opcode.
SOURCE: stf_imem.hpp:807-816 -/
theorem java_countImpl_hit (config : STFImemConfig) (inst : STFInst) {s : IMemMapVec}
    {cur : IMemData} (hf : s.active.find inst.pc = some cur) (hm : cur.opcode = inst.opcode) :
    JavaIMem.countImpl config inst s = ((s.countHit config cur).1.modifyTable s.itv
      (·.modify inst.pc fun _ => (s.countHit config cur).2), []) := by
  simp [JavaIMem.countImpl, hf, IMemData.opcodeMatch, hm]

/-! ## Lockstep -/

/-- The two runs after the same instructions: each keeps one table with the cursor
on it; the tables have the same keys with the same views; the counters and maxima
agree; `IMem` has written no warning; and every entry's opcode is that of an
instruction seen at its PC. -/
structure Lockstep (a b : IMemMapVec × List Diag) (seen : List STFInst) : Prop where
  single : a.1.imemMapvec = [a.1.active] ∧ b.1.imemMapvec = [b.1.active]
  itv : a.1.itv = 0 ∧ b.1.itv = 0
  views : tableView a.1.active = tableView b.1.active
  instCount : a.1.instCount = b.1.instCount
  maxima : ∀ c, a.1.maxOf c = b.1.maxOf c
  rv64 : a.1.isRv64 = b.1.isRv64
  quiet : a.2 = []
  opcodes : ∀ pc d, a.1.active.find pc = some d → ∃ e ∈ seen, e.pc = pc ∧ e.opcode = d.opcode

/-- INTERNAL: the constructors' states.
SOURCE: stf_imem.hpp:491-495 -/
theorem lockstep_init : Lockstep (IMemMapVec.init, []) (IMemMapVec.init, []) [] :=
  ⟨⟨rfl, rfl⟩, ⟨rfl, rfl⟩, rfl, rfl, fun _ => rfl, rfl, rfl,
    fun _ _ h => by simp [IMemMapVec.init, active, IMemMap.find_empty] at h⟩

/-- INTERNAL: after both runs update their only table, with tables of one view and
an opcode of the new instruction's PC taken from what was seen, they are in
lockstep again.
SOURCE: stf_imem.hpp:699-701 -/
theorem Lockstep.of_update {a b : IMemMapVec × List Diag} {seen : List STFInst}
    (hl : Lockstep a b seen) (e : STFInst) (sa sb : IMemMapVec) (fa fb : IMemMap → IMemMap)
    (hsa : sa.imemMapvec = a.1.imemMapvec ∧ sa.itv = a.1.itv ∧ sa.instCount = a.1.instCount ∧
      sa.isRv64 = a.1.isRv64)
    (hsb : sb.imemMapvec = b.1.imemMapvec ∧ sb.itv = b.1.itv ∧ sb.instCount = b.1.instCount ∧
      sb.isRv64 = b.1.isRv64)
    (hmax : ∀ c, sa.maxOf c = sb.maxOf c)
    (hview : tableView (fa a.1.active) = tableView (fb b.1.active))
    (hop : ∀ pc d, (fa a.1.active).find pc = some d →
      ∃ e' ∈ seen ++ [e], e'.pc = pc ∧ e'.opcode = d.opcode) :
    Lockstep ({ sa.modifyTable 0 fa with instCount := (sa.modifyTable 0 fa).instCount + 1 }, a.2 ++ [])
      ({ sb.modifyTable 0 fb with instCount := (sb.modifyTable 0 fb).instCount + 1 }, b.2 ++ [])
      (seen ++ [e]) := by
  have hactA : sa.active = a.1.active := by simp only [active, hsa.1, hsa.2.1]
  have hactB : sb.active = b.1.active := by simp only [active, hsb.1, hsb.2.1]
  obtain ⟨hA1, hA2⟩ := single_modifyTable sa (by rw [hsa.1, hactA]; exact hl.single.1)
    (hsa.2.1.trans hl.itv.1) fa
  obtain ⟨hB1, hB2⟩ := single_modifyTable sb (by rw [hsb.1, hactB]; exact hl.single.2)
    (hsb.2.1.trans hl.itv.2) fb
  rw [hactA] at hA1 hA2
  rw [hactB] at hB1 hB2
  refine ⟨⟨?_, ?_⟩, ⟨?_, ?_⟩, ?_, ?_, fun c => ?_, ?_, by simp [hl.quiet], fun pc d hd => ?_⟩
  · show (sa.modifyTable 0 fa).imemMapvec = [(sa.modifyTable 0 fa).active]; rw [hA1, hA2]
  · show (sb.modifyTable 0 fb).imemMapvec = [(sb.modifyTable 0 fb).active]; rw [hB1, hB2]
  · exact hsa.2.1.trans hl.itv.1
  · exact hsb.2.1.trans hl.itv.2
  · show tableView (sa.modifyTable 0 fa).active = tableView (sb.modifyTable 0 fb).active
    rw [hA2, hB2, hview]
  · show sa.instCount + 1 = sb.instCount + 1
    rw [hsa.2.2.1, hsb.2.2.1, hl.instCount]
  · simp only [maxOf_setInstCount, (modifyTable_frame _ _ _).2.2.2, hmax]
  · exact hsa.2.2.2.trans (hl.rv64.trans hsb.2.2.2.symm)
  · exact hop pc d (by rw [← hA2]; exact hd)

/-- INTERNAL: one instruction whose PC was only seen with its own opcode keeps the
two runs in lockstep.
SOURCE: stf_imem.hpp:736-792, 802-862 -/
theorem Lockstep.step {a b : IMemMapVec × List Diag} {seen : List STFInst} (hl : Lockstep a b seen)
    (config : STFImemConfig) (e : STFInst) (hop : ∀ e' ∈ seen, e'.pc = e.pc → e'.opcode = e.opcode) :
    Lockstep (countStep IMem.countImpl config e a) (countStep JavaIMem.countImpl config e b)
      (seen ++ [e]) := by
  have hfind : (a.1.active.find e.pc).map EntryView.of = (b.1.active.find e.pc).map EntryView.of := by
    rw [← findIn_tableView, ← findIn_tableView, hl.views]
  rcases imem_countImpl_cases config e a.1 with ⟨hf, h⟩ | ⟨cur, hf, hm, h⟩ | ⟨cur, hf, hne, h⟩
  · -- a new PC: both insert an entry with the same view
    have hg : b.1.active.find e.pc = none := by simpa [hf] using hfind.symm
    simp only [StfTools.countStep, h, java_countImpl_single_new config e hl.single.2 hl.itv.2 hg,
      hl.itv.1]
    refine hl.of_update e a.1 b.1 _ _ ⟨rfl, rfl, rfl, rfl⟩ ⟨rfl, rfl, rfl, rfl⟩ hl.maxima ?_ ?_
    · rw [tableView_insert, tableView_insert, hf, hg, hl.views, hl.instCount, view_newEntry]
    · intro pc d hd
      rw [IMemMap.find_insert, hf] at hd
      split_ifs at hd with hpc
      · cases hd
        exact ⟨e, by simp, hpc, by simp⟩
      · obtain ⟨e', he', h1, h2⟩ := hl.opcodes pc d hd
        exact ⟨e', List.mem_append_left _ he', h1, h2⟩
  · -- a PC seen with this opcode: both count it, with the same view
    obtain ⟨cur', hg, hv⟩ : ∃ cur', b.1.active.find e.pc = some cur' ∧
        EntryView.of cur = EntryView.of cur' := by
      rw [hf] at hfind
      cases hg : b.1.active.find e.pc with
      | none => simp [hg] at hfind
      | some cur' => exact ⟨cur', rfl, by simpa [hg] using hfind⟩
    have hm' : cur'.opcode = e.opcode := by
      rw [← hm]; exact (congrArg EntryView.opcode hv).symm
    simp only [StfTools.countStep, h, java_countImpl_hit config e hg hm', hl.itv.1, hl.itv.2]
    refine hl.of_update e _ _ _ _ (countHit_frame config a.1 cur) (countHit_frame config b.1 cur')
      (maxOf_countHit config hl.instCount hl.maxima hv) ?_ ?_
    · rw [tableView_modify, tableView_modify, hl.views, view_historyStep,
        view_countHit config hl.instCount hv]
    · intro pc d hd
      rw [IMemMap.find_modify, hf] at hd
      split_ifs at hd with hpc
      · cases hd
        obtain ⟨e', he', h1, h2⟩ := hl.opcodes e.pc cur hf
        exact ⟨e', List.mem_append_left _ he', hpc ▸ h1, by simp [h2]⟩
      · obtain ⟨e', he', h1, h2⟩ := hl.opcodes pc d hd
        exact ⟨e', List.mem_append_left _ he', h1, h2⟩
  · -- a PC seen with another opcode cannot occur
    obtain ⟨e', he', h1, h2⟩ := hl.opcodes e.pc cur hf
    exact absurd (h2.symm.trans (hop e' he' h1)) hne

/-- INTERNAL: the two runs stay in lockstep over a sequence in which no PC changes
its opcode.
SOURCE: stf_imem.hpp:673-706 -/
theorem Lockstep.countRun (config : STFImemConfig) :
    ∀ (evs : List STFInst) {a b : IMemMapVec × List Diag} {seen : List STFInst}, Lockstep a b seen →
      (∀ e ∈ evs, ∀ e' ∈ seen ++ evs, e'.pc = e.pc → e'.opcode = e.opcode) →
      Lockstep (countRun IMem.countImpl config evs a) (countRun JavaIMem.countImpl config evs b)
        (seen ++ evs)
  | [], _, _, _, hl, _ => by simpa using hl
  | e :: rest, _, _, _, hl, hop => by
    have h1 := hl.step config e fun e' he' =>
      hop e (List.mem_cons_self _ _) e' (List.mem_append_left _ he')
    simpa [StfTools.countRun] using Lockstep.countRun config rest h1
      fun x hx x' hx' => hop x (List.mem_cons_of_mem _ hx) x' (by simpa using hx')

/-! ## The agreement -/

/-- What the two profilers are compared on after their runs: `JavaIMem` has one
table; both tables have the same keys with, at every key, the same opcode, size,
physical PC and counters; `inst_count_` and the three maxima agree; and `print`
writes the same report for both whenever `local_history` is off. -/
structure Agreement (a b : IMemMapVec) : Prop where
  javaSingle : b.imemMapvec.length = 1
  tables : ∃ ta tb, a.imemMapvec = [ta] ∧ b.imemMapvec = [tb] ∧ tableView ta = tableView tb
  instCount : a.instCount = b.instCount
  maxCount : a.maxCount = b.maxCount
  maxWarmup : a.maxWarmup = b.maxWarmup
  maxRunLength : a.maxRunLength = b.maxRunLength
  report : ∀ (pconfig : STFImemConfig) (isStdout : Bool),
    a.print { pconfig with localHistory := false } isStdout =
      b.print { pconfig with localHistory := false } isStdout

/-- For every configuration and every instruction sequence in which no PC occurs
with two different opcodes, `IMem` and `JavaIMem` end in agreement: one table
each, the same keys and at every key the same opcode, size, physical PC and
counters, the same `inst_count_` and maxima, and the same report. -/
theorem javaIMem_agrees_with_imem (config : STFImemConfig) (evs : List STFInst)
    (hone : ∀ e ∈ evs, ∀ e' ∈ evs, e.pc = e'.pc → e.opcode = e'.opcode) :
    Agreement (countRun IMem.countImpl config evs (IMemMapVec.init, [])).1
      (countRun JavaIMem.countImpl config evs (IMemMapVec.init, [])).1 := by
  have hl := Lockstep.countRun config evs lockstep_init
    fun e he e' he' h => hone e' (by simpa using he') e he h
  have hstrip := stripState_eq (by rw [hl.single.1, hl.single.2]; simp [hl.views])
    (hl.itv.1.trans hl.itv.2.symm) hl.instCount hl.maxima hl.rv64
  refine ⟨by rw [hl.single.2]; rfl, ⟨_, _, hl.single.1, hl.single.2, hl.views⟩, hl.instCount,
    hl.maxima .count, hl.maxima .warmup, hl.maxima .runLength, fun pconfig isStdout => ?_⟩
  rw [← print_stripState rfl, hstrip, print_stripState rfl]

/-- A loop over two PCs with one opcode each: `0x1000`, `0x1004`, `0x1000`, all
`0x13`, where the two profilers agree. -/
theorem javaIMem_agrees_on_one_opcode_per_pc :
    let evs := [simpleInst 0x1000 0x13, simpleInst 0x1004 0x13, simpleInst 0x1000 0x13]
    (∀ e ∈ evs, ∀ e' ∈ evs, e.pc = e'.pc → e.opcode = e'.opcode) ∧
      Agreement (countRun IMem.countImpl {} evs (IMemMapVec.init, [])).1
        (countRun JavaIMem.countImpl {} evs (IMemMapVec.init, [])).1 :=
  ⟨by decide, javaIMem_agrees_with_imem {} _ (by decide)⟩

end StfTools.Analysis
