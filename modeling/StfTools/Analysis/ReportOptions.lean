import StfTools.Analysis.ReportTotals

/-!
# What three options of the report change

**`local_history` and `JavaIMem`.** `JavaIMem::count_impl` (stf_imem.hpp:802-862)
creates every entry with the four-argument `createIMem_` and physical PC 0, and
afterwards only increments its counters: it never calls `nextStride` or
`nextBranchHistory`. So every entry of every table keeps the local state the
constructor gives it (`InitialLocalState`): physical PC 0, neither a load/store
nor a branch, both rings as built. The invariant is carried along a run by the
two outcomes of `java_countImpl_cases`. `printSortedIMemItem_` appends a local
history only for a load/store or a branch entry, and the rest of `print` does not
read `local_history` (`print_localHistory_off`). Hence the report of a `JavaIMem`
run is the same with and without local histories
(`javaIMem_local_history_inert`).

**`sort_output` on the standard output.** `print` writes the header
`MAP n` of each table whatever the options, while it writes an entry's line only
when the footprint does not go to the standard output or the output is not
sorted (stf_imem.hpp:552-589). So the footprint has one header per table,
numbered from 1, and with the sorted report on the standard output it is
nothing but these headers, after the CONFIG block and the column titles that
`track` adds before the tables (stf_imem.hpp:524-541; `print_map_headers`).

**`show_physpc`.** Both profilers pass the physical PC 0 to `createIMem_`
(stf_imem.hpp:738, 804), and no increment or history update writes it. Every line
`print` writes is a header or the line of an entry it visits (`print_imem_forall`,
`print_sorted_forall`), so the physical PC that `show_physpc` adds to each entry
line is 0 in both files, after every run of either profiler
(`printed_physPc_zero`).
-/

set_option autoImplicit false

namespace StfTools.Analysis

open StfTools IMemMapVec

/-! ## The local state of an entry -/

/-- The local state the four-argument constructor leaves in an entry
(stf_imem.hpp:89-109): physical PC 0 as the profiler passes it, neither a
load/store nor a branch, both rings filled with their initial value and both
cursors at 0. -/
structure InitialLocalState (d : IMemData) : Prop where
  physPc : d.physPc = 0
  isLoadstore : d.isLoadstore = false
  lastAddress : d.lastAddress = 0
  recentStrides : d.recentStrides = List.replicate MAX_LHIST_ 0
  recentStridesIdx : d.recentStridesIdx = 0
  isBranch : d.isBranch = false
  branchLhr : d.branchLhr = List.replicate MAX_LHIST_ false
  branchLhrIdx : d.branchLhrIdx = 0

/-- INTERNAL: the four-argument `createIMem_` with physical PC 0 builds an entry in
its initial local state.
SOURCE: stf_imem.hpp:344-349, 89-109 -/
theorem initialLocalState_createIMem_ (key : UInt64) (inst : STFInst) (w : Bool) :
    InitialLocalState (createIMem_ key inst 0 w).2 :=
  ⟨rfl, rfl, rfl, rfl, rfl, rfl, rfl, rfl⟩

/-- INTERNAL: an increment leaves the local state alone.
SOURCE: stf_imem.hpp:169-179 -/
theorem InitialLocalState.bump {d : IMemData} (h : InitialLocalState d) (c : Counter) :
    InitialLocalState (d.bump c) := by
  cases c <;> exact ⟨h.1, h.2, h.3, h.4, h.5, h.6, h.7, h.8⟩

/-- INTERNAL: the increments of a match path leave the local state alone.
SOURCE: stf_imem.hpp:467-480, 809-815, 841-847 -/
theorem InitialLocalState.countHit {d : IMemData} (h : InitialLocalState d)
    (config : STFImemConfig) (s : IMemMapVec) : InitialLocalState (s.countHit config d).2 := by
  rw [countHit_snd]
  split_ifs
  · exact (h.bump _).bump _
  · exact (h.bump _).bump _
  · exact h.bump _

/-- INTERNAL: an entry in its initial local state prints no local history.
SOURCE: stf_imem.hpp:442-460 -/
theorem InitialLocalState.localHistory {d : IMemData} (h : InitialLocalState d) :
    localHistory d = none := by
  simp [StfTools.localHistory, h.isLoadstore, h.isBranch]

/-! ## Every entry of every table -/

/-- Every entry of every table satisfies `P`. -/
def EntriesHold (P : IMemData → Prop) (ts : List IMemMap) : Prop :=
  ∀ t ∈ ts, ∀ pc d, t.find pc = some d → P d

section Tables

variable {P : IMemData → Prop} {ts : List IMemMap}

/-- INTERNAL: inserting an entry that satisfies `P` into one table keeps `P` of
every entry; `std::map::insert` keeps an entry already at the key.
SOURCE: stf_imem.hpp:764, 859 -/
theorem EntriesHold.modify_insert (h : EntriesHold P ts) {d : IMemData} (hd : P d) (k : UInt64)
    (j : Nat) : EntriesHold P (ts.modify (·.insert k d) j) := by
  intro u hu pc x hx
  rcases mem_modify hu with ⟨i, -, hi⟩ | ⟨t, ht, rfl⟩
  · exact h u (List.mem_iff_getElem?.mpr ⟨i, hi⟩) pc x hx
  · have htm := List.mem_iff_getElem?.mpr ⟨j, ht⟩
    rw [IMemMap.find_insert] at hx
    split_ifs at hx
    · -- the key: the entry already there, else the new one
      cases hf : t.find k with
      | none => simp only [hf, Option.getD_none, Option.some.injEq] at hx; exact hx ▸ hd
      | some y => simp only [hf, Option.getD_some, Option.some.injEq] at hx; exact hx ▸ h t htm k y hf
    · exact h t htm pc x hx

/-- INTERNAL: writing an entry that satisfies `P` through a `find` of one table
keeps `P` of every entry.
SOURCE: stf_imem.hpp:815, 848 -/
theorem EntriesHold.modify_modify (h : EntriesHold P ts) {d : IMemData} (hd : P d) (k : UInt64)
    (j : Nat) : EntriesHold P (ts.modify (·.modify k fun _ => d) j) := by
  intro u hu pc x hx
  rcases mem_modify hu with ⟨i, -, hi⟩ | ⟨t, ht, rfl⟩
  · exact h u (List.mem_iff_getElem?.mpr ⟨i, hi⟩) pc x hx
  · rw [IMemMap.find_modify] at hx
    split_ifs at hx
    · obtain ⟨y, -, rfl⟩ := Option.map_eq_some'.mp hx
      exact hd
    · exact h t (List.mem_iff_getElem?.mpr ⟨j, ht⟩) pc x hx

/-- INTERNAL: the constructor's one empty table holds no entry.
SOURCE: stf_imem.hpp:491-495 -/
theorem entriesHold_init : EntriesHold P IMemMapVec.init.imemMapvec := fun t ht pc d hd => by
  simp only [IMemMapVec.init, List.mem_singleton] at ht
  simp [ht] at hd

/-- INTERNAL: `print` visits only entries of the tables.
SOURCE: stf_imem.hpp:553-563 -/
theorem EntriesHold.forall_visitOrder {s : IMemMapVec} (h : EntriesHold P s.imemMapvec) :
    ∀ e ∈ visitOrder s, P e.2 := by
  intro e he
  simp only [visitOrder, List.mem_flatten, List.mem_map, List.mem_reverse] at he
  obtain ⟨_, ⟨t, ht, rfl⟩, he⟩ := he
  exact h t ht e.1 e.2 ((IMemMap.find_eq_some_iff t e.1 e.2).mpr he)

end Tables

section Outcomes

variable {config : STFImemConfig} {e : STFInst} {s s' : IMemMapVec}

/-- INTERNAL: a hit counts an entry in its initial local state and leaves it so.
SOURCE: stf_imem.hpp:807-816, 840-849 -/
theorem JavaHit.entriesHold {i : Nat} {t : IMemMap} {cur : IMemData}
    (h : JavaHit config e s s' i t cur) (hs : EntriesHold InitialLocalState s.imemMapvec) :
    EntriesHold InitialLocalState s'.imemMapvec := by
  have hcur := hs t (List.mem_iff_getElem?.mpr ⟨i, h.get⟩) e.pc cur h.find
  rw [h.eq]
  simpa [modifyTable] using hs.modify_modify (hcur.countHit config s) e.pc i

/-- INTERNAL: an insertion adds an entry in its initial local state.
SOURCE: stf_imem.hpp:850-860 -/
theorem JavaInsert.entriesHold {ts : List IMemMap} {j : Nat} {t : IMemMap}
    (h : JavaInsert config e s s' ts j t) (hs : EntriesHold InitialLocalState s.imemMapvec) :
    EntriesHold InitialLocalState s'.imemMapvec := by
  have hts : EntriesHold InitialLocalState ts := fun u hu pc d hd => by
    rcases h.mem_tables hu with rfl | hu
    · simp at hd
    · exact hs u hu pc d hd
  rw [h.eq]
  exact hts.modify_insert (initialLocalState_createIMem_ _ _ _) e.pc j

end Outcomes

/-- INTERNAL: over every run of `JavaIMem` from the constructor, every entry of
every table keeps its initial local state.
SOURCE: stf_imem.hpp:673-706, 802-862 -/
theorem entriesHold_javaCountRun (config : STFImemConfig) (evs : List STFInst) :
    EntriesHold InitialLocalState
      (countRun JavaIMem.countImpl config evs (IMemMapVec.init, [])).1.imemMapvec := by
  have hrun := countRun_inv JavaIMem.countImpl config
    (fun r seen => JavaInv r.1 seen ∧ EntriesHold InitialLocalState r.1.imemMapvec)
    (fun r seen e ⟨hinv, hs⟩ => ⟨(hinv.countStep config e).1, by
      rcases (java_countImpl_cases config e r.1 hinv.itv_lt).2 with ⟨i, t, cur, h⟩ | ⟨ts, j, t, h⟩ <;>
        exact h.entriesHold hs⟩)
    evs (IMemMapVec.init, []) [] ⟨javaInv_init, entriesHold_init⟩
  exact hrun.2

/-! ## What `print` reads of `local_history` -/

/-- INTERNAL: the loop body reads only `sort_output` of the configuration.
SOURCE: stf_imem.hpp:563-594 -/
theorem printEntry_congr {c c' : STFImemConfig} (h : c.sortOutput = c'.sortOutput) :
    printEntry c = printEntry c' := by
  funext isStdout st cur
  simp only [printEntry, h]

/-- INTERNAL: the loop over the tables reads only `sort_output`.
SOURCE: stf_imem.hpp:553-597 -/
theorem printMaps_congr {c c' : STFImemConfig} (h : c.sortOutput = c'.sortOutput)
    (isStdout rv64 : Bool) :
    ∀ (ts : List IMemMap) (n : Nat) (st : PrintState),
      printMaps c isStdout rv64 ts n st = printMaps c' isStdout rv64 ts n st
  | [], _, _ => rfl
  | m :: ts, n, st => by
    simp only [printMaps, printEntry_congr h, printMaps_congr h isStdout rv64 ts]

/-- INTERNAL: with `local_history` off, a block of entries with no local history
is written as with it on.
SOURCE: stf_imem.hpp:442-460, 641-644 -/
theorem printBlock_localHistory_off (config : STFImemConfig) :
    ∀ (n : Nat) (b : List Entry), (∀ e ∈ b, localHistory e.2 = none) →
      printBlock { config with localHistory := false } n b = printBlock config n b
  | _, [], _ => rfl
  | n, e :: rest, h => by
    have hrest := printBlock_localHistory_off config (n + e.2.count) rest
      fun x hx => h x (List.mem_cons_of_mem e hx)
    simp [printBlock, hrest, sortedItemLine, h e (List.mem_cons_self e rest)]

/-- INTERNAL: the same for the ranked loop over blocks of such entries.
SOURCE: stf_imem.hpp:633-645 -/
theorem rankedLoop_localHistory_off (config : STFImemConfig) :
    ∀ (B : List (SortedMapKey × List Entry)) (n : Nat),
      (∀ b ∈ B, ∀ e ∈ b.2, localHistory e.2 = none) →
      rankedLoop { config with localHistory := false } B n = rankedLoop config B n
  | [], _, _ => rfl
  | (k, b) :: rest, n, h => by
    simp only [rankedLoop, printBlock_localHistory_off config n b (h (k, b) (List.mem_cons_self _ _)),
      rankedLoop_localHistory_off config rest _ fun x hx => h x (List.mem_cons_of_mem _ hx)]

/-- INTERNAL: the blocks of the ranked loop hold only entries `print` visited.
SOURCE: stf_imem.hpp:563-603 -/
theorem mem_visitOrder_of_rankedBlocks {config : STFImemConfig} (h : config.sortOutput = true)
    (isStdout : Bool) (s : IMemMapVec) :
    ∀ b ∈ rankedBlocks config isStdout s, ∀ e ∈ b.2, e ∈ visitOrder s := fun b hb e he => by
  have hp := ((sortedMapOf_runs h isStdout s).1.trans (List.reverse_perm _)).flatten
  rw [List.flatten_splitBy] at hp
  exact hp.subset (List.mem_flatten.mpr ⟨b.2, List.mem_map_of_mem _ (List.mem_reverse.mp hb), he⟩)

/-- INTERNAL: when no visited entry has a local history, `print` writes the same
with `local_history` off.
SOURCE: stf_imem.hpp:509-654 -/
theorem print_localHistory_off {s : IMemMapVec} (hs : ∀ e ∈ visitOrder s, localHistory e.2 = none)
    (config : STFImemConfig) (isStdout : Bool) :
    s.print { config with localHistory := false } isStdout = s.print config isStdout := by
  have hloop : printLoop { config with localHistory := false } isStdout s =
      printLoop config isStdout s :=
    printMaps_congr (show ({ config with localHistory := false } : STFImemConfig).sortOutput =
      config.sortOutput from rfl) isStdout s.isRv64 _ 1 _
  have hsm : ∀ st, sortedMapOf { config with localHistory := false } st = sortedMapOf config st :=
    fun _ => rfl
  have htrack : ∀ a b c, trackHeader { config with localHistory := false } a b c =
      trackHeader config a b c := fun _ _ _ => rfl
  simp only [IMemMapVec.print, hloop, hsm, htrack]
  by_cases hso : config.sortOutput
  · have hB : ∀ b ∈ (sortedMapOf config (printLoop config isStdout s)).reverse, ∀ e ∈ b.2,
        localHistory e.2 = none := fun b hb e he =>
      hs e (mem_visitOrder_of_rankedBlocks hso isStdout s b hb e he)
    simp only [rankedLoop_localHistory_off config _ 0 hB]
  · simp only [hso, Bool.false_eq_true, ite_false]

/-! ## The run and its report -/

/-- For every configuration and every sequence of admitted instructions, every
entry of every table of `JavaIMem` keeps the local state the four-argument
constructor gives it: physical PC 0, neither a load/store nor a branch, both
history rings as built. So `print` writes the same footprint and sorted files for
the final state whether `local_history` is on or off. -/
theorem javaIMem_local_history_inert (config : STFImemConfig) (evs : List STFInst) :
    let s := (countRun JavaIMem.countImpl config evs (IMemMapVec.init, [])).1
    (∀ t ∈ s.imemMapvec, ∀ pc d, t.find pc = some d → InitialLocalState d) ∧
    ∀ (pconfig : STFImemConfig) (isStdout : Bool),
      s.print { pconfig with localHistory := false } isStdout = s.print pconfig isStdout := by
  intro s
  have hs := entriesHold_javaCountRun config evs
  exact ⟨hs, print_localHistory_off fun e he => (hs.forall_visitOrder e he).localHistory⟩

/-! ## The table headers -/

/-- Two opcodes at one PC make `JavaIMem` open a second table; with the sorted
report on the standard output, the footprint there is the two empty headers. -/
example : ((countRun JavaIMem.countImpl {} [simpleInst 0x1000 0x13, simpleInst 0x1000 0x17]
    (IMemMapVec.init, [])).1.print { sortOutput := true } true).imem =
      [.mapHeader 1 false, .mapHeader 2 false] := by decide

/-- With `track`, the CONFIG block and the column titles come before the headers. -/
example : ((countRun JavaIMem.countImpl {} [simpleInst 0x1000 0x13, simpleInst 0x1000 0x17]
    (IMemMapVec.init, [])).1.print { sortOutput := true, track := true } true).imem =
      [.config "" 0 false, .titles false 8 8 8 16, .mapHeader 1 false, .mapHeader 2 false] := by
  decide

/-! ## The physical PC -/

/-- INTERNAL: `IMem::count_impl` creates every entry with its constant physical PC 0.
SOURCE: stf_imem.hpp:738, 757-764 -/
theorem physPc_newEntry (inst : STFInst) (w : Bool) : (IMem.newEntry inst w).2.physPc = 0 := by
  unfold IMem.newEntry
  split_ifs <;> simp [createIMemAddr_, createIMemBranch_, createIMem_]

/-- INTERNAL: no increment changes the physical PC.
SOURCE: stf_imem.hpp:467-480 -/
theorem physPc_countHit (config : STFImemConfig) (s : IMemMapVec) (d : IMemData) :
    (s.countHit config d).2.physPc = d.physPc := by
  rw [countHit_snd]
  split_ifs <;> simp

/-- INTERNAL: no history update changes the physical PC.
SOURCE: stf_imem.hpp:194-215, 776-780 -/
theorem physPc_historyStep (inst : STFInst) (d : IMemData) :
    (historyStep inst d).physPc = d.physPc := by
  unfold historyStep
  split_ifs <;> rfl

/-- INTERNAL: one `IMem` step keeps physical PC 0 in every entry.
SOURCE: stf_imem.hpp:734-792 -/
theorem EntriesHold.imem_countStep {r : IMemMapVec × List Diag}
    (hs : EntriesHold (·.physPc = 0) r.1.imemMapvec) (hlt : r.1.itv < r.1.imemMapvec.length)
    (config : STFImemConfig) (e : STFInst) :
    EntriesHold (·.physPc = 0) (countStep IMem.countImpl config e r).1.imemMapvec := by
  rcases imem_countImpl_cases config e r.1 with ⟨-, h⟩ | ⟨cur, hf, -, h⟩ | ⟨_, -, -, h⟩
  · -- a new entry
    simp only [StfTools.countStep, h, modifyTable_frame]
    exact hs.modify_insert (physPc_newEntry e _) e.pc r.1.itv
  · -- the counted entry
    have hcur : cur.physPc = 0 :=
      hs r.1.active (List.mem_iff_getElem?.mpr ⟨_, getElem?_itv hlt⟩) e.pc cur hf
    simp only [StfTools.countStep, h, modifyTable_frame, countHit_frame]
    exact hs.modify_modify (by rw [physPc_historyStep, physPc_countHit, hcur]) e.pc r.1.itv
  · -- a warning: no table changes
    simpa only [StfTools.countStep, h] using hs

/-- INTERNAL: over every run of `IMem` from the constructor, every entry has
physical PC 0.
SOURCE: stf_imem.hpp:673-706, 734-792 -/
theorem entriesHold_imemCountRun (config : STFImemConfig) (evs : List STFInst) :
    EntriesHold (·.physPc = 0)
      (countRun IMem.countImpl config evs (IMemMapVec.init, [])).1.imemMapvec :=
  (countRun_inv IMem.countImpl config
    (fun r seen => IMemInv r seen ∧ EntriesHold (·.physPc = 0) r.1.imemMapvec)
    (fun r seen e ⟨hinv, hs⟩ => ⟨hinv.countStep config e,
      hs.imem_countStep (by rw [hinv.itv_zero, hinv.single]; exact Nat.one_pos) config e⟩)
    evs _ [] ⟨imemInv_init, entriesHold_init⟩).2

section Lines

variable (config : STFImemConfig) (isStdout : Bool)

/-- INTERNAL: the loop body writes a `...` line and the entry's line, nothing else.
SOURCE: stf_imem.hpp:563-594 -/
theorem printEntry_forall (Q : ImemLine → Prop) (hgap : Q .gap) {st : PrintState} {cur : Entry}
    (hst : ∀ l ∈ st.lines, Q l) (hcur : Q (itemLine cur)) :
    ∀ l ∈ (printEntry config isStdout st cur).lines, Q l := by
  intro l hl
  cases h : config.sortOutput
  · rw [printEntry_unsorted h] at hl
    simp only [List.mem_append, List.mem_singleton] at hl
    rcases hl with (hl | hl) | rfl
    · exact hst l hl
    · split_ifs at hl
      · exact List.mem_singleton.mp hl ▸ hgap
      · exact absurd hl (List.not_mem_nil _)
    · exact hcur
  · rw [printEntry_sorted h] at hl
    cases isStdout
    · rcases List.mem_append.mp hl with hl | hl
      · exact hst l hl
      · exact List.mem_singleton.mp hl ▸ hcur
    · exact hst l hl

/-- INTERNAL: the same for the loop over one table's entries.
SOURCE: stf_imem.hpp:563-594 -/
theorem foldl_printEntry_forall (Q : ImemLine → Prop) (hgap : Q .gap) :
    ∀ (es : List Entry) (st : PrintState), (∀ l ∈ st.lines, Q l) → (∀ e ∈ es, Q (itemLine e)) →
      ∀ l ∈ (es.foldl (printEntry config isStdout) st).lines, Q l
  | [], _, hst, _ => hst
  | cur :: es, _, hst, hes =>
    foldl_printEntry_forall Q hgap es _
      (printEntry_forall config isStdout Q hgap hst (hes cur (List.mem_cons_self _ _)))
      fun e he => hes e (List.mem_cons_of_mem _ he)

/-- INTERNAL: every line the loop over the tables writes is a header, a `...` line
or the line of one of their entries, so it has every property these lines share.
SOURCE: stf_imem.hpp:553-597 -/
theorem printMaps_forall (rv64 : Bool) (Q : ImemLine → Prop) (hhead : ∀ n, Q (.mapHeader n rv64))
    (hgap : Q .gap) :
    ∀ (ts : List IMemMap) (n : Nat) (st : PrintState), (∀ l ∈ st.lines, Q l) →
      (∀ t ∈ ts, ∀ e ∈ t.entries, Q (itemLine e)) →
      ∀ l ∈ (printMaps config isStdout rv64 ts n st).lines, Q l
  | [], _, _, hst, _ => hst
  | t :: ts, n, _, hst, hts =>
    printMaps_forall rv64 Q hhead hgap ts (n + 1) _
      (foldl_printEntry_forall config isStdout Q hgap t.entries _
        (fun l hl => (List.mem_append.mp hl).elim (hst l) fun h => List.mem_singleton.mp h ▸ hhead n)
        (hts t (List.mem_cons_self _ _)))
      fun u hu => hts u (List.mem_cons_of_mem _ hu)

/-- INTERNAL: the loop over one block writes its entries' lines, nothing else.
SOURCE: stf_imem.hpp:641-644 -/
theorem printBlock_forall (Q : SortedLine → Prop) :
    ∀ (n : Nat) (b : List Entry), (∀ e ∈ b, ∀ c, Q (sortedItemLine config e c)) →
      ∀ l ∈ (printBlock config n b).2, Q l
  | _, [], _ => fun _ h => absurd h (List.not_mem_nil _)
  | _, e :: rest, h => fun l hl => (List.mem_cons.mp hl).elim
      (fun hl => hl ▸ h e (List.mem_cons_self _ _) _)
      (printBlock_forall Q _ rest (fun x hx => h x (List.mem_cons_of_mem _ hx)) l)

/-- INTERNAL: every line of the ranked loop is a block header or the line of an
entry of one of its blocks.
SOURCE: stf_imem.hpp:633-645 -/
theorem rankedLoop_forall (Q : SortedLine → Prop) (hhead : ∀ c a, Q (.blockHeader c a)) :
    ∀ (B : List (SortedMapKey × List Entry)) (n : Nat),
      (∀ b ∈ B, ∀ e ∈ b.2, ∀ c, Q (sortedItemLine config e c)) →
      ∀ l ∈ (rankedLoop config B n).2, Q l
  | [], _, _ => fun _ h => absurd h (List.not_mem_nil _)
  | (k, b) :: rest, n, h => fun l hl => by
    rcases List.mem_cons.mp hl with rfl | hl
    · exact hhead _ _
    rcases List.mem_append.mp hl with hl | hl
    · exact printBlock_forall config Q n b (h (k, b) (List.mem_cons_self _ _)) l hl
    · exact rankedLoop_forall Q hhead rest _ (fun x hx => h x (List.mem_cons_of_mem _ hx)) l hl

/-- INTERNAL: every line of the footprint is a header, a `...` line or the line of
a visited entry.
SOURCE: stf_imem.hpp:524-597 -/
theorem print_imem_forall {s : IMemMapVec} (Q : ImemLine → Prop)
    (hhead : ∀ l, l.isHeader → Q l) (hgap : Q .gap)
    (hitem : ∀ e ∈ visitOrder s, Q (itemLine e)) :
    ∀ l ∈ (s.print config isStdout).imem, Q l := by
  rw [imem_print, printLoop]
  exact List.forall_mem_append.mpr ⟨fun l hl => hhead l (mem_trackHeader hl).1,
    printMaps_forall config isStdout s.isRv64 Q (fun _ => hhead _ rfl) hgap _ 1 _
      (fun _ h => absurd h (List.not_mem_nil _))
      fun t ht e he => hitem e (List.mem_flatten.mpr ⟨t.entries, List.mem_map_of_mem _ ht, he⟩)⟩

/-- INTERNAL: a sorted file is written only with `sort_output` set, and its lines
are those of the ranked loop.
SOURCE: stf_imem.hpp:599-652 -/
theorem lines_of_sorted {s : IMemMapVec} {r : SortedReport}
    (hr : (s.print config isStdout).sorted = .written r ∨
      (s.print config isStdout).sorted = .assertFailed r) :
    config.sortOutput = true ∧ r.lines = (rankedLoop config (rankedBlocks config isStdout s) 0).2 := by
  cases h : config.sortOutput
  · simp only [IMemMapVec.print, h, Bool.false_eq_true, ite_false, reduceCtorEq, or_self] at hr
  · rw [print_sorted h] at hr
    refine ⟨rfl, ?_⟩
    split_ifs at hr <;>
      simp only [SortedOutput.written.injEq, SortedOutput.assertFailed.injEq, reduceCtorEq, or_false,
        false_or, or_self] at hr <;>
      subst hr <;> rfl

/-- INTERNAL: every line of a sorted file `print` writes is a block header or the
line of a visited entry.
SOURCE: stf_imem.hpp:599-652 -/
theorem print_sorted_forall {s : IMemMapVec} (Q : SortedLine → Prop)
    (hhead : ∀ c a, Q (.blockHeader c a)) (hitem : ∀ e ∈ visitOrder s, ∀ c, Q (sortedItemLine config e c))
    {r : SortedReport} (hr : (s.print config isStdout).sorted = .written r ∨
      (s.print config isStdout).sorted = .assertFailed r) :
    ∀ l ∈ r.lines, Q l := by
  obtain ⟨h, hlines⟩ := lines_of_sorted config isStdout hr
  rw [hlines]
  exact rankedLoop_forall config Q hhead _ 0 fun b hb e he =>
    hitem e (mem_visitOrder_of_rankedBlocks h isStdout s b hb e he)

/-- INTERNAL: when every visited entry has physical PC 0, so has every entry line of
the footprint and of the sorted file.
SOURCE: stf_imem.hpp:365-412, 414-463 -/
theorem print_physPc_of_visited {s : IMemMapVec} (hs : ∀ e ∈ visitOrder s, e.2.physPc = 0) :
    (∀ pc c w r p o, ImemLine.item pc c w r p o ∈ (s.print config isStdout).imem → p = 0) ∧
    ∀ r, ((s.print config isStdout).sorted = .written r ∨
        (s.print config isStdout).sorted = .assertFailed r) →
      ∀ pc c cum p o h, SortedLine.item pc c cum p o h ∈ r.lines → p = 0 :=
  ⟨fun _ _ _ _ _ _ hl => print_imem_forall config isStdout
      (fun | .item _ _ _ _ p _ => p = 0 | _ => True)
      (fun l _ => by cases l <;> trivial) trivial hs
      _ hl,
    fun _ hr _ _ _ _ _ _ hl => print_sorted_forall config isStdout
      (fun | .item _ _ _ p _ _ => p = 0 | _ => True) (fun _ _ => trivial)
      (fun e he _ => hs e he) hr _ hl⟩

end Lines

/-- For every configuration, every sequence of admitted instructions and every
print configuration: both profilers create each entry with physical PC 0
(stf_imem.hpp:738, 804) and never change it, so every entry line of the
footprint and of the sorted file `print` writes for the final state shows
physical PC 0, which is what `show_physpc` adds to these lines. -/
theorem printed_physPc_zero (config pconfig : STFImemConfig) (isStdout : Bool)
    (evs : List STFInst) :
    let showsPhysPcZero : IMemMapVec → Prop := fun s =>
      (∀ pc c w r p o, ImemLine.item pc c w r p o ∈ (s.print pconfig isStdout).imem → p = 0) ∧
      ∀ r, ((s.print pconfig isStdout).sorted = .written r ∨
          (s.print pconfig isStdout).sorted = .assertFailed r) →
        ∀ pc c cum p o h, SortedLine.item pc c cum p o h ∈ r.lines → p = 0
    showsPhysPcZero (countRun IMem.countImpl config evs (IMemMapVec.init, [])).1 ∧
      showsPhysPcZero (countRun JavaIMem.countImpl config evs (IMemMapVec.init, [])).1 :=
  ⟨print_physPc_of_visited pconfig isStdout (entriesHold_imemCountRun config evs).forall_visitOrder,
    print_physPc_of_visited pconfig isStdout fun e he =>
      ((entriesHold_javaCountRun config evs).forall_visitOrder e he).physPc⟩

end StfTools.Analysis
