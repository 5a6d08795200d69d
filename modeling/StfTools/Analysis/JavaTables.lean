import StfTools.Analysis.Steps
import StfTools.Interface.Footprint

/-!
# The tables of `JavaIMem` record the footprint exactly

Over any run of `JavaIMem::count_impl` the table collection is the footprint of
`StfTools.Interface.Footprint`, with no (PC, opcode) pair lost, counted twice or
held by two tables:

* each pair executed `k ≥ 1` times is held by exactly one table, with count `k`,
  and a pair never executed by none (`javaIMem_holders`);
* the cursor always designates a table, the table it designates after an
  instruction holds that instruction's pair, and there are exactly
  `max 1 m` tables, `m` the largest number of opcodes seen at one PC
  (`javaIMem_tables`).

Both follow from one invariant, `JavaInv`, kept by each outcome of
`java_countImpl_cases`. It reads the tables through three sums over the
collection at a key: how many tables hold the key with a given opcode, their
counts, and how many tables hold the key at all.
-/

set_option autoImplicit false

namespace StfTools.Analysis

open StfTools StfTools.Interface IMemMapVec

/-! ## Reading the tables at one key -/

/-- 1 when the value read carries opcode `op`. -/
def holdsInd (op : UInt32) : Option IMemData → Nat
  | some d => if d.opcode = op then 1 else 0
  | none => 0

@[simp] theorem holdsInd_some (op : UInt32) (d : IMemData) :
    holdsInd op (some d) = if d.opcode = op then 1 else 0 := rfl

/-- The count of the value read, when it carries opcode `op`. -/
def heldCount (op : UInt32) : Option IMemData → Nat
  | some d => if d.opcode = op then d.count else 0
  | none => 0

@[simp] theorem heldCount_some (op : UInt32) (d : IMemData) :
    heldCount op (some d) = if d.opcode = op then d.count else 0 := rfl

/-- 1 when a value is read. -/
def keyInd : Option IMemData → Nat
  | some _ => 1
  | none => 0

/-- The entries stored at `pc` with opcode `op`, one for each table holding one,
in the order of the collection. -/
def holders (ts : List IMemMap) (pc : UInt64) (op : UInt32) : List IMemData :=
  ts.filterMap fun t => (t.find pc).filter (·.opcode == op)

/-- INTERNAL: one holder per table counted by `holdsInd`.
SOURCE: stf_imem.hpp:819-838 -/
theorem length_holders (ts : List IMemMap) (pc : UInt64) (op : UInt32) :
    (holders ts pc op).length = tableSum (holdsInd op) pc ts := by
  induction ts with
  | nil => rfl
  | cons t ts ih =>
    rcases h : t.find pc with _ | d
    · simp [holders, h, holdsInd] at ih ⊢; exact ih
    · by_cases hd : d.opcode = op
      · simp_all [holders, holdsInd, Option.filter]; omega
      · simp_all [holders, holdsInd, Option.filter]

/-- INTERNAL: the holders' counts add up to the sum `heldCount` reads.
SOURCE: stf_imem.hpp:819-838 -/
theorem sum_holders (ts : List IMemMap) (pc : UInt64) (op : UInt32) :
    ((holders ts pc op).map (·.count)).sum = tableSum (heldCount op) pc ts := by
  induction ts with
  | nil => rfl
  | cons t ts ih =>
    rcases h : t.find pc with _ | d
    · simp [holders, h, heldCount] at ih ⊢; exact ih
    · by_cases hd : d.opcode = op <;> simp_all [holders, heldCount, Option.filter]

/-- INTERNAL: a sum over the tables bounds each of its terms.
SOURCE: stf_imem.hpp:325 -/
theorem le_tableSum {g : Option IMemData → Nat} {pc : UInt64} {ts : List IMemMap} {t : IMemMap}
    (ht : t ∈ ts) : g (t.find pc) ≤ tableSum g pc ts := by
  induction ts with
  | nil => simp at ht
  | cons u ts ih =>
    rcases List.mem_cons.mp ht with rfl | ht
    · simp
    · have := ih ht; simp only [tableSum_cons]; omega

/-- INTERNAL: a sum over the tables is zero when each term is.
SOURCE: stf_imem.hpp:325 -/
theorem tableSum_eq_zero {g : Option IMemData → Nat} {pc : UInt64} {ts : List IMemMap}
    (h : ∀ t ∈ ts, g (t.find pc) = 0) : tableSum g pc ts = 0 := by
  induction ts with
  | nil => rfl
  | cons u ts ih =>
    simp only [tableSum_cons, h u (List.mem_cons_self u ts),
      ih fun t ht => h t (List.mem_cons_of_mem u ht)]

/-- INTERNAL: the number of tables holding a key is at most the number of tables,
and equals it when every table holds the key.
SOURCE: stf_imem.hpp:851-854 -/
theorem tableSum_keyInd_le (pc : UInt64) (ts : List IMemMap) :
    tableSum keyInd pc ts ≤ ts.length ∧
      ((∀ t ∈ ts, (t.find pc).isSome) → tableSum keyInd pc ts = ts.length) := by
  induction ts with
  | nil => simp [tableSum]
  | cons t ts ih =>
    obtain ⟨ih1, ih2⟩ := ih
    rcases h : t.find pc with _ | d
    · refine ⟨by simp only [tableSum_cons, h, keyInd, List.length_cons]; omega, fun hall => ?_⟩
      simpa [h] using hall t (List.mem_cons_self t ts)
    · refine ⟨by simp only [tableSum_cons, h, keyInd, List.length_cons]; omega, fun hall => ?_⟩
      simp only [tableSum_cons, h, keyInd, List.length_cons,
        ih2 fun u hu => hall u (List.mem_cons_of_mem t hu)]
      omega

/-! ## What each outcome does to the sums -/

section Outcomes

variable {config : STFImemConfig} {e : STFInst} {s s' : IMemMapVec}

/-- INTERNAL: after a hit in table `i`, a sum over the tables reads the counted
entry where table `i` held the old one.
SOURCE: stf_imem.hpp:807-816, 840-849 -/
theorem JavaHit.tableSum {i : Nat} {t : IMemMap} {cur : IMemData}
    (h : JavaHit config e s s' i t cur) (g : Option IMemData → Nat) (pc : UInt64) :
    tableSum g pc s'.imemMapvec + g (t.find pc) =
      tableSum g pc s.imemMapvec +
        g (if e.pc = pc then some (s.countHit config cur).2 else t.find pc) := by
  have := sum_map_modify (fun u => g (u.find pc))
    (·.modify e.pc fun _ => (s.countHit config cur).2) s.imemMapvec i t h.get
  rw [h.eq]
  simpa [tableSum, h.find] using this

/-- INTERNAL: after an insertion into table `j`, a sum over the tables reads the
new entry where table `j` held nothing.
SOURCE: stf_imem.hpp:850-860 -/
theorem JavaInsert.tableSum {ts : List IMemMap} {j : Nat} {t : IMemMap}
    (h : JavaInsert config e s s' ts j t) (g : Option IMemData → Nat) (hg : g none = 0)
    (pc : UInt64) :
    tableSum g pc s'.imemMapvec + g (t.find pc) =
      tableSum g pc s.imemMapvec + g (if e.pc = pc then
        some (createIMem_ e.pc e 0 (decide (s.instCount < config.warmupCount.toNat))).2
        else t.find pc) := by
  have hts : Analysis.tableSum g pc ts = Analysis.tableSum g pc s.imemMapvec := by
    rw [h.tables]; split_ifs <;> simp [hg]
  have := sum_map_modify (fun u => g (u.find pc))
    (·.insert e.pc (createIMem_ e.pc e 0 (decide (s.instCount < config.warmupCount.toNat))).2)
    ts j t h.get
  rw [h.eq, ← hts]
  simpa [Analysis.tableSum, h.absent] using this

/-- INTERNAL: a hit adds one execution to the collection.
SOURCE: stf_imem.hpp:807-816, 840-849 -/
theorem JavaHit.tablesTotal {i : Nat} {t : IMemMap} {cur : IMemData}
    (h : JavaHit config e s s' i t cur) :
    tablesTotal .count s'.imemMapvec = tablesTotal .count s.imemMapvec + 1 := by
  have hs := sum_map_modify (IMemMap.total .count)
    (·.modify e.pc fun _ => (s.countHit config cur).2) s.imemMapvec i t h.get
  have hm := IMemMap.total_modify h.find (fun _ => (s.countHit config cur).2) .count
  rw [h.eq]
  simp only [IMemData.counter_count, count_countHit] at hm
  simp only [Analysis.tablesTotal, modifyTable_frame, countHit_frame] at hs ⊢
  omega

/-- INTERNAL: an insertion adds one execution to the collection.
SOURCE: stf_imem.hpp:850-860 -/
theorem JavaInsert.tablesTotal {ts : List IMemMap} {j : Nat} {t : IMemMap}
    (h : JavaInsert config e s s' ts j t) :
    tablesTotal .count s'.imemMapvec = tablesTotal .count s.imemMapvec + 1 := by
  have hts : Analysis.tablesTotal .count ts = Analysis.tablesTotal .count s.imemMapvec := by
    rw [h.tables]; split_ifs <;> simp
  have hs := sum_map_modify (IMemMap.total .count)
    (·.insert e.pc (createIMem_ e.pc e 0 (decide (s.instCount < config.warmupCount.toNat))).2)
    ts j t h.get
  have hi := IMemMap.total_insert h.absent
    (createIMem_ e.pc e 0 (decide (s.instCount < config.warmupCount.toNat))).2 .count
  rw [h.eq, ← hts]
  simp only [IMemData.counter_count, createIMem_fields] at hi
  simp only [Analysis.tablesTotal] at hs ⊢
  omega

/-- INTERNAL: after a hit the active table holds the counted entry.
SOURCE: stf_imem.hpp:848 -/
theorem JavaHit.active {i : Nat} {t : IMemMap} {cur : IMemData}
    (h : JavaHit config e s s' i t cur) :
    s'.itv < s'.imemMapvec.length ∧ s'.active.find e.pc = some (s.countHit config cur).2 := by
  have hi := (List.getElem?_eq_some_iff.mp h.get).1
  rw [h.eq]
  refine ⟨by simpa using hi, ?_⟩
  simp [IMemMapVec.active, List.getD_eq_getElem?_getD, List.getElem?_modify, h.get, h.find]

/-- INTERNAL: after an insertion the active table holds the new entry.
SOURCE: stf_imem.hpp:853-859 -/
theorem JavaInsert.active {ts : List IMemMap} {j : Nat} {t : IMemMap}
    (h : JavaInsert config e s s' ts j t) :
    s'.itv < s'.imemMapvec.length ∧ s'.active.find e.pc =
      some (createIMem_ e.pc e 0 (decide (s.instCount < config.warmupCount.toNat))).2 := by
  have hj := (List.getElem?_eq_some_iff.mp h.get).1
  rw [h.eq]
  refine ⟨by simpa using hj, ?_⟩
  simp [IMemMapVec.active, List.getD_eq_getElem?_getD, List.getElem?_modify, h.get, h.absent]

end Outcomes

/-! ## The invariant -/

/-- The tables of a `JavaIMem` state record the footprint of the instructions
counted so far: how many tables hold each (PC, opcode) pair, with which total
count, how many tables hold each PC, and how many tables there are. -/
structure JavaInv (s : IMemMapVec) (seen : List STFInst) : Prop where
  itv_lt : s.itv < s.imemMapvec.length
  holds : ∀ pc op, tableSum (holdsInd op) pc s.imemMapvec = min 1 (occurrences seen pc op)
  counts : ∀ pc op, tableSum (heldCount op) pc s.imemMapvec = occurrences seen pc op
  keys : ∀ pc, tableSum keyInd pc s.imemMapvec = (opcodesAt seen pc).card
  length_le : s.imemMapvec.length ≤ max 1 (maxOpcodesPerPc seen)
  total : tablesTotal .count s.imemMapvec = seen.length

/-- INTERNAL: the constructor's single empty table records the empty footprint.
SOURCE: stf_imem.hpp:491-495 -/
theorem javaInv_init : JavaInv IMemMapVec.init [] where
  itv_lt := by simp [IMemMapVec.init]
  holds _ _ := by simp [IMemMapVec.init, holdsInd]
  counts _ _ := by simp [IMemMapVec.init, heldCount]
  keys _ := by simp [IMemMapVec.init, keyInd]
  length_le := by simp [IMemMapVec.init]
  total := by simp [IMemMapVec.init]

section Preservation

variable {config : STFImemConfig} {e : STFInst} {s s' : IMemMapVec} {seen : List STFInst}

/-- INTERNAL: a (PC, opcode) pair some table holds has occurred.
SOURCE: stf_imem.hpp:802-862 -/
theorem JavaInv.occurrences_pos (hinv : JavaInv s seen) {t : IMemMap} {d : IMemData}
    (ht : t ∈ s.imemMapvec) (hd : t.find e.pc = some d) (hop : d.opcode = e.opcode) :
    0 < occurrences seen e.pc e.opcode := by
  have h1 : holdsInd e.opcode (t.find e.pc) ≤ tableSum (holdsInd e.opcode) e.pc s.imemMapvec :=
    le_tableSum ht
  rw [hinv.holds, hd] at h1
  simp only [holdsInd, hop, if_true] at h1
  omega

/-- INTERNAL: an insertion happens only for a (PC, opcode) pair not seen before.
SOURCE: stf_imem.hpp:819-838, 850-860 -/
theorem JavaInv.occurrences_eq_zero (hinv : JavaInv s seen) {ts : List IMemMap} {j : Nat}
    {t : IMemMap} (h : JavaInsert config e s s' ts j t) : occurrences seen e.pc e.opcode = 0 := by
  have hfree : tableSum (holdsInd e.opcode) e.pc s.imemMapvec = 0 :=
    tableSum_eq_zero fun u hu => by
      rcases hd : u.find e.pc with _ | d
      · rfl
      · simp [holdsInd, h.unheld u hu d hd]
  have := hinv.holds e.pc e.opcode
  omega

/-- INTERNAL: a step that sets the entry of `e.pc` in one table `t` to an entry of
opcode `e.opcode` counting one more execution than `t` held there keeps the
per-(PC, opcode) sums of the invariant.
SOURCE: stf_imem.hpp:807-816, 840-860 -/
theorem JavaInv.sums_step (hinv : JavaInv s seen) {t : IMemMap} {new : IMemData}
    (hsum : ∀ g : Option IMemData → Nat, g none = 0 → ∀ pc,
      tableSum g pc s'.imemMapvec + g (t.find pc) =
        tableSum g pc s.imemMapvec + g (if e.pc = pc then some new else t.find pc))
    (hop : new.opcode = e.opcode) (hold : ∀ d, t.find e.pc = some d → d.opcode = e.opcode)
    (hcount : new.count = heldCount e.opcode (t.find e.pc) + 1)
    (hheld : holdsInd e.opcode (t.find e.pc) = min 1 (occurrences seen e.pc e.opcode)) :
    (∀ pc op, tableSum (holdsInd op) pc s'.imemMapvec = min 1 (occurrences (seen ++ [e]) pc op)) ∧
      ∀ pc op, tableSum (heldCount op) pc s'.imemMapvec = occurrences (seen ++ [e]) pc op := by
  -- an opcode other than `e.opcode` is neither held at `e.pc` before nor after
  have hother : ∀ op, e.opcode ≠ op →
      holdsInd op (t.find e.pc) = 0 ∧ heldCount op (t.find e.pc) = 0 := fun op hne => by
    rcases hd : t.find e.pc with _ | d
    · exact ⟨rfl, rfl⟩
    · simp [holdsInd, heldCount, hold d hd, hne]
  refine ⟨fun pc op => ?_, fun pc op => ?_⟩ <;> rw [occurrences_append_singleton]
  · have hs := hsum (holdsInd op) rfl pc
    have hh := hinv.holds pc op
    by_cases hpc : e.pc = pc
    · subst hpc
      by_cases hne : e.opcode = op
      · subst hne; simp only [if_true, holdsInd_some, hop, and_self] at hs ⊢; omega
      · simp only [if_true, holdsInd_some, hop, hne, if_false, and_false] at hs ⊢
        have := (hother op hne).1; omega
    · simp only [hpc, if_false, false_and] at hs ⊢; omega
  · have hs := hsum (heldCount op) rfl pc
    have hh := hinv.counts pc op
    by_cases hpc : e.pc = pc
    · subst hpc
      by_cases hne : e.opcode = op
      · subst hne; simp only [if_true, heldCount_some, hop, hcount, and_self] at hs ⊢; omega
      · simp only [if_true, heldCount_some, hop, hne, if_false, and_false] at hs ⊢
        have := (hother op hne).2; omega
    · simp only [hpc, if_false, false_and] at hs ⊢; omega

/-- INTERNAL: a hit keeps the invariant.
SOURCE: stf_imem.hpp:807-816, 840-849 -/
theorem JavaInv.hit (hinv : JavaInv s seen) {i : Nat} {t : IMemMap} {cur : IMemData}
    (h : JavaHit config e s s' i t cur) : JavaInv s' (seen ++ [e]) := by
  have ht : t ∈ s.imemMapvec := List.mem_iff_getElem?.mpr ⟨i, h.get⟩
  have hpos := hinv.occurrences_pos ht h.find h.opcode
  have hlen : s'.imemMapvec.length = s.imemMapvec.length := by rw [h.eq]; simp
  obtain ⟨hholds, hcounts⟩ := hinv.sums_step (fun g _ => h.tableSum g) (by simp [h.opcode])
    (by simp [h.find, h.opcode]) (by simp [h.find, heldCount, h.opcode])
    (by simp only [h.find, holdsInd, h.opcode, if_true]; omega)
  refine ⟨(h.active).1, hholds, hcounts, fun pc => ?_, ?_, ?_⟩
  · have hs := h.tableSum keyInd pc
    have hh := hinv.keys pc
    rw [opcodesAt_append_singleton]
    by_cases hpc : e.pc = pc
    · subst hpc
      have hmem : e.opcode ∈ opcodesAt seen e.pc := (mem_opcodesAt _ _ _).mpr hpos
      simp only [if_true, h.find, keyInd, Finset.insert_eq_of_mem hmem] at hs ⊢; omega
    · simp only [hpc, if_false] at hs ⊢; omega
  · rw [hlen]; exact hinv.length_le.trans (max_le_max le_rfl (maxOpcodesPerPc_le_append seen e))
  · rw [h.tablesTotal, hinv.total]; simp

/-- INTERNAL: an insertion keeps the invariant; the collection grows only when
every table held the PC, and then the PC carries one opcode per table.
SOURCE: stf_imem.hpp:850-860 -/
theorem JavaInv.insert (hinv : JavaInv s seen) {ts : List IMemMap} {j : Nat} {t : IMemMap}
    (h : JavaInsert config e s s' ts j t) : JavaInv s' (seen ++ [e]) := by
  have hocc := hinv.occurrences_eq_zero h
  have hnm : e.opcode ∉ opcodesAt seen e.pc := by rw [mem_opcodesAt]; omega
  obtain ⟨hholds, hcounts⟩ := hinv.sums_step (h.tableSum · ·) (createIMem_fields _ _ _ _).2.1
    (by simp [h.absent]) (by simp [h.absent, heldCount]) (by simp [h.absent, holdsInd, hocc])
  refine ⟨(h.active).1, hholds, hcounts, fun pc => ?_, ?_, ?_⟩
  · have hs := h.tableSum keyInd rfl pc
    have hh := hinv.keys pc
    rw [opcodesAt_append_singleton]
    by_cases hpc : e.pc = pc
    · subst hpc
      simp only [if_true, h.absent, keyInd, Finset.card_insert_of_not_mem hnm] at hs ⊢; omega
    · simp only [hpc, if_false] at hs ⊢; omega
  · have hlen : s'.imemMapvec.length = ts.length := by rw [h.eq]; simp
    have hmono := maxOpcodesPerPc_le_append seen e
    rw [hlen, h.tables]
    split_ifs with hall
    · have hk := (tableSum_keyInd_le e.pc s.imemMapvec).2 hall
      have hcard := card_opcodesAt_le (seen ++ [e]) e.pc
      rw [opcodesAt_append_singleton, if_pos rfl, Finset.card_insert_of_not_mem hnm,
        ← hinv.keys, hk] at hcard
      simp only [List.length_cons]; omega
    · exact hinv.length_le.trans (max_le_max le_rfl hmono)
  · rw [h.tablesTotal, hinv.total]; simp

end Preservation

/-! ## Runs -/

/-- INTERNAL: the invariant does not read `inst_count_`.
SOURCE: stf_imem.hpp:701 -/
theorem JavaInv.setInstCount {s : IMemMapVec} {seen : List STFInst} (h : JavaInv s seen) (n : Nat) :
    JavaInv { s with instCount := n } seen :=
  ⟨h.itv_lt, h.holds, h.counts, h.keys, h.length_le, h.total⟩

/-- INTERNAL: `JavaIMem::count_impl` leaves `inst_count_` to `processTrace_`.
SOURCE: stf_imem.hpp:802-862 -/
@[simp] theorem java_countImpl_instCount (config : STFImemConfig) (inst : STFInst)
    (s : IMemMapVec) : (JavaIMem.countImpl config inst s).1.instCount = s.instCount := by
  have hslow : (JavaIMem.slowPath config inst s).instCount = s.instCount := by
    unfold JavaIMem.slowPath
    dsimp only
    generalize searchMaps inst.pc inst.opcode s.imemMapvec 0 none = r
    rcases r with ⟨_ | ⟨i, cur⟩, _ | j⟩
    · simp [modifyTable]
    · by_cases ha : (s.active.find inst.pc).isSome <;> simp [modifyTable, ha]
    · simp [modifyTable]
    · simp [modifyTable]
  unfold JavaIMem.countImpl
  split
  · split <;> simp [hslow]
  · exact hslow

/-- INTERNAL: one `countStep` of `JavaIMem` keeps the invariant and leaves the
active table holding the instruction's (PC, opcode).
SOURCE: stf_imem.hpp:699-701, 802-862 -/
theorem JavaInv.countStep {r : IMemMapVec × List Diag} {seen : List STFInst}
    (hinv : JavaInv r.1 seen) (config : STFImemConfig) (e : STFInst) :
    JavaInv (countStep JavaIMem.countImpl config e r).1 (seen ++ [e]) ∧
      ∃ d, (countStep JavaIMem.countImpl config e r).1.active.find e.pc = some d ∧
        d.opcode = e.opcode := by
  rcases (java_countImpl_cases config e r.1 hinv.itv_lt).2 with ⟨i, t, cur, h⟩ | ⟨ts, j, t, h⟩
  · exact ⟨(hinv.hit h).setInstCount _, _, h.active.2, by simp [h.opcode]⟩
  · exact ⟨(hinv.insert h).setInstCount _, _, h.active.2, by simp⟩

/-- INTERNAL: every run of `JavaIMem` from the constructor keeps the invariant.
SOURCE: stf_imem.hpp:673-706 -/
theorem javaInv_countRun (config : STFImemConfig) (evs : List STFInst) :
    JavaInv (countRun JavaIMem.countImpl config evs (IMemMapVec.init, [])).1 evs := by
  simpa using countRun_inv JavaIMem.countImpl config (fun r seen => JavaInv r.1 seen)
    (fun _ _ e hinv => (hinv.countStep config e).1) evs _ [] javaInv_init

/-- For every sequence of admitted instructions, `JavaIMem` ends with each
(PC, opcode) pair executed `k ≥ 1` times held by exactly one table, with count
`k`, and a pair never executed held by none; so the counts over all tables add up
to `inst_count_`. -/
theorem javaIMem_holders (config : STFImemConfig) (evs : List STFInst) (pc : UInt64)
    (op : UInt32) :
    let s := (countRun JavaIMem.countImpl config evs (IMemMapVec.init, [])).1
    (occurrences evs pc op = 0 → holders s.imemMapvec pc op = []) ∧
    (0 < occurrences evs pc op →
      ∃ d, holders s.imemMapvec pc op = [d] ∧ d.count = occurrences evs pc op) ∧
    tablesTotal .count s.imemMapvec = s.instCount := by
  intro s
  have hinv := javaInv_countRun config evs
  have hlen := length_holders s.imemMapvec pc op
  have hsum := sum_holders s.imemMapvec pc op
  rw [hinv.holds] at hlen
  rw [hinv.counts] at hsum
  refine ⟨fun h0 => ?_, fun hpos => ?_, ?_⟩
  · rw [h0] at hlen; exact List.length_eq_zero.mp hlen
  · rw [Nat.min_eq_left hpos] at hlen
    obtain ⟨d, hd⟩ := List.length_eq_one.mp hlen
    exact ⟨d, hd, by simpa [hd] using hsum⟩
  · rw [hinv.total, countRun_instCount java_countImpl_instCount]; simp [IMemMapVec.init]

/-- For every sequence of admitted instructions, the cursor of `JavaIMem`
designates one of its tables, the table it designates after an instruction holds
that instruction's (PC, opcode), and the number of tables is `max 1 m`, `m` the
largest number of different opcodes seen at a single PC. -/
theorem javaIMem_tables (config : STFImemConfig) (evs : List STFInst) :
    let s := (countRun JavaIMem.countImpl config evs (IMemMapVec.init, [])).1
    s.itv < s.imemMapvec.length ∧ s.imemMapvec.length = max 1 (maxOpcodesPerPc evs) ∧
    ∀ seen e, evs = seen ++ [e] → ∃ d, s.active.find e.pc = some d ∧ d.opcode = e.opcode := by
  intro s
  have hinv := javaInv_countRun config evs
  refine ⟨hinv.itv_lt, le_antisymm hinv.length_le (max_le (Nat.lt_of_le_of_lt (Nat.zero_le _) hinv.itv_lt)
    (maxOpcodesPerPc_le fun pc => ?_)), fun seen e he => ?_⟩
  · rw [← hinv.keys]; exact (tableSum_keyInd_le pc _).1
  · subst he
    have hstep := (javaInv_countRun config seen).countStep config e
    simpa [s, countRun_append, countRun] using hstep.2

end StfTools.Analysis
