import StfTools.Analysis.IMemRuns
import StfTools.Analysis.EntryHistory

/-!
# The local histories of `IMem`

`IMem::count_impl` advances the local history of the entry it counts: a load or a
store records the stride from the entry's previous address (`nextStride`), a taken
branch that is neither records its outcome (`nextBranchHistory`), and any other
instruction records nothing (stf_imem.hpp:776-780). The creation path starts the
histories the same way from the first instruction (stf_imem.hpp:757-766).

Two layers meet here. The first says what a history holds in terms of the
instructions counted into its entry: the strides between the addresses of its
loads and stores (`StrideHolds`, from `Analysis.EntryHistory`), and one set bit
per taken branch (`BranchHolds`), each a ring of `MAX_LHIST_` slots
(`Interface.RingHolds`). The second is an
invariant of `IMem` runs (`HistInv`): the instructions counted into an entry are
those of its PC with its opcode, the first of them created it, and its history is
the one the history update builds from them in order. Together they describe the
histories of every entry after any run (`imem_stride_history`,
`imem_branch_history`): the address of an access is its last one, and a
not-taken branch is not recorded. The invariant also says which PCs the table
holds, and with which opcode (`imem_table_keys`).
-/

set_option autoImplicit false

namespace StfTools.Analysis

open StfTools IMemMapVec Interface

/-! ## What the histories hold -/

/-- The instructions whose history update records a stride: loads and stores
(stf_imem.hpp:776-777). -/
def recordsStride (inst : STFInst) : Bool := inst.isLoad || inst.isStore

/-- The instructions whose history update records a branch outcome: taken branches
that are neither loads nor stores (stf_imem.hpp:778-779). -/
def recordsBranch (inst : STFInst) : Bool := !recordsStride inst && inst.isTakenBranch

/-- The branch history of an entry has recorded `m` taken branches: the entry is a
branch exactly when `m > 0`, and its ring holds `m` set bits. -/
structure BranchHolds (d : IMemData) (m : Nat) : Prop where
  branch : d.isBranch = decide (0 < m)
  ring : RingHolds MAX_LHIST_ false d.branchLhr d.branchLhrIdx (List.replicate m true)

/-! ## One history update -/

/-- INTERNAL: a history update records the address of a load or store, and leaves
the stride history of any other instruction.
SOURCE: stf_imem.hpp:194-198, 776-780 -/
theorem StrideHolds.step {d : IMemData} {a₀ : UInt64} {as : List UInt64}
    (h : StrideHolds d a₀ as) (inst : STFInst) :
    StrideHolds (historyStep inst d) a₀
      (if recordsStride inst then as ++ [memAddr inst] else as) := by
  unfold historyStep
  by_cases hs : recordsStride inst = true
  · rw [if_pos hs, if_pos (show (inst.isLoad || inst.isStore) = true from hs)]
    exact h.nextStride _
  · rw [if_neg hs, if_neg (show ¬(inst.isLoad || inst.isStore) = true from hs)]
    split_ifs
    exacts [h.nextBranchHistory _, h]

/-- INTERNAL: a history update records a set bit for a taken branch that is
neither a load nor a store, and leaves the branch history of any other
instruction.
SOURCE: stf_imem.hpp:203-215, 776-780 -/
theorem BranchHolds.step {d : IMemData} {m : Nat} (h : BranchHolds d m) (inst : STFInst) :
    BranchHolds (historyStep inst d) (m + if recordsBranch inst then 1 else 0) := by
  unfold historyStep
  by_cases hs : (inst.isLoad || inst.isStore) = true
  · have hb : recordsBranch inst = false := by simp [recordsBranch, recordsStride, hs]
    rw [if_pos hs, hb]
    exact ⟨h.branch, h.ring⟩
  · by_cases ht : inst.isTakenBranch = true
    · have hb : recordsBranch inst = true := by simp [recordsBranch, recordsStride, hs, ht]
      rw [if_neg hs, if_pos ht, hb, if_pos rfl, ht]
      refine ⟨by simp [IMemData.nextBranchHistory], ?_⟩
      rw [List.replicate_succ']
      exact nextBranchHistory_ring h.ring true
    · have hb : recordsBranch inst = false := by simp [recordsBranch, ht]
      rw [if_neg hs, if_neg ht, hb]
      exact h

/-- INTERNAL: the history updates of a sequence of instructions record the
addresses of its loads and stores.
SOURCE: stf_imem.hpp:776-780 -/
theorem strideHolds_foldl : ∀ (rest : List STFInst) {d : IMemData} {a₀ : UInt64}
    {as : List UInt64}, StrideHolds d a₀ as →
      StrideHolds (rest.foldl (fun d inst => historyStep inst d) d) a₀
        (as ++ (rest.filter recordsStride).map memAddr)
  | [], _, _, _, h => by simpa using h
  | inst :: rest, _, _, _, h => by
    have := strideHolds_foldl rest (h.step inst)
    by_cases hs : recordsStride inst = true <;> simpa [List.filter_cons, hs] using this

/-- INTERNAL: the history updates of a sequence of instructions record its taken
branches that are neither loads nor stores.
SOURCE: stf_imem.hpp:776-780 -/
theorem branchHolds_foldl : ∀ (rest : List STFInst) {d : IMemData} {m : Nat},
    BranchHolds d m →
      BranchHolds (rest.foldl (fun d inst => historyStep inst d) d)
        (m + (rest.filter recordsBranch).length)
  | [], _, _, h => h
  | inst :: rest, _, _, h => by
    have := branchHolds_foldl rest (h.step inst)
    by_cases hb : recordsBranch inst = true <;>
      simpa [List.filter_cons, hb, Nat.add_assoc, Nat.add_comm 1] using this

/-- INTERNAL: the entry created for a load or store holds its address and no
stride.
SOURCE: stf_imem.hpp:89-106, 757-759 -/
theorem strideHolds_newEntry {inst : STFInst} (h : recordsStride inst = true) (w : Bool) :
    StrideHolds (IMem.newEntry inst w).2 (memAddr inst) [] := by
  simp only [IMem.newEntry, show (inst.isLoad || inst.isStore) = true from h, if_true,
    createIMemAddr_, IMemData.make, Bool.false_eq_true, if_false]
  exact ⟨rfl, rfl, ringHolds_replicate _ _⟩

/-- INTERNAL: the entry created for an instruction holds one set bit when it is a
taken branch and neither a load nor a store, and none otherwise.
SOURCE: stf_imem.hpp:89-106, 757-766 -/
theorem branchHolds_newEntry (inst : STFInst) (w : Bool) :
    BranchHolds (IMem.newEntry inst w).2 (if recordsBranch inst then 1 else 0) := by
  by_cases hs : (inst.isLoad || inst.isStore) = true
  · have hb : recordsBranch inst = false := by simp [recordsBranch, recordsStride, hs]
    simp only [IMem.newEntry, hs, if_true, hb, createIMemAddr_, IMemData.make,
      Bool.false_eq_true, if_false]
    exact ⟨rfl, ringHolds_replicate _ _⟩
  · by_cases ht : inst.isTakenBranch = true
    · have hb : recordsBranch inst = true := by simp [recordsBranch, recordsStride, hs, ht]
      simp only [IMem.newEntry, hs, ht, hb, if_true, Bool.false_eq_true, if_false,
        createIMemBranch_, IMemData.make]
      exact ⟨rfl, nextBranchHistory_ring (ringHolds_replicate _ _) true⟩
    · have hb : recordsBranch inst = false := by simp [recordsBranch, ht]
      simp only [IMem.newEntry, hs, ht, hb, Bool.false_eq_true, if_false, createIMem_,
        IMemData.make]
      exact ⟨rfl, ringHolds_replicate _ _⟩

/-! ## The entries of an `IMem` run -/

/-- The fields of an entry that its history updates write. -/
structure LocalState where
  isLoadstore : Bool
  lastAddress : UInt64
  recentStrides : List Int
  recentStridesIdx : Nat
  isBranch : Bool
  branchLhr : List Bool
  branchLhrIdx : Nat

/-- The history fields of an entry. -/
def LocalState.of (d : IMemData) : LocalState :=
  ⟨d.isLoadstore, d.lastAddress, d.recentStrides, d.recentStridesIdx, d.isBranch, d.branchLhr,
    d.branchLhrIdx⟩

/-- The entry the history updates build from the instructions `first :: rest`
counted into it: created by `first`, then updated by each of `rest` in order. -/
def builtEntry (first : STFInst) (rest : List STFInst) : IMemData :=
  rest.foldl (fun d inst => historyStep inst d) (IMem.newEntry first false).2

/-- The instructions of `seen` at `pc` with opcode `op`: those counted into the
entry of `pc` when it carries `op`. -/
def countedInto (pc : UInt64) (op : UInt32) (seen : List STFInst) : List STFInst :=
  seen.filter fun inst => inst.pc == pc && inst.opcode == op

/-- The entry `d` at `pc` has the history its instructions build: they are the
instructions of `seen` at `pc` with its opcode, the first of them is the first
instruction of `seen` at `pc`, and `d`'s history fields are those of the entry
they build. -/
def EntryHist (seen : List STFInst) (pc : UInt64) (d : IMemData) : Prop :=
  ∃ first rest, countedInto pc d.opcode seen = first :: rest ∧
    seen.find? (fun inst => inst.pc == pc) = some first ∧
    LocalState.of d = LocalState.of (builtEntry first rest)

/-- INTERNAL: the increments of a match path leave the history fields.
SOURCE: stf_imem.hpp:769-775 -/
theorem localState_countHit (config : STFImemConfig) (s : IMemMapVec) (d : IMemData) :
    LocalState.of (s.countHit config d).2 = LocalState.of d := by
  rw [countHit_snd]; split_ifs <;> rfl

/-- INTERNAL: a history update reads only the history fields.
SOURCE: stf_imem.hpp:776-780 -/
theorem localState_historyStep {d d' : IMemData} (h : LocalState.of d = LocalState.of d')
    (inst : STFInst) : LocalState.of (historyStep inst d) = LocalState.of (historyStep inst d') := by
  cases d; cases d'
  simp only [LocalState.of, LocalState.mk.injEq] at h
  obtain ⟨rfl, rfl, rfl, rfl, rfl, rfl, rfl⟩ := h
  unfold historyStep
  split_ifs <;> rfl

/-- INTERNAL: the history of a new entry does not depend on the warm-up window.
SOURCE: stf_imem.hpp:89-106 -/
theorem localState_newEntry (inst : STFInst) (w : Bool) :
    LocalState.of (IMem.newEntry inst w).2 = LocalState.of (IMem.newEntry inst false).2 := by
  unfold IMem.newEntry createIMemAddr_ createIMemBranch_ createIMem_ IMemData.make
  split_ifs <;> rfl

/-- INTERNAL: the recorded histories depend only on the history fields.
SOURCE: stf_imem.hpp:776-780 -/
theorem StrideHolds.of_localState {d d' : IMemData} {a₀ : UInt64} {as : List UInt64}
    (h : LocalState.of d = LocalState.of d') (hs : StrideHolds d' a₀ as) : StrideHolds d a₀ as := by
  simp only [LocalState.of, LocalState.mk.injEq] at h
  obtain ⟨h1, h2, h3, h4, -⟩ := h
  exact ⟨h1 ▸ hs.loadstore, h2 ▸ hs.last, h3 ▸ h4 ▸ hs.ring⟩

/-- INTERNAL: the recorded histories depend only on the history fields.
SOURCE: stf_imem.hpp:776-780 -/
theorem BranchHolds.of_localState {d d' : IMemData} {m : Nat}
    (h : LocalState.of d = LocalState.of d') (hb : BranchHolds d' m) : BranchHolds d m := by
  simp only [LocalState.of, LocalState.mk.injEq] at h
  obtain ⟨-, -, -, -, h5, h6, h7⟩ := h
  exact ⟨h5 ▸ hb.branch, h6 ▸ h7 ▸ hb.ring⟩

/-- INTERNAL: the instructions counted into an entry after one more.
SOURCE: stf_imem.hpp:757-791 -/
theorem countedInto_append_singleton (pc : UInt64) (op : UInt32) (seen : List STFInst)
    (inst : STFInst) :
    countedInto pc op (seen ++ [inst]) =
      countedInto pc op seen ++ if inst.pc = pc ∧ inst.opcode = op then [inst] else [] := by
  by_cases h : inst.pc = pc ∧ inst.opcode = op <;> simp [countedInto, List.filter_append, h]

/-- INTERNAL: an instruction not counted into an entry leaves its history.
SOURCE: stf_imem.hpp:757-791 -/
theorem EntryHist.append_other {seen : List STFInst} {pc : UInt64} {d : IMemData}
    (h : EntryHist seen pc d) {inst : STFInst} (hi : ¬(inst.pc = pc ∧ inst.opcode = d.opcode)) :
    EntryHist (seen ++ [inst]) pc d := by
  obtain ⟨first, rest, hc, hf, hl⟩ := h
  refine ⟨first, rest, ?_, by rw [List.find?_append, hf]; rfl, hl⟩
  rw [countedInto_append_singleton, if_neg hi, hc, List.append_nil]

/-- INTERNAL: an instruction counted into an entry extends its history by one
update.
SOURCE: stf_imem.hpp:769-780 -/
theorem EntryHist.append_counted {seen : List STFInst} {pc : UInt64} {d : IMemData}
    (h : EntryHist seen pc d) {inst : STFInst} (hpc : inst.pc = pc) (hop : inst.opcode = d.opcode)
    {d' : IMemData} (hl' : LocalState.of d' = LocalState.of d) (ho : d'.opcode = d.opcode) :
    EntryHist (seen ++ [inst]) pc (historyStep inst d') := by
  obtain ⟨first, rest, hc, hf, hl⟩ := h
  refine ⟨first, rest ++ [inst], ?_, by rw [List.find?_append, hf]; rfl, ?_⟩
  · rw [opcode_historyStep, ho, countedInto_append_singleton, if_pos ⟨hpc, hop⟩, hc]; rfl
  · rw [localState_historyStep (hl'.trans hl)]
    simp only [builtEntry, List.foldl_append, List.foldl_cons, List.foldl_nil]

/-- INTERNAL: the entry created for the first instruction at a PC has its history.
SOURCE: stf_imem.hpp:757-766 -/
theorem entryHist_newEntry {seen : List STFInst} {inst : STFInst}
    (hnone : ∀ x ∈ seen, x.pc ≠ inst.pc) (w : Bool) :
    EntryHist (seen ++ [inst]) inst.pc (IMem.newEntry inst w).2 := by
  have hc : countedInto inst.pc inst.opcode seen = [] :=
    List.filter_eq_nil_iff.mpr fun x hx => by simp [hnone x hx]
  refine ⟨inst, [], ?_, ?_, localState_newEntry inst w⟩
  · rw [IMem.newEntry_opcode, countedInto_append_singleton, hc, if_pos ⟨rfl, rfl⟩]; rfl
  · rw [List.find?_append, List.find?_eq_none.mpr fun x hx => by simp [hnone x hx]]; simp

/-- INTERNAL: updating the table the cursor designates updates the active table.
SOURCE: stf_imem.hpp:760-780 -/
theorem active_modifyTable_itv {s : IMemMapVec} (hs : s.itv < s.imemMapvec.length)
    (f : IMemMap → IMemMap) :
    (s.modifyTable s.itv f).itv < (s.modifyTable s.itv f).imemMapvec.length ∧
      (s.modifyTable s.itv f).active = f s.active := by
  refine ⟨by simpa [modifyTable] using hs, ?_⟩
  show (s.imemMapvec.modify f s.itv).getD s.itv IMemMap.empty = f s.active
  rw [List.getD_eq_getElem?_getD, List.getElem?_modify, getElem?_itv hs]; simp

/-- INTERNAL: the three outcomes of one `IMem` step on the active table: the new
entry inserted, the counted entry updated, or nothing changed.
SOURCE: stf_imem.hpp:699-701, 757-791 -/
theorem imem_countStep_active (config : STFImemConfig) (inst : STFInst)
    {r : IMemMapVec × List Diag} (hs : r.1.itv < r.1.imemMapvec.length) :
    (countStep IMem.countImpl config inst r).1.itv <
        (countStep IMem.countImpl config inst r).1.imemMapvec.length ∧
      ((r.1.active.find inst.pc = none ∧ (countStep IMem.countImpl config inst r).1.active =
          r.1.active.insert inst.pc
            (IMem.newEntry inst (decide (r.1.instCount < config.warmupCount.toNat))).2) ∨
        (∃ cur, r.1.active.find inst.pc = some cur ∧ cur.opcode = inst.opcode ∧
          (countStep IMem.countImpl config inst r).1.active =
            r.1.active.modify inst.pc fun _ => historyStep inst (r.1.countHit config cur).2) ∨
        (∃ cur, r.1.active.find inst.pc = some cur ∧ cur.opcode ≠ inst.opcode ∧
          (countStep IMem.countImpl config inst r).1.active = r.1.active)) := by
  rcases imem_countImpl_cases config inst r.1 with ⟨hf, h⟩ | ⟨cur, hf, hop, h⟩ | ⟨cur, hf, hop, h⟩
  · have ha := active_modifyTable_itv hs (·.insert inst.pc
      (IMem.newEntry inst (decide (r.1.instCount < config.warmupCount.toNat))).2)
    simp only [countStep, h]
    exact ⟨ha.1, .inl ⟨hf, ha.2⟩⟩
  · obtain ⟨hm, hi, -⟩ := countHit_frame config r.1 cur
    have hs' : (r.1.countHit config cur).1.itv < (r.1.countHit config cur).1.imemMapvec.length := by
      rwa [hm, hi]
    have ha := active_modifyTable_itv hs'
      (·.modify inst.pc fun _ => historyStep inst (r.1.countHit config cur).2)
    have hact : (r.1.countHit config cur).1.active = r.1.active := by simp [active, hm, hi]
    simp only [countStep, h]
    rw [← hi]
    exact ⟨ha.1, .inr (.inl ⟨cur, hf, hop, ha.2.trans (by rw [hact])⟩)⟩
  · simp only [countStep, h]
    exact ⟨hs, .inr (.inr ⟨cur, hf, hop, rfl⟩)⟩

/-- The state of an `IMem` run after the instructions `seen`: the cursor designates
a table, every PC seen has an entry in it, and every entry has the history its
instructions build. -/
structure HistInv (r : IMemMapVec × List Diag) (seen : List STFInst) : Prop where
  itv_lt : r.1.itv < r.1.imemMapvec.length
  keyed : ∀ inst ∈ seen, (r.1.active.find inst.pc).isSome
  entries : ∀ pc d, r.1.active.find pc = some d → EntryHist seen pc d

/-- INTERNAL: the constructor's state has no entry.
SOURCE: stf_imem.hpp:491-495 -/
theorem histInv_init : HistInv (IMemMapVec.init, []) [] :=
  ⟨Nat.zero_lt_one, fun _ h => absurd h (List.not_mem_nil _), fun _ _ h => by
    simp [IMemMapVec.init, active] at h⟩

/-- INTERNAL: one `IMem` step keeps every key of the active table and adds the
instruction's PC.
SOURCE: stf_imem.hpp:757-791 -/
theorem imem_countStep_keys (config : STFImemConfig) (inst : STFInst)
    {r : IMemMapVec × List Diag} (hs : r.1.itv < r.1.imemMapvec.length) :
    (∀ pc, (r.1.active.find pc).isSome →
      ((countStep IMem.countImpl config inst r).1.active.find pc).isSome) ∧
      ((countStep IMem.countImpl config inst r).1.active.find inst.pc).isSome := by
  rcases (imem_countStep_active config inst hs).2 with ⟨hf, hact⟩ | ⟨cur, hf, -, hact⟩ |
    ⟨cur, hf, -, hact⟩ <;> rw [hact]
  · refine ⟨fun pc hpc => ?_, by simp [hf]⟩
    rw [IMemMap.find_insert_of_find_eq_none hf]; split_ifs <;> simp [hpc]
  · refine ⟨fun pc hpc => ?_, by simp [hf]⟩
    rw [IMemMap.find_modify]; split_ifs <;> simp [hpc, hf]
  · exact ⟨fun _ h => h, by simp [hf]⟩

/-- INTERNAL: **the entry rule of `IMem`.** A property of an entry, read against
the instructions seen, that every entry of the active table has, has every entry
after one more step, when an instruction not counted into an entry keeps it,
counting an instruction gives it, and the entry created for the first instruction
at a PC has it.
SOURCE: stf_imem.hpp:699-701, 736-792 -/
theorem HistInv.entries_countStep {r : IMemMapVec × List Diag} {seen : List STFInst}
    (h : HistInv r seen) (config : STFImemConfig) (inst : STFInst)
    {P : List STFInst → UInt64 → IMemData → Prop}
    (hP : ∀ pc d, r.1.active.find pc = some d → P seen pc d)
    (other : ∀ pc d, P seen pc d → ¬(inst.pc = pc ∧ inst.opcode = d.opcode) →
      P (seen ++ [inst]) pc d)
    (hit : ∀ cur, r.1.active.find inst.pc = some cur → cur.opcode = inst.opcode →
      P (seen ++ [inst]) inst.pc (historyStep inst (r.1.countHit config cur).2))
    (new : (∀ x ∈ seen, x.pc ≠ inst.pc) → P (seen ++ [inst]) inst.pc
      (IMem.newEntry inst (decide (r.1.instCount < config.warmupCount.toNat))).2) :
    ∀ pc d, (countStep IMem.countImpl config inst r).1.active.find pc = some d →
      P (seen ++ [inst]) pc d := by
  intro pc d hd
  rcases (imem_countStep_active config inst h.itv_lt).2 with ⟨hf, hact⟩ | ⟨cur, hf, hop, hact⟩ |
    ⟨cur, hf, hop, hact⟩
  · -- a new entry
    rw [hact, IMemMap.find_insert_of_find_eq_none hf] at hd
    split_ifs at hd with hpc
    · cases hd; subst hpc
      exact new fun x hx he => by simpa [he, hf] using h.keyed x hx
    · exact other pc d (hP pc d hd) fun hi => hpc hi.1
  · -- a counted entry
    rw [hact, IMemMap.find_modify] at hd
    split_ifs at hd with hpc
    · subst hpc; rw [hf] at hd; cases hd; exact hit cur hf hop
    · exact other pc d (hP pc d hd) fun hi => hpc hi.1
  · -- a warning, nothing counted
    rw [hact] at hd
    refine other pc d (hP pc d hd) fun ⟨hpc, hop'⟩ => hop ?_
    subst hpc; rw [hf] at hd; cases hd; exact hop'.symm

/-- INTERNAL: one `countStep` of `IMem` keeps the invariant.
SOURCE: stf_imem.hpp:699-701, 736-792 -/
theorem HistInv.countStep {r : IMemMapVec × List Diag} {seen : List STFInst}
    (h : HistInv r seen) (config : STFImemConfig) (inst : STFInst) :
    HistInv (countStep IMem.countImpl config inst r) (seen ++ [inst]) := by
  obtain ⟨hgrow, hnew⟩ := imem_countStep_keys config inst h.itv_lt
  refine ⟨(imem_countStep_active config inst h.itv_lt).1, fun x hx => ?_,
    h.entries_countStep config inst h.entries (fun _ _ hd hi => hd.append_other hi)
      (fun cur hf hop => (h.entries _ cur hf).append_counted rfl hop.symm
        (localState_countHit config r.1 cur) (opcode_countHit config r.1 cur))
      fun hnone => entryHist_newEntry hnone _⟩
  rcases List.mem_append.mp hx with hx | hx
  · exact hgrow _ (h.keyed x hx)
  · rw [List.mem_singleton.mp hx]; exact hnew

/-- INTERNAL: every `IMem` run from the constructor's state keeps the invariant.
SOURCE: stf_imem.hpp:673-706 -/
theorem histInv_countRun (config : STFImemConfig) (evs : List STFInst) :
    HistInv (countRun IMem.countImpl config evs (IMemMapVec.init, [])) evs := by
  simpa using countRun_inv IMem.countImpl config HistInv (fun _ _ e h => h.countStep config e)
    evs _ [] histInv_init

/-! ## The keys of the table -/

/-- INTERNAL: an entry's first instruction is admitted, at the entry's PC, before
any other there, and has the entry's opcode.
SOURCE: stf_imem.hpp:757-766 -/
theorem HistInv.find_first {r : IMemMapVec × List Diag} {seen : List STFInst} (h : HistInv r seen)
    {pc : UInt64} {d : IMemData} (hd : r.1.active.find pc = some d) :
    ∃ first ∈ seen, first.pc = pc ∧ seen.find? (fun inst => inst.pc == pc) = some first ∧
      first.opcode = d.opcode := by
  obtain ⟨first, rest, hc, hf, -⟩ := h.entries pc d hd
  have hp := List.mem_filter.mp
    (hc ▸ List.mem_cons_self first rest : first ∈ countedInto pc d.opcode seen)
  simp only [Bool.and_eq_true, beq_iff_eq] at hp
  exact ⟨first, hp.1, hp.2.1, hf, hp.2.2⟩

/-- For every configuration and every sequence of admitted instructions, `IMem`'s
table has an entry at exactly the PCs of the admitted instructions, and each
entry has the opcode of the first admitted instruction at its PC. -/
theorem imem_table_keys (config : STFImemConfig) (evs : List STFInst) :
    let s := (countRun IMem.countImpl config evs (IMemMapVec.init, [])).1
    (∀ pc, (s.active.find pc).isSome ↔ ∃ inst ∈ evs, inst.pc = pc) ∧
    ∀ pc d, s.active.find pc = some d →
      (evs.find? fun inst => inst.pc == pc).map STFInst.opcode = some d.opcode := by
  intro s
  have hh := histInv_countRun config evs
  refine ⟨fun pc => ⟨fun h => ?_, fun ⟨inst, hi, hpc⟩ => hpc ▸ hh.keyed inst hi⟩, fun pc d hd => ?_⟩
  · obtain ⟨d, hd⟩ := Option.isSome_iff_exists.mp h
    obtain ⟨first, hmem, hpc, -⟩ := hh.find_first hd
    exact ⟨first, hmem, hpc⟩
  · obtain ⟨first, -, -, hf, hop⟩ := hh.find_first hd
    rw [hf, Option.map_some', hop]

/-! ## The histories after a run -/

/-- A load at `pc` reading the addresses `reads`, in order. -/
def loadInst (pc : UInt64) (op : UInt32) (reads : List UInt64) : STFInst :=
  { simpleInst pc op with isLoad := true, memoryReads := reads }

/-- A branch at `pc`, taken or not. -/
def branchInst (pc : UInt64) (op : UInt32) (taken : Bool) : STFInst :=
  { simpleInst pc op with isTakenBranch := taken }

/-- For every sequence of admitted instructions and every entry of `IMem` whose PC
was first executed by a load or a store: the addresses `a₀ :: as` that
`count_impl` takes from the loads and stores counted into the entry (the last
memory read of a load, the last memory write of a store, 0 when there is none)
are recorded in the stride history, and its cursor is `|as| mod MAX_LHIST_`. -/
theorem imem_stride_history (config : STFImemConfig) (evs : List STFInst) (pc : UInt64)
    (d : IMemData)
    (hd : (countRun IMem.countImpl config evs (IMemMapVec.init, [])).1.active.find pc = some d)
    (hls : (evs.find? fun inst => inst.pc == pc).map recordsStride = some true) :
    ∃ a₀ as, ((countedInto pc d.opcode evs).filter recordsStride).map memAddr = a₀ :: as ∧
      StrideHolds d a₀ as ∧ d.recentStridesIdx = as.length % MAX_LHIST_ := by
  obtain ⟨first, rest, hc, hf, hl⟩ := (histInv_countRun config evs).entries pc d hd
  have hfirst : recordsStride first = true := by simpa [hf] using hls
  have hs := (strideHolds_foldl rest (strideHolds_newEntry hfirst false)).of_localState hl
  refine ⟨_, _, by rw [hc, List.filter_cons_of_pos hfirst]; rfl, hs, ?_⟩
  rw [hs.ring.cursor, length_strides]

/-- Two loads at one PC, reading `[0]` and then `[0x8, 0x10]`, leave an entry that
is not a load/store entry, remembers the address `0x10` and holds the stride
`0x10`: the addresses are those of the last read, and a first address 0 makes
the entry no load/store entry. -/
theorem imem_stride_history_last_read :
    ((countRun IMem.countImpl {} [loadInst 0x1000 0x3 [0], loadInst 0x1000 0x3 [0x8, 0x10]]
        (IMemMapVec.init, [])).1.active.find 0x1000).map
      (fun d => (d.isLoadstore, d.lastAddress, d.recentStrides[0]?)) = some (false, 0x10, some 0x10) := by
  decide

/-- The stride law at two loads at one PC. -/
theorem imem_stride_history_two_loads :
    ∃ d, (countRun IMem.countImpl {} [loadInst 0x1000 0x3 [0x20], loadInst 0x1000 0x3 [0x8, 0x10]]
        (IMemMapVec.init, [])).1.active.find 0x1000 = some d ∧
      ∃ a₀ as, ((countedInto 0x1000 d.opcode [loadInst 0x1000 0x3 [0x20],
          loadInst 0x1000 0x3 [0x8, 0x10]]).filter recordsStride).map memAddr = a₀ :: as ∧
        StrideHolds d a₀ as ∧ d.recentStridesIdx = as.length % MAX_LHIST_ := by
  obtain ⟨d, hd⟩ := Option.isSome_iff_exists.mp (by decide :
    ((countRun IMem.countImpl {} [loadInst 0x1000 0x3 [0x20], loadInst 0x1000 0x3 [0x8, 0x10]]
      (IMemMapVec.init, [])).1.active.find 0x1000).isSome)
  exact ⟨d, hd, imem_stride_history {} _ 0x1000 d hd (by decide)⟩

/-- For every sequence of admitted instructions and every entry of `IMem`, with `m`
the number of instructions counted into it that are taken branches and neither
loads nor stores: the branch history holds `m` set bits and its cursor is
`m mod MAX_LHIST_`; a not-taken execution records nothing. -/
theorem imem_branch_history (config : STFImemConfig) (evs : List STFInst) (pc : UInt64)
    (d : IMemData)
    (hd : (countRun IMem.countImpl config evs (IMemMapVec.init, [])).1.active.find pc = some d) :
    BranchHolds d ((countedInto pc d.opcode evs).filter recordsBranch).length ∧
      d.branchLhrIdx = ((countedInto pc d.opcode evs).filter recordsBranch).length % MAX_LHIST_ := by
  obtain ⟨first, rest, hc, -, hl⟩ := (histInv_countRun config evs).entries pc d hd
  have hb := (branchHolds_foldl rest (branchHolds_newEntry first false)).of_localState hl
  have hm : (if recordsBranch first then 1 else 0) + (rest.filter recordsBranch).length =
      ((first :: rest).filter recordsBranch).length := by
    by_cases h : recordsBranch first = true <;> simp [List.filter_cons, h, Nat.add_comm]
  rw [hm, ← hc] at hb
  exact ⟨hb, by rw [hb.ring.cursor, List.length_replicate]⟩

/-- Taken, not-taken and taken executions of one branch leave the cursor of its
history at 2, with the bits `1, 1, 0` in its first slots: the not-taken execution
is not recorded. -/
theorem imem_branch_history_skips_not_taken :
    ((countRun IMem.countImpl {} [branchInst 0x1000 0x63 true, branchInst 0x1000 0x63 false,
        branchInst 0x1000 0x63 true] (IMemMapVec.init, [])).1.active.find 0x1000).map
      (fun d => (d.branchLhrIdx, d.branchLhr.take 3)) = some (2, [true, true, false]) := by
  decide

/-- The branch law at three executions of one branch. -/
theorem imem_branch_history_three_branches :
    ∃ d, (countRun IMem.countImpl {} [branchInst 0x1000 0x63 true, branchInst 0x1000 0x63 false,
        branchInst 0x1000 0x63 true] (IMemMapVec.init, [])).1.active.find 0x1000 = some d ∧
      BranchHolds d ((countedInto 0x1000 d.opcode [branchInst 0x1000 0x63 true,
          branchInst 0x1000 0x63 false, branchInst 0x1000 0x63 true]).filter recordsBranch).length ∧
        d.branchLhrIdx = ((countedInto 0x1000 d.opcode [branchInst 0x1000 0x63 true,
          branchInst 0x1000 0x63 false, branchInst 0x1000 0x63 true]).filter
            recordsBranch).length % MAX_LHIST_ := by
  obtain ⟨d, hd⟩ := Option.isSome_iff_exists.mp (by decide :
    ((countRun IMem.countImpl {} [branchInst 0x1000 0x63 true, branchInst 0x1000 0x63 false,
      branchInst 0x1000 0x63 true] (IMemMapVec.init, [])).1.active.find 0x1000).isSome)
  exact ⟨d, hd, imem_branch_history {} _ 0x1000 d hd⟩

end StfTools.Analysis
