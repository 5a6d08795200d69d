import StfTools.Analysis.Histories

/-!
# The local histories the sorted report prints for `IMem`

With `local_history` set, `printSortedIMemItem_` appends to an entry's line its
stride ring for a load/store entry (`LStrides={...}`), else its outcome ring for a
branch entry (`LHR=...`), each in slot order (stf_imem.hpp:442-460). The rings
hold what `Analysis.Histories` says, and a ring's slots are determined by the
values it recorded (`Interface.RingHolds.rotate_eq`). So the printed history of
every entry after any run is a function of the instructions counted into it
(`imem_printed_histories`):

* `LStrides` is printed only for an entry whose first instruction is a load or a
  store with a nonzero address; rotated by the number of strides modulo
  `MAX_LHIST_`, it is the last `MAX_LHIST_` strides, oldest first, after zeros
  while fewer have been recorded;
* `LHR` holds one bit per taken branch counted into the entry, so it is always
  a run of ones followed by zeros: a not-taken execution never shows.
-/

set_option autoImplicit false

namespace StfTools.Analysis

open StfTools IMemMapVec Interface

/-! ## Whether an entry is a load/store entry -/

/-- INTERNAL: an entry is a load/store entry when created by a load or a store
with a nonzero address.
SOURCE: stf_imem.hpp:89-106, 757-766 -/
theorem isLoadstore_newEntry (inst : STFInst) (w : Bool) :
    (IMem.newEntry inst w).2.isLoadstore = (recordsStride inst && memAddr inst != 0) := by
  unfold IMem.newEntry recordsStride
  cases inst.isLoad || inst.isStore
  · rw [if_neg Bool.false_ne_true]
    cases inst.isTakenBranch <;> rfl
  · rfl

/-- INTERNAL: no history update changes whether an entry is a load/store entry.
SOURCE: stf_imem.hpp:194-215, 776-780 -/
theorem isLoadstore_builtEntry (first : STFInst) (rest : List STFInst) :
    (builtEntry first rest).isLoadstore = (IMem.newEntry first false).2.isLoadstore := by
  have hstep : ∀ (l : List STFInst) (d : IMemData),
      (l.foldl (fun d inst => historyStep inst d) d).isLoadstore = d.isLoadstore := by
    intro l
    induction l with
    | nil => intro d; rfl
    | cons inst l ih =>
      intro d
      rw [List.foldl_cons, ih]
      unfold historyStep
      split_ifs <;> rfl
  exact hstep rest _

/-! ## The printed histories -/

/-- INTERNAL: `printSortedIMemItem_` prints the stride ring exactly for a
load/store entry.
SOURCE: stf_imem.hpp:442-460 -/
theorem localHistory_eq_strides {d : IMemData} {s : List Int} :
    localHistory d = some (.strides s) ↔ d.isLoadstore = true ∧ d.recentStrides = s := by
  unfold localHistory
  cases d.isLoadstore <;> simp

/-- INTERNAL: it prints the outcome ring exactly for a branch entry that is not a
load/store entry.
SOURCE: stf_imem.hpp:442-460 -/
theorem localHistory_eq_lhr {d : IMemData} {bits : List Bool} :
    localHistory d = some (.lhr bits) ↔
      d.isLoadstore = false ∧ d.isBranch = true ∧ d.branchLhr = bits := by
  unfold localHistory
  cases d.isLoadstore <;> cases d.isBranch <;> simp

/-- For every sequence of admitted instructions and every entry of `IMem`, the
local history `printSortedIMemItem_` appends to its line with `local_history` set:

* `LStrides` with the slots `s` only when the first instruction at the entry's PC
  is a load or a store, and the first of the addresses `a₀ :: as` that
  `count_impl` takes from the loads and stores counted into the entry is nonzero;
  `s` rotated left by `|as| mod MAX_LHIST_` is then the last `MAX_LHIST_` strides
  between these addresses, oldest first, after zeros while fewer were recorded;
* `LHR` with the bits `bits` only when a taken branch was counted into the entry;
  with `m` such branches, `bits` is `min m MAX_LHIST_` ones followed by zeros. -/
theorem imem_printed_histories (config : STFImemConfig) (evs : List STFInst) (pc : UInt64)
    (d : IMemData)
    (hd : (countRun IMem.countImpl config evs (IMemMapVec.init, [])).1.active.find pc = some d) :
    (∀ s, localHistory d = some (.strides s) →
      (evs.find? fun inst => inst.pc == pc).map recordsStride = some true ∧
      ∃ a₀ as, ((countedInto pc d.opcode evs).filter recordsStride).map memAddr = a₀ :: as ∧
        a₀ ≠ 0 ∧
        s.rotate (as.length % MAX_LHIST_) =
          (List.replicate MAX_LHIST_ 0 ++ strides (a₀ :: as)).drop as.length) ∧
    (∀ bits, localHistory d = some (.lhr bits) →
      let m := ((countedInto pc d.opcode evs).filter recordsBranch).length
      0 < m ∧ bits = List.replicate (min m MAX_LHIST_) true ++
        List.replicate (MAX_LHIST_ - min m MAX_LHIST_) false) := by
  obtain ⟨first, rest, hc, hf, hl⟩ := (histInv_countRun config evs).entries pc d hd
  have hld : d.isLoadstore = (recordsStride first && memAddr first != 0) := by
    rw [← isLoadstore_newEntry first false, ← isLoadstore_builtEntry first rest]
    exact congrArg LocalState.isLoadstore hl
  refine ⟨fun s hs => ?_, fun bits hb => ?_⟩
  · -- a load/store entry: the stride ring
    have hsd := localHistory_eq_strides.mp hs
    have hfirst : recordsStride first = true ∧ memAddr first ≠ 0 := by
      simpa [hld] using hsd.1
    have hst := (strideHolds_foldl rest (strideHolds_newEntry hfirst.1 false)).of_localState hl
    rw [List.nil_append] at hst
    refine ⟨by simp [hf, hfirst.1], _, _, by rw [hc, List.filter_cons_of_pos hfirst.1]; rfl,
      hfirst.2, ?_⟩
    rw [← hsd.2, ← length_strides (memAddr first), ← hst.ring.cursor]
    exact hst.ring.rotate_eq
  · -- a branch entry: the outcome ring
    have hbd := (localHistory_eq_lhr.mp hb).2
    have hbr := (branchHolds_foldl rest (branchHolds_newEntry first false)).of_localState hl
    have hm : (if recordsBranch first then 1 else 0) + (rest.filter recordsBranch).length =
        ((countedInto pc d.opcode evs).filter recordsBranch).length := by
      rw [hc]
      by_cases h : recordsBranch first = true <;> simp [List.filter_cons, h, Nat.add_comm]
    rw [hm] at hbr
    refine ⟨by simpa [hbd.1] using hbr.branch.symm, ?_⟩
    rw [← hbd.2]
    exact hbr.ring.eq_of_replicate

/-- The printed histories after taken, not-taken and taken executions of one
branch. -/
theorem imem_printed_histories_three_branches :
    let evs := [branchInst 0x1000 0x63 true, branchInst 0x1000 0x63 false,
      branchInst 0x1000 0x63 true]
    ∃ d, (countRun IMem.countImpl {} evs (IMemMapVec.init, [])).1.active.find 0x1000 = some d ∧
      (∀ s, localHistory d = some (.strides s) →
        (evs.find? fun inst => inst.pc == 0x1000).map recordsStride = some true ∧
        ∃ a₀ as, ((countedInto 0x1000 d.opcode evs).filter recordsStride).map memAddr = a₀ :: as ∧
          a₀ ≠ 0 ∧
          s.rotate (as.length % MAX_LHIST_) =
            (List.replicate MAX_LHIST_ 0 ++ strides (a₀ :: as)).drop as.length) ∧
      (∀ bits, localHistory d = some (.lhr bits) →
        let m := ((countedInto 0x1000 d.opcode evs).filter recordsBranch).length
        0 < m ∧ bits = List.replicate (min m MAX_LHIST_) true ++
          List.replicate (MAX_LHIST_ - min m MAX_LHIST_) false) := by
  intro evs
  obtain ⟨d, hd⟩ := Option.isSome_iff_exists.mp (by decide :
    ((countRun IMem.countImpl {} evs (IMemMapVec.init, [])).1.active.find 0x1000).isSome)
  exact ⟨d, hd, imem_printed_histories {} evs 0x1000 d hd⟩

end StfTools.Analysis
