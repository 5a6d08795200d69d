import StfTools.Model.IMemMapVec
import Mathlib.Algebra.BigOperators.Group.List

/-!
# What one `count_impl` call can do

Every invariant of the profiler is proved from the lemmas of this file and never by
unfolding `count_impl` again:

* `IMem.countImpl` either inserts a new entry into the active table, counts the
  entry it found, or leaves the state alone and writes one warning
  (`imem_countImpl_cases`);
* `JavaIMem.countImpl` either counts the one entry some table holds for the
  event's (PC, opcode) and makes that table active (`JavaHit`), or inserts a new
  entry into a table without the PC, after putting an empty table at the front
  when every table holds the PC (`JavaInsert`); `java_countImpl_cases` says these
  are the only outcomes.

Sums over the table collection change by the difference at the one table touched
(`sum_map_modify`), and a run of `countStep` keeps any invariant one step keeps
(`countRun_inv`).
-/

set_option autoImplicit false

namespace StfTools.Analysis

open StfTools IMemMapVec

/-! ## Sums over the table collection -/

/-- INTERNAL: replacing one element of a list changes a sum over it by the
difference.
SOURCE: stf_imem.hpp:325 -/
theorem sum_map_modify {α : Type} (g : α → Nat) (F : α → α) :
    ∀ (l : List α) (i : Nat) (a : α), l[i]? = some a →
      ((l.modify F i).map g).sum + g a = (l.map g).sum + g (F a)
  | [], _, _, h => by simp at h
  | b :: l, 0, a, h => by
    simp only [List.getElem?_cons_zero, Option.some.injEq] at h
    subst h; simp; omega
  | b :: l, i + 1, a, h => by
    have := sum_map_modify g F l i a (by simpa using h)
    simp only [List.modify_succ_cons, List.map_cons, List.sum_cons]; omega

/-- The sum over the tables of `g` read at key `pc`. -/
def tableSum (g : Option IMemData → Nat) (pc : UInt64) (ts : List IMemMap) : Nat :=
  (ts.map fun t => g (t.find pc)).sum

/-- The sum of one counter over every entry of every table. -/
def tablesTotal (c : Counter) (ts : List IMemMap) : Nat := (ts.map (IMemMap.total c)).sum

@[simp] theorem tableSum_nil (g : Option IMemData → Nat) (pc : UInt64) : tableSum g pc [] = 0 := rfl

@[simp] theorem tablesTotal_nil (c : Counter) : tablesTotal c [] = 0 := rfl

@[simp] theorem tableSum_cons (g : Option IMemData → Nat) (pc : UInt64) (t : IMemMap)
    (ts : List IMemMap) : tableSum g pc (t :: ts) = g (t.find pc) + tableSum g pc ts := by
  simp [tableSum]

@[simp] theorem tablesTotal_cons (c : Counter) (t : IMemMap) (ts : List IMemMap) :
    tablesTotal c (t :: ts) = t.total c + tablesTotal c ts := by
  simp [tablesTotal]

/-! ## `IMem::count_impl` -/

/-- INTERNAL: the entry `IMem::count_impl` creates is stored at the event's PC.
SOURCE: stf_imem.hpp:757-766 -/
@[simp] theorem IMem.newEntry_fst (inst : STFInst) (w : Bool) : (IMem.newEntry inst w).1 = inst.pc := by
  unfold IMem.newEntry; split_ifs <;> rfl

/-- The three outcomes of `IMem::count_impl` (stf_imem.hpp:757-791): a new entry,
a counted entry with its history advanced, or a warning and no change. -/
theorem imem_countImpl_cases (config : STFImemConfig) (inst : STFInst) (s : IMemMapVec) :
    (s.active.find inst.pc = none ∧
      IMem.countImpl config inst s = (s.modifyTable s.itv (·.insert inst.pc
        (IMem.newEntry inst (decide (s.instCount < config.warmupCount.toNat))).2), [])) ∨
    (∃ cur, s.active.find inst.pc = some cur ∧ cur.opcode = inst.opcode ∧
      IMem.countImpl config inst s = ((s.countHit config cur).1.modifyTable s.itv
        (·.modify inst.pc fun _ => historyStep inst (s.countHit config cur).2), [])) ∨
    (∃ cur, s.active.find inst.pc = some cur ∧ cur.opcode ≠ inst.opcode ∧
      IMem.countImpl config inst s = (s, [.twoOpcodes inst.pc cur.opcode inst.opcode])) := by
  cases h : s.active.find inst.pc with
  | none => exact .inl ⟨rfl, by simp [IMem.countImpl, h]⟩
  | some cur =>
    by_cases hm : cur.opcode = inst.opcode
    · exact .inr (.inl ⟨cur, rfl, hm, by simp [IMem.countImpl, h, IMemData.opcodeMatch, hm]⟩)
    · exact .inr (.inr ⟨cur, rfl, hm, by simp [IMem.countImpl, h, IMemData.opcodeMatch, hm]⟩)

/-- INTERNAL: `IMem::count_impl` leaves `inst_count_` to `processTrace_`.
SOURCE: stf_imem.hpp:736-792 -/
@[simp] theorem imem_countImpl_instCount (config : STFImemConfig) (inst : STFInst)
    (s : IMemMapVec) : (IMem.countImpl config inst s).1.instCount = s.instCount := by
  rcases imem_countImpl_cases config inst s with ⟨-, h⟩ | ⟨cur, -, -, h⟩ | ⟨cur, -, -, h⟩ <;>
    simp [h]

/-! ## `JavaIMem::count_impl` -/

/-- INTERNAL: a table the search loop stops at holds the key with the opcode.
SOURCE: stf_imem.hpp:819-838 -/
theorem searchMaps_some {key : UInt64} {op : UInt32} :
    ∀ {ts : List IMemMap} {i0 : Nat} {itt itt' : Option Nat} {i : Nat} {cur : IMemData},
      searchMaps key op ts i0 itt = (some (i, cur), itt') →
      i0 ≤ i ∧ ∃ t, ts[i - i0]? = some t ∧ t.find key = some cur ∧ cur.opcode = op
  | [], _, _, _, _, _, h => by simp [searchMaps] at h
  | m :: rest, i0, itt, itt', i, cur, h => by
    have step : ∀ itt0, searchMaps key op rest (i0 + 1) itt0 = (some (i, cur), itt') →
        i0 ≤ i ∧ ∃ t, (m :: rest)[i - i0]? = some t ∧ t.find key = some cur ∧ cur.opcode = op :=
      fun itt0 h' => by
        obtain ⟨hle, t, ht, hf⟩ := searchMaps_some h'
        exact ⟨by omega, t, by rw [show i - i0 = (i - (i0 + 1)) + 1 by omega]; simpa using ht, hf⟩
    simp only [searchMaps] at h
    split at h
    · split at h
      · simp only [Prod.mk.injEq, Option.some.injEq] at h
        obtain ⟨⟨rfl, rfl⟩, -⟩ := h
        exact ⟨le_rfl, m, by simp, by simp_all [IMemData.opcodeMatch]⟩
      · exact step itt h
    · exact step (some i0) h

/-- INTERNAL: when the search loop finds no table holding the key with the opcode,
`itt` is the last table without the key, or stays as it was when every table
holds the key.
SOURCE: stf_imem.hpp:819-838 -/
theorem searchMaps_none {key : UInt64} {op : UInt32} :
    ∀ {ts : List IMemMap} {i0 : Nat} {itt itt' : Option Nat},
      searchMaps key op ts i0 itt = (none, itt') →
      (∀ t ∈ ts, ∀ d, t.find key = some d → d.opcode ≠ op) ∧
      ((itt' = itt ∧ ∀ t ∈ ts, (t.find key).isSome) ∨
        ∃ j t, itt' = some (i0 + j) ∧ ts[j]? = some t ∧ t.find key = none)
  | [], _, _, _, h => by simp_all [searchMaps]
  | m :: rest, i0, itt, itt', h => by
    -- a table without the key further down sits one index lower in the whole collection
    have shift : (∃ j t, itt' = some (i0 + 1 + j) ∧ rest[j]? = some t ∧ t.find key = none) →
        ∃ j t, itt' = some (i0 + j) ∧ (m :: rest)[j]? = some t ∧ t.find key = none :=
      fun ⟨j, t, h1, h2, h3⟩ => ⟨j + 1, t, by rw [h1]; congr 1; omega, by simpa using h2, h3⟩
    simp only [searchMaps] at h
    split at h
    · rename_i cur hcur
      split at h
      · simp at h
      · rename_i hne
        obtain ⟨hu, hk⟩ := searchMaps_none h
        refine ⟨List.forall_mem_cons.2 ⟨fun d hd => ?_, hu⟩,
          hk.imp (fun ⟨h1, h2⟩ => ⟨h1, List.forall_mem_cons.2 ⟨by simp [hcur], h2⟩⟩) shift⟩
        rw [hcur] at hd; cases hd; simpa [IMemData.opcodeMatch] using hne
    · rename_i hnone
      obtain ⟨hu, hk⟩ := searchMaps_none h
      refine ⟨List.forall_mem_cons.2 ⟨fun d hd => by simp [hnone] at hd, hu⟩, .inr ?_⟩
      rcases hk with ⟨h1, -⟩ | hk
      · exact ⟨0, m, by simpa using h1, by simp, hnone⟩
      · exact shift hk

/-- `JavaIMem::count_impl` counted the entry table `i` holds for the event and
made that table active (stf_imem.hpp:807-816, 840-849). -/
structure JavaHit (config : STFImemConfig) (inst : STFInst) (s s' : IMemMapVec) (i : Nat)
    (t : IMemMap) (cur : IMemData) : Prop where
  get : s.imemMapvec[i]? = some t
  find : t.find inst.pc = some cur
  opcode : cur.opcode = inst.opcode
  eq : s' = { (s.countHit config cur).1.modifyTable i
      (·.modify inst.pc fun _ => (s.countHit config cur).2) with itv := i }

/-- `JavaIMem::count_impl` found no table holding the event's (PC, opcode) and
inserted a new entry into table `j` of `ts`, which lacked the PC; `ts` has an
empty table in front exactly when every table held the PC (stf_imem.hpp:850-860). -/
structure JavaInsert (config : STFImemConfig) (inst : STFInst) (s s' : IMemMapVec)
    (ts : List IMemMap) (j : Nat) (t : IMemMap) : Prop where
  unheld : ∀ u ∈ s.imemMapvec, ∀ d, u.find inst.pc = some d → d.opcode ≠ inst.opcode
  tables : ts = if ∀ u ∈ s.imemMapvec, (u.find inst.pc).isSome
    then IMemMap.empty :: s.imemMapvec else s.imemMapvec
  get : ts[j]? = some t
  absent : t.find inst.pc = none
  eq : s' = { s with
    imemMapvec := ts.modify (·.insert inst.pc
      (createIMem_ inst.pc inst 0 (decide (s.instCount < config.warmupCount.toNat))).2) j
    itv := j }

/-- INTERNAL: setting the cursor to where it is changes nothing.
SOURCE: stf_imem.hpp:326 -/
theorem update_itv_of_eq {x : IMemMapVec} {i : Nat} (h : x.itv = i) : { x with itv := i } = x := by
  cases x; cases h; rfl

/-- INTERNAL: the active table is the one the cursor designates.
SOURCE: stf_imem.hpp:326 -/
theorem getElem?_itv {s : IMemMapVec} (hs : s.itv < s.imemMapvec.length) :
    s.imemMapvec[s.itv]? = some s.active := by
  simp [active, List.getD_eq_getElem?_getD, List.getElem?_eq_getElem hs]

/-- INTERNAL: the two outcomes of the branch taken when the active table does not
hold the PC with the event's opcode.
SOURCE: stf_imem.hpp:817-861 -/
theorem slowPath_cases (config : STFImemConfig) (inst : STFInst) (s : IMemMapVec)
    (hs : s.itv < s.imemMapvec.length) :
    (∃ i t cur, JavaHit config inst s (JavaIMem.slowPath config inst s) i t cur) ∨
    (∃ ts j t, JavaInsert config inst s (JavaIMem.slowPath config inst s) ts j t) := by
  rcases hsm : searchMaps inst.pc inst.opcode s.imemMapvec 0 none with ⟨_ | ⟨i, cur⟩, itt⟩
  · obtain ⟨hu, hk⟩ := searchMaps_none hsm
    refine .inr ?_
    rcases hk with ⟨rfl, hall⟩ | ⟨j, t, hitt, hj, ht⟩
    · exact ⟨_, 0, IMemMap.empty, ⟨hu, (if_pos hall).symm, by simp, rfl,
        by simp [JavaIMem.slowPath, hsm, modifyTable, createIMem_]⟩⟩
    · rw [Nat.zero_add] at hitt; subst hitt
      have hnot : ¬ ∀ u ∈ s.imemMapvec, (u.find inst.pc).isSome := fun hall => by
        simpa [ht] using hall t (List.mem_iff_getElem?.mpr ⟨j, hj⟩)
      by_cases ha : (s.active.find inst.pc).isSome
      · exact ⟨_, j, t, ⟨hu, (if_neg hnot).symm, hj, ht,
          by simp [JavaIMem.slowPath, hsm, ha, modifyTable, createIMem_]⟩⟩
      · exact ⟨_, s.itv, s.active, ⟨hu, (if_neg hnot).symm, getElem?_itv hs, by simpa using ha,
          by simp [JavaIMem.slowPath, hsm, ha, modifyTable, createIMem_]⟩⟩
  · obtain ⟨-, t, ht, hf, hop⟩ := searchMaps_some hsm
    exact .inl ⟨i, t, cur, ⟨by simpa using ht, hf, hop, by simp [JavaIMem.slowPath, hsm]⟩⟩

/-- The two outcomes of `JavaIMem::count_impl` (stf_imem.hpp:802-862), from a
state whose cursor designates a table; it writes no diagnostic. -/
theorem java_countImpl_cases (config : STFImemConfig) (inst : STFInst) (s : IMemMapVec)
    (hs : s.itv < s.imemMapvec.length) :
    (JavaIMem.countImpl config inst s).2 = [] ∧
    ((∃ i t cur, JavaHit config inst s (JavaIMem.countImpl config inst s).1 i t cur) ∨
      (∃ ts j t, JavaInsert config inst s (JavaIMem.countImpl config inst s).1 ts j t)) := by
  cases h : s.active.find inst.pc with
  | none => simpa [JavaIMem.countImpl, h] using slowPath_cases config inst s hs
  | some cur =>
    by_cases hm : cur.opcode = inst.opcode
    · refine ⟨by simp [JavaIMem.countImpl, h, IMemData.opcodeMatch, hm],
        .inl ⟨s.itv, s.active, cur, ⟨getElem?_itv hs, h, hm, ?_⟩⟩⟩
      rw [update_itv_of_eq (by simp)]
      simp [JavaIMem.countImpl, h, IMemData.opcodeMatch, hm]
    · simpa [JavaIMem.countImpl, h, IMemData.opcodeMatch, hm] using slowPath_cases config inst s hs

/-! ## Runs -/

/-- INTERNAL: a run over a concatenation is the run over the second part from
where the first ended.
SOURCE: stf_imem.hpp:673-706 -/
theorem countRun_append (impl : STFImemConfig → STFInst → IMemMapVec → IMemMapVec × List Diag)
    (config : STFImemConfig) :
    ∀ (evs evs' : List STFInst) (r : IMemMapVec × List Diag),
      countRun impl config (evs ++ evs') r = countRun impl config evs' (countRun impl config evs r)
  | [], _, _ => rfl
  | e :: rest, evs', r => countRun_append impl config rest evs' (countStep impl config e r)

/-- INTERNAL: a run of a `count_impl` that leaves `inst_count_` to `processTrace_`
counts every instruction it is given, one after another.
SOURCE: stf_imem.hpp:699-701 -/
theorem countRun_instCount {impl : STFImemConfig → STFInst → IMemMapVec → IMemMapVec × List Diag}
    (himpl : ∀ config inst s, (impl config inst s).1.instCount = s.instCount) (config : STFImemConfig) :
    ∀ (evs : List STFInst) (r : IMemMapVec × List Diag),
      (countRun impl config evs r).1.instCount = r.1.instCount + evs.length
  | [], _ => rfl
  | e :: rest, r => by
    rw [countRun, countRun_instCount himpl config rest]
    simp only [countStep, himpl, List.length_cons]
    omega

/-- INTERNAL: **the run rule.** An invariant of a state and of the instructions
counted so far that one `countStep` keeps holds after any run.
SOURCE: stf_imem.hpp:673-706 -/
theorem countRun_inv (impl : STFImemConfig → STFInst → IMemMapVec → IMemMapVec × List Diag)
    (config : STFImemConfig) (Inv : IMemMapVec × List Diag → List STFInst → Prop)
    (step : ∀ r seen e, Inv r seen → Inv (countStep impl config e r) (seen ++ [e])) :
    ∀ (evs : List STFInst) (r : IMemMapVec × List Diag) (seen : List STFInst),
      Inv r seen → Inv (countRun impl config evs r) (seen ++ evs)
  | [], r, seen, h => by simpa using h
  | e :: rest, r, seen, h => by
    simpa using countRun_inv impl config Inv step rest _ (seen ++ [e]) (step r seen e h)

end StfTools.Analysis
