import StfTools.Analysis.Counters
import StfTools.Analysis.Report
import Mathlib.Data.List.MinMax

/-!
# The totals `print` reads after a run: the maxima and the final assertion

`max_count_`, `max_warmup_` and `max_run_length_` are raised only by
`incCount_`, `incWarmup_` and `incRunLength_` (stf_imem.hpp:467-480), that is on
the match paths, each to the new value of its counter. The creation paths
(stf_imem.hpp:757-766, 855-859) build an entry whose counters are 0 or 1 and raise
nothing.

What one instruction does to the entries is one of two shapes, shared by both
profilers: it adds an entry counting at most one execution in each counter
(`AddsEntry`), or it replaces one entry by the entry the increments of a match
path give (`CountsEntry`). Both keep `MaxInv`: each maximum is at most the largest
value of its counter, and at least each value of it above 1. So after any run a
maximum is the largest value of its counter, except that it may have stayed 0
when that value is 1 (`maxima_of_runs`), which leaves the column widths as they
would be; the printed `Max count` is then 0 (`newEntry_leaves_maxima`).

The sorted report ends with `stf_assert(cumulative_count == inst_count_)`
(stf_imem.hpp:650-652). `JavaIMem` counts every admitted execution, so its report
never stops there; `IMem` loses exactly the executions it warned about, so its
report stops there exactly when it wrote a `two opcodes` warning
(`sorted_report_assertion`).
-/

set_option autoImplicit false

namespace StfTools.Analysis

open StfTools IMemMapVec

/-! ## The largest value of a counter -/

/-- The largest value of counter `c` over the entries of the tables `ts`, 0 when
there is none. -/
def tablesMax (c : Counter) (ts : List IMemMap) : Nat :=
  (((ts.map IMemMap.entries).flatten).map fun e => e.2.counter c).foldr max 0

/-- INTERNAL: `find` returns exactly the entries of the table.
SOURCE: stf_imem.hpp:324 -/
theorem IMemMap.find_eq_some_iff (m : IMemMap) (pc : UInt64) (d : IMemData) :
    m.find pc = some d ↔ (pc, d) ∈ m.entries := by
  have hnd := m.keys_nodup
  obtain ⟨l, hl⟩ := m
  simp only [IMemMap.find] at hnd ⊢
  clear hl
  induction l with
  | nil => simp [IMemMap.findIn]
  | cons e rest ih =>
    obtain ⟨k, d'⟩ := e
    rw [List.map_cons, List.nodup_cons] at hnd
    by_cases hk : k = pc
    · subst hk
      have hnot : (k, d) ∉ rest := fun h => hnd.1 (List.mem_map.mpr ⟨_, h, rfl⟩)
      simp [IMemMap.findIn, hnot, eq_comm]
    · simp [IMemMap.findIn, hk, ih hnd.2, Ne.symm hk]

/-- INTERNAL: a nonzero maximum of a list is one of its elements.
SOURCE: stf_imem.hpp:467-480 -/
theorem foldr_max_mem : ∀ {l : List Nat}, 0 < l.foldr max 0 → l.foldr max 0 ∈ l
  | [], h => absurd h (lt_irrefl 0)
  | x :: l, h => by
    rw [List.foldr_cons] at h ⊢
    rcases le_total x (l.foldr max 0) with hx | hx
    · rw [max_eq_right hx] at h ⊢
      exact List.mem_cons_of_mem _ (foldr_max_mem h)
    · rw [max_eq_left hx]
      exact List.mem_cons_self _ _

/-- INTERNAL: the values `tablesMax` ranges over are the counters of the entries.
SOURCE: stf_imem.hpp:324 -/
theorem mem_counters_iff {c : Counter} {ts : List IMemMap} {v : Nat} :
    v ∈ ((ts.map IMemMap.entries).flatten.map fun e => e.2.counter c) ↔
      ∃ t ∈ ts, ∃ pc d, t.find pc = some d ∧ d.counter c = v := by
  simp only [List.mem_map, List.mem_flatten, IMemMap.find_eq_some_iff]
  constructor
  · rintro ⟨⟨pc, d⟩, ⟨_, ⟨t, ht, rfl⟩, he⟩, rfl⟩
    exact ⟨t, ht, pc, d, he, rfl⟩
  · rintro ⟨t, ht, pc, d, he, rfl⟩
    exact ⟨(pc, d), ⟨_, ⟨t, ht, rfl⟩, he⟩, rfl⟩

section TablesMax

variable {c : Counter} {ts : List IMemMap}

/-- INTERNAL: every entry's counter is at most the largest.
SOURCE: stf_imem.hpp:324 -/
theorem le_tablesMax {t : IMemMap} {pc : UInt64} {d : IMemData} (ht : t ∈ ts)
    (hd : t.find pc = some d) : d.counter c ≤ tablesMax c ts :=
  List.le_max_of_le (mem_counters_iff.mpr ⟨t, ht, pc, d, hd, rfl⟩) le_rfl

/-- INTERNAL: a bound on every entry's counter bounds the largest.
SOURCE: stf_imem.hpp:324 -/
theorem tablesMax_le {n : Nat} (h : ∀ t ∈ ts, ∀ pc d, t.find pc = some d → d.counter c ≤ n) :
    tablesMax c ts ≤ n :=
  List.max_le_of_forall_le _ _ fun v hv => by
    obtain ⟨t, ht, pc, d, hd, rfl⟩ := mem_counters_iff.mp hv
    exact h t ht pc d hd

/-- INTERNAL: a nonzero largest counter is an entry's.
SOURCE: stf_imem.hpp:324 -/
theorem exists_eq_tablesMax (h : 0 < tablesMax c ts) :
    ∃ t ∈ ts, ∃ pc d, t.find pc = some d ∧ d.counter c = tablesMax c ts :=
  mem_counters_iff.mp (foldr_max_mem h)

end TablesMax

/-! ## What one instruction does to the entries -/

/-- INTERNAL: the maxima after the increments of a match path: none falls, none
exceeds the larger of its old value and the new counter, and a counter that grew is
at most its maximum.
SOURCE: stf_imem.hpp:467-480 -/
theorem countHit_maxima (config : STFImemConfig) (s : IMemMapVec) (d : IMemData) (c : Counter) :
    s.maxOf c ≤ (s.countHit config d).1.maxOf c ∧
      (s.countHit config d).1.maxOf c ≤ max (s.maxOf c) ((s.countHit config d).2.counter c) ∧
      (s.countHit config d).2.counter c ≤ max ((s.countHit config d).1.maxOf c) (d.counter c) ∧
      d.counter c ≤ (s.countHit config d).2.counter c := by
  unfold countHit incCount_ incWarmup_ incRunLength_ incCounter_
  split_ifs <;> cases c <;>
    simp only [maxOf_raiseMax, IMemData.counter_bump, reduceCtorEq, if_true, if_false] <;> omega

/-- One instruction added the entry `new`, which counts at most one execution in
each counter, kept every entry of `s`, and left the maxima. -/
structure AddsEntry (s s' : IMemMapVec) (new : IMemData) : Prop where
  maxima : ∀ c, s'.maxOf c = s.maxOf c
  new_le : ∀ c, new.counter c ≤ 1
  entries : ∀ t' ∈ s'.imemMapvec, ∀ pc d, t'.find pc = some d →
    d = new ∨ ∃ t ∈ s.imemMapvec, t.find pc = some d
  kept : ∀ t ∈ s.imemMapvec, ∀ pc d, t.find pc = some d → ∃ t' ∈ s'.imemMapvec, t'.find pc = some d

/-- One instruction replaced the entry `cur` of `s` by `new`, whose counters are
those the increments of a match path give `cur`, with the maxima these increments
leave, and kept every other entry. -/
structure CountsEntry (config : STFImemConfig) (s s' : IMemMapVec) (cur new : IMemData) :
    Prop where
  maxima : ∀ c, s'.maxOf c = (s.countHit config cur).1.maxOf c
  counters : ∀ c, new.counter c = (s.countHit config cur).2.counter c
  cur_mem : ∃ t ∈ s.imemMapvec, ∃ pc, t.find pc = some cur
  new_mem : ∃ t' ∈ s'.imemMapvec, ∃ pc, t'.find pc = some new
  entries : ∀ t' ∈ s'.imemMapvec, ∀ pc d, t'.find pc = some d →
    d = new ∨ ∃ t ∈ s.imemMapvec, t.find pc = some d
  kept : ∀ t ∈ s.imemMapvec, ∀ pc d, t.find pc = some d →
    d = cur ∨ ∃ t' ∈ s'.imemMapvec, t'.find pc = some d

/-- The maxima of `s` against its entries: each is at most the largest value of its
counter, and at least every value of its counter above 1. -/
structure MaxInv (s : IMemMapVec) : Prop where
  le_max : ∀ c, s.maxOf c ≤ tablesMax c s.imemMapvec
  bound : ∀ c, ∀ t ∈ s.imemMapvec, ∀ pc d, t.find pc = some d → d.counter c ≤ max (s.maxOf c) 1

section MaxInv

variable {s s' : IMemMapVec}

/-- INTERNAL: the invariant reads only the tables and the maxima.
SOURCE: stf_imem.hpp:232-234, 324 -/
theorem MaxInv.congr (h : MaxInv s) (ht : s'.imemMapvec = s.imemMapvec)
    (hm : ∀ c, s'.maxOf c = s.maxOf c) : MaxInv s' :=
  ⟨fun c => by rw [hm, ht]; exact h.le_max c, fun c => by rw [hm, ht]; exact h.bound c⟩

/-- INTERNAL: adding an entry keeps the invariant.
SOURCE: stf_imem.hpp:757-766, 855-859 -/
theorem MaxInv.adds (h : MaxInv s) {new : IMemData} (ha : AddsEntry s s' new) : MaxInv s' where
  le_max c := by
    rw [ha.maxima]
    refine (h.le_max c).trans (tablesMax_le fun t ht pc d hd => ?_)
    obtain ⟨t', ht', hd'⟩ := ha.kept t ht pc d hd
    exact le_tablesMax ht' hd'
  bound c t' ht' pc d hd := by
    rw [ha.maxima]
    rcases ha.entries t' ht' pc d hd with rfl | ⟨t, ht, hd⟩
    · exact (ha.new_le c).trans (le_max_right _ _)
    · exact h.bound c t ht pc d hd

/-- INTERNAL: counting an entry keeps the invariant.
SOURCE: stf_imem.hpp:467-480, 769-775, 807-815 -/
theorem MaxInv.counts (h : MaxInv s) {config : STFImemConfig} {cur new : IMemData}
    (hc : CountsEntry config s s' cur new) : MaxInv s' where
  le_max c := by
    obtain ⟨-, h2, -, h4⟩ := countHit_maxima config s cur c
    obtain ⟨t', ht', pc', hn⟩ := hc.new_mem
    have hnew : new.counter c ≤ tablesMax c s'.imemMapvec := le_tablesMax ht' hn
    have hold : tablesMax c s.imemMapvec ≤ tablesMax c s'.imemMapvec :=
      tablesMax_le fun t ht pc d hd => by
        rcases hc.kept t ht pc d hd with rfl | ⟨t', ht', hd'⟩
        · rw [hc.counters] at hnew; exact h4.trans hnew
        · exact le_tablesMax ht' hd'
    have := h.le_max c
    rw [hc.maxima]; rw [hc.counters] at hnew
    omega
  bound c t' ht' pc d hd := by
    obtain ⟨h1, -, h3, -⟩ := countHit_maxima config s cur c
    rw [hc.maxima]
    rcases hc.entries t' ht' pc d hd with rfl | ⟨t, ht, hd⟩
    · obtain ⟨t0, ht0, pc0, hcur⟩ := hc.cur_mem
      have := h.bound c t0 ht0 pc0 _ hcur
      rw [hc.counters]; omega
    · have := h.bound c t ht pc d hd; omega

end MaxInv

/-! ## The two profilers -/

/-- INTERNAL: a history update leaves the counters.
SOURCE: stf_imem.hpp:776-780 -/
@[simp] theorem counter_historyStep (inst : STFInst) (d : IMemData) (c : Counter) :
    (historyStep inst d).counter c = d.counter c := by
  unfold historyStep; split_ifs <;> simp

/-- INTERNAL: an entry made by the constructor counts at most one execution in each
counter.
SOURCE: stf_imem.hpp:95-97 -/
theorem counter_make_le (is_16bit : Bool) (opcode : UInt32) (phys_pc : UInt64)
    (in_warmup is_branch br_taken : Bool) (mem_addr : UInt64) (c : Counter) :
    (IMemData.make is_16bit opcode phys_pc in_warmup is_branch br_taken mem_addr).counter c ≤ 1 := by
  obtain ⟨h1, h2, h3⟩ := IMemData.make_counters is_16bit opcode phys_pc in_warmup is_branch
    br_taken mem_addr
  cases c <;> cases in_warmup <;> simp [h1, h2, h3]

section Single

variable {s : IMemMapVec} (hs : s.imemMapvec = [s.active]) (hi : s.itv = 0)
include hs hi

/-- INTERNAL: inserting a new entry into the only table.
SOURCE: stf_imem.hpp:757-766 -/
theorem addsEntry_single {pc : UInt64} {new : IMemData} (hf : s.active.find pc = none)
    (hnew : ∀ c, new.counter c ≤ 1) :
    AddsEntry s (s.modifyTable s.itv (·.insert pc new)) new := by
  have ht : (s.modifyTable s.itv (·.insert pc new)).imemMapvec = [s.active.insert pc new] := by
    rw [(modifyTable_frame _ _ _).1, hs, hi]; rfl
  refine ⟨(modifyTable_frame _ _ _).2.2.2, hnew, fun t' ht' k d hd => ?_, fun t ht k d hd => ?_⟩
  · rw [ht, List.mem_singleton] at ht'; subst ht'
    rw [IMemMap.find_insert_of_find_eq_none hf] at hd
    split_ifs at hd
    · exact .inl (Option.some.inj hd).symm
    · exact .inr ⟨s.active, by rw [hs]; exact List.mem_singleton_self _, hd⟩
  · rw [hs, List.mem_singleton] at ht; subst ht
    have hk : pc ≠ k := fun he => by rw [he, hd] at hf; cases hf
    exact ⟨_, by rw [ht]; exact List.mem_singleton_self _,
      by rw [IMemMap.find_insert_of_find_eq_none hf, if_neg hk]; exact hd⟩

/-- INTERNAL: counting the entry of the only table, then updating it by `f`, which
leaves the counters.
SOURCE: stf_imem.hpp:769-780 -/
theorem countsEntry_single (config : STFImemConfig) {pc : UInt64} {cur : IMemData}
    (hf : s.active.find pc = some cur) (f : IMemData → IMemData)
    (hfc : ∀ c, (f (s.countHit config cur).2).counter c = (s.countHit config cur).2.counter c) :
    CountsEntry config s ((s.countHit config cur).1.modifyTable s.itv
      (·.modify pc fun _ => f (s.countHit config cur).2)) cur (f (s.countHit config cur).2) := by
  obtain ⟨hm, -⟩ := countHit_frame config s cur
  have ht : ((s.countHit config cur).1.modifyTable s.itv
      (·.modify pc fun _ => f (s.countHit config cur).2)).imemMapvec =
        [s.active.modify pc fun _ => f (s.countHit config cur).2] := by
    rw [(modifyTable_frame _ _ _).1, hm, hs, hi]; rfl
  have hact : s.active ∈ s.imemMapvec := by rw [hs]; exact List.mem_singleton_self _
  refine ⟨(modifyTable_frame _ _ _).2.2.2, hfc, ⟨_, hact, pc, hf⟩,
    ⟨_, by rw [ht]; exact List.mem_singleton_self _, pc, by simp [hf]⟩,
    fun t' ht' k d hd => ?_, fun t ht k d hd => ?_⟩
  · rw [ht, List.mem_singleton] at ht'; subst ht'
    rw [IMemMap.find_modify] at hd
    split_ifs at hd with hk
    · subst hk; rw [hf] at hd; exact .inl (Option.some.inj hd).symm
    · exact .inr ⟨s.active, hact, hd⟩
  · rw [hs, List.mem_singleton] at ht; subst ht
    by_cases hk : pc = k
    · subst hk; rw [hf] at hd; exact .inl (Option.some.inj hd).symm
    · exact .inr ⟨_, by rw [ht]; exact List.mem_singleton_self _,
        by rw [IMemMap.find_modify, if_neg hk]; exact hd⟩

end Single

/-- INTERNAL: one `countStep` of `IMem` keeps the invariant.
SOURCE: stf_imem.hpp:699-701, 736-792 -/
theorem MaxInv.imem_countStep {r : IMemMapVec × List Diag} {seen : List STFInst}
    (hinv : IMemInv r seen) (h : MaxInv r.1) (config : STFImemConfig) (e : STFInst) :
    MaxInv (StfTools.countStep IMem.countImpl config e r).1 := by
  have hs := imemMapvec_eq_active hinv.single hinv.itv_zero
  have hset : ∀ (x : IMemMapVec) (n : Nat), MaxInv x → MaxInv { x with instCount := n } :=
    fun x n hx => hx.congr rfl (maxOf_setInstCount x n)
  rcases imem_countImpl_cases config e r.1 with ⟨hf, hc⟩ | ⟨cur, hf, -, hc⟩ | ⟨cur, -, -, hc⟩ <;>
    simp only [StfTools.countStep, hc] <;> apply hset
  · exact h.adds (addsEntry_single hs hinv.itv_zero hf fun c => by
      obtain ⟨h1, h2, h3⟩ := IMem.newEntry_counters e (decide (r.1.instCount < config.warmupCount.toNat))
      cases c <;> split_ifs at h2 h3 <;> simp [h1, h2, h3])
  · exact h.counts (countsEntry_single hs hinv.itv_zero config hf (historyStep e)
      fun c => counter_historyStep e _ c)
  · exact h

/-- INTERNAL: a hit of `JavaIMem` counts one entry.
SOURCE: stf_imem.hpp:807-816, 840-849 -/
theorem JavaHit.countsEntry {config : STFImemConfig} {e : STFInst} {s s' : IMemMapVec} {i : Nat}
    {t : IMemMap} {cur : IMemData} (h : JavaHit config e s s' i t cur) :
    CountsEntry config s s' cur (s.countHit config cur).2 := by
  have hts : s'.imemMapvec =
      s.imemMapvec.modify (·.modify e.pc fun _ => (s.countHit config cur).2) i := by
    rw [h.eq]; simp
  have ht : t ∈ s.imemMapvec := List.mem_iff_getElem?.mpr ⟨i, h.get⟩
  have hfind : ∀ pc, (t.modify e.pc fun _ => (s.countHit config cur).2).find pc =
      if e.pc = pc then some (s.countHit config cur).2 else t.find pc := fun pc => by
    rw [IMemMap.find_modify, h.find]; rfl
  have hmem : (t.modify e.pc fun _ => (s.countHit config cur).2) ∈ s'.imemMapvec := by
    rw [hts]; exact mem_modify_self _ h.get
  refine ⟨fun c => by rw [h.eq]; cases c <;> rfl, fun _ => rfl, ⟨t, ht, e.pc, h.find⟩,
    ⟨_, hmem, e.pc, by rw [hfind, if_pos rfl]⟩, fun u hu pc d hd => ?_, fun u hu pc d hd => ?_⟩
  · rw [hts] at hu
    rcases mem_modify hu with ⟨k, -, hk⟩ | ⟨y, hy, rfl⟩
    · exact .inr ⟨u, List.mem_iff_getElem?.mpr ⟨k, hk⟩, hd⟩
    · rw [h.get] at hy; cases hy
      rw [hfind] at hd
      split_ifs at hd
      · exact .inl (Option.some.inj hd).symm
      · exact .inr ⟨t, ht, hd⟩
  · obtain ⟨k, hk⟩ := List.mem_iff_getElem?.mp hu
    by_cases hki : k = i
    · subst hki; rw [h.get] at hk; cases hk
      by_cases hpc : e.pc = pc
      · subst hpc; rw [h.find] at hd; exact .inl (Option.some.inj hd).symm
      · exact .inr ⟨_, hmem, by rw [hfind, if_neg hpc]; exact hd⟩
    · refine .inr ⟨u, ?_, hd⟩
      rw [hts]; exact mem_modify_of_ne _ hk hki

/-- INTERNAL: an insertion of `JavaIMem` adds one entry.
SOURCE: stf_imem.hpp:850-860 -/
theorem JavaInsert.addsEntry {config : STFImemConfig} {e : STFInst} {s s' : IMemMapVec}
    {ts : List IMemMap} {j : Nat} {t : IMemMap} (h : JavaInsert config e s s' ts j t) :
    AddsEntry s s' (createIMem_ e.pc e 0 (decide (s.instCount < config.warmupCount.toNat))).2 := by
  generalize hnew : (createIMem_ e.pc e 0 (decide (s.instCount < config.warmupCount.toNat))).2 = new
  have hts : s'.imemMapvec = ts.modify (·.insert e.pc new) j := by rw [h.eq, hnew]
  have hfind : ∀ pc, (t.insert e.pc new).find pc = if e.pc = pc then some new else t.find pc :=
    fun pc => IMemMap.find_insert_of_find_eq_none h.absent pc new
  have hmem : t.insert e.pc new ∈ s'.imemMapvec := by
    rw [hts]; exact mem_modify_self _ h.get
  refine ⟨fun c => by rw [h.eq]; cases c <;> rfl, fun c => hnew ▸ counter_make_le e.isOpcode16 e.opcode 0 _ false false 0 c,
    fun u hu pc d hd => ?_, fun u hu pc d hd => ?_⟩
  · rw [hts] at hu
    rcases mem_modify hu with ⟨k, -, hk⟩ | ⟨y, hy, rfl⟩
    · rcases h.mem_tables (List.mem_iff_getElem?.mpr ⟨k, hk⟩) with rfl | hu'
      · simp at hd
      · exact .inr ⟨u, hu', hd⟩
    · rw [h.get] at hy; cases hy
      rw [hfind] at hd
      split_ifs at hd
      · exact .inl (Option.some.inj hd).symm
      · rcases h.mem_tables (List.mem_iff_getElem?.mpr ⟨j, h.get⟩) with rfl | ht'
        · simp at hd
        · exact .inr ⟨t, ht', hd⟩
  · have hu' : u ∈ ts := by
      rw [h.tables]; split_ifs
      exacts [List.mem_cons_of_mem _ hu, hu]
    obtain ⟨k, hk⟩ := List.mem_iff_getElem?.mp hu'
    by_cases hkj : k = j
    · subst hkj; rw [h.get] at hk; cases hk
      have hpc : e.pc ≠ pc := fun he => by have := h.absent; rw [he, hd] at this; cases this
      exact ⟨_, hmem, by rw [hfind, if_neg hpc]; exact hd⟩
    · refine ⟨u, ?_, hd⟩
      rw [hts]; exact mem_modify_of_ne _ hk hkj

/-- INTERNAL: one `countStep` of `JavaIMem` keeps the invariant.
SOURCE: stf_imem.hpp:699-701, 802-862 -/
theorem MaxInv.java_countStep {r : IMemMapVec × List Diag} {seen : List STFInst}
    (hinv : JavaInv r.1 seen) (h : MaxInv r.1) (config : STFImemConfig) (e : STFInst) :
    MaxInv (StfTools.countStep JavaIMem.countImpl config e r).1 := by
  have hstep : MaxInv (JavaIMem.countImpl config e r.1).1 := by
    rcases (java_countImpl_cases config e r.1 hinv.itv_lt).2 with ⟨i, t, cur, hh⟩ | ⟨ts, j, t, hi⟩
    · exact h.counts hh.countsEntry
    · exact h.adds hi.addsEntry
  exact hstep.congr rfl (maxOf_setInstCount _ _)

/-- INTERNAL: every run of either profiler from the constructor's state keeps the
invariant.
SOURCE: stf_imem.hpp:673-706 -/
theorem maxInv_countRun (config : STFImemConfig) (evs : List STFInst) :
    MaxInv (countRun IMem.countImpl config evs (IMemMapVec.init, [])).1 ∧
      MaxInv (countRun JavaIMem.countImpl config evs (IMemMapVec.init, [])).1 := by
  have h0 : MaxInv IMemMapVec.init :=
    ⟨fun c => by cases c <;> exact Nat.zero_le _, fun c _ ht _ _ hd => by
      simp [IMemMapVec.init] at ht; simp [ht] at hd⟩
  refine ⟨(countRun_inv IMem.countImpl config (fun r seen => IMemInv r seen ∧ MaxInv r.1)
    (fun _ _ e h => ⟨h.1.countStep config e, h.2.imem_countStep h.1 config e⟩) evs _ []
    ⟨imemInv_init, h0⟩).2, (countRun_inv JavaIMem.countImpl config
    (fun r seen => JavaInv r.1 seen ∧ MaxInv r.1)
    (fun _ _ e h => ⟨(h.1.countStep config e).1, h.2.java_countStep h.1 config e⟩) evs _ []
    ⟨javaInv_init, h0⟩).2⟩

/-! ## The maxima after a run -/

/-- INTERNAL: the invariant pins a maximum to the largest value of its counter,
but for a largest value of 1 where it may be 0.
SOURCE: stf_imem.hpp:467-480 -/
theorem MaxInv.maxOf_eq {s : IMemMapVec} (h : MaxInv s) (c : Counter) :
    s.maxOf c = tablesMax c s.imemMapvec ∨ (s.maxOf c = 0 ∧ tablesMax c s.imemMapvec = 1) := by
  have hle := h.le_max c
  by_cases h2 : 2 ≤ tablesMax c s.imemMapvec
  · obtain ⟨t, ht, pc, d, hd, hmax⟩ := exists_eq_tablesMax (by omega : 0 < tablesMax c s.imemMapvec)
    have := h.bound c t ht pc d hd
    omega
  · omega

/-- INTERNAL: the width of a column is the same for a maximum of 0 as for 1.
SOURCE: stf_imem.hpp:517-521 -/
theorem width_eq {a b : Nat} (h : a = b ∨ (a = 0 ∧ b = 1)) :
    max 8 (numDecimalDigits a) = max 8 (numDecimalDigits b) := by
  rcases h with rfl | ⟨rfl, rfl⟩
  · rfl
  · decide

/-- For both profilers, every sequence of admitted instructions and every counter:
the maximum kept for the counter is the largest value of that counter over the
entries of all tables, except that it may have stayed 0 when that largest value is
1; so the column width `print` derives from it is the width of the real maximum. -/
theorem maxima_of_runs (config : STFImemConfig) (evs : List STFInst) (c : Counter) :
    ((countRun IMem.countImpl config evs (IMemMapVec.init, [])).1.maxOf c =
        tablesMax c (countRun IMem.countImpl config evs (IMemMapVec.init, [])).1.imemMapvec ∨
      ((countRun IMem.countImpl config evs (IMemMapVec.init, [])).1.maxOf c = 0 ∧
        tablesMax c (countRun IMem.countImpl config evs (IMemMapVec.init, [])).1.imemMapvec = 1)) ∧
    ((countRun JavaIMem.countImpl config evs (IMemMapVec.init, [])).1.maxOf c =
        tablesMax c (countRun JavaIMem.countImpl config evs (IMemMapVec.init, [])).1.imemMapvec ∨
      ((countRun JavaIMem.countImpl config evs (IMemMapVec.init, [])).1.maxOf c = 0 ∧
        tablesMax c (countRun JavaIMem.countImpl config evs (IMemMapVec.init, [])).1.imemMapvec =
          1)) ∧
    max 8 (numDecimalDigits ((countRun IMem.countImpl config evs (IMemMapVec.init, [])).1.maxOf c)) =
      max 8 (numDecimalDigits
        (tablesMax c (countRun IMem.countImpl config evs (IMemMapVec.init, [])).1.imemMapvec)) ∧
    max 8 (numDecimalDigits
        ((countRun JavaIMem.countImpl config evs (IMemMapVec.init, [])).1.maxOf c)) =
      max 8 (numDecimalDigits
        (tablesMax c (countRun JavaIMem.countImpl config evs (IMemMapVec.init, [])).1.imemMapvec)) := by
  obtain ⟨hI, hJ⟩ := maxInv_countRun config evs
  exact ⟨hI.maxOf_eq c, hJ.maxOf_eq c, width_eq (hI.maxOf_eq c), width_eq (hJ.maxOf_eq c)⟩

/-- One admitted instruction leaves either profiler with an entry counting one
execution, in its count and its run length, and with `max_count_` and
`max_run_length_` still 0. -/
theorem newEntry_leaves_maxima :
    ((countRun IMem.countImpl {} [simpleInst 0x1000 0x13] (IMemMapVec.init, [])).1.active.find
        0x1000).map (fun d => (d.count, d.runlength)) = some (1, 1) ∧
      (countRun IMem.countImpl {} [simpleInst 0x1000 0x13] (IMemMapVec.init, [])).1.maxCount = 0 ∧
      (countRun IMem.countImpl {} [simpleInst 0x1000 0x13]
        (IMemMapVec.init, [])).1.maxRunLength = 0 ∧
      ((countRun JavaIMem.countImpl {} [simpleInst 0x1000 0x13] (IMemMapVec.init, [])).1.active.find
        0x1000).map (fun d => (d.count, d.runlength)) = some (1, 1) ∧
      (countRun JavaIMem.countImpl {} [simpleInst 0x1000 0x13]
        (IMemMapVec.init, [])).1.maxCount = 0 ∧
      (countRun JavaIMem.countImpl {} [simpleInst 0x1000 0x13]
        (IMemMapVec.init, [])).1.maxRunLength = 0 := by
  decide

/-! ## The final assertion of the sorted report -/

/-- INTERNAL: after a nonempty run of `IMem`, its table holds an entry, so the
sorted report is not skipped as empty.
SOURCE: stf_imem.hpp:604-608, 736-792 -/
theorem visitOrder_ne_nil_of_seen {r : IMemMapVec × List Diag} {seen : List STFInst}
    (hi : IMemInv r seen) (h : HistInv r seen) (hne : seen ≠ []) : visitOrder r.1 ≠ [] := by
  obtain ⟨x, hx⟩ := List.exists_mem_of_ne_nil seen hne
  obtain ⟨d, hd⟩ := Option.isSome_iff_exists.mp (h.keyed x hx)
  rw [visitOrder, imemMapvec_eq_active hi.single hi.itv_zero]
  simpa using List.ne_nil_of_mem ((IMemMap.find_eq_some_iff _ _ _).mp hd)

/-- For every configuration with `sort_output` set and every sequence of admitted
instructions, the sorted report of `JavaIMem` never stops at its final
`stf_assert`, and that of `IMem` stops there exactly when `IMem` wrote a
`two opcodes` warning. -/
theorem sorted_report_assertion (config : STFImemConfig) (h : config.sortOutput = true)
    (isStdout : Bool) (evs : List STFInst) :
    ((countRun JavaIMem.countImpl config evs (IMemMapVec.init, [])).1.print config
        isStdout).sorted.assertFired = false ∧
      (((countRun IMem.countImpl config evs (IMemMapVec.init, [])).1.print config
        isStdout).sorted.assertFired = true ↔
        (countRun IMem.countImpl config evs (IMemMapVec.init, [])).2 ≠ []) := by
  have hJ := javaCounted_countRun config evs
  have hI := imemCounted_countRun config evs
  have hinv : IMemInv (countRun IMem.countImpl config evs (IMemMapVec.init, [])) evs := by
    simpa using countRun_inv IMem.countImpl config IMemInv (fun _ _ e h => h.countStep config e)
      evs _ [] imemInv_init
  refine ⟨?_, ?_⟩
  · -- every execution `JavaIMem` admits is counted
    rw [print_sorted h, hJ.inv.total, hJ.instCount]
    split_ifs with _ hne
    · rfl
    · rfl
    · exact absurd rfl hne
  · have hc := hinv.counted
    rw [print_sorted h, hI.instCount]
    by_cases hw : (countRun IMem.countImpl config evs (IMemMapVec.init, [])).2 = []
    · -- no warning: the counts add up to `inst_count_`
      rw [hw, List.length_nil, Nat.add_zero] at hc
      simp only [hc, hw]
      split_ifs <;> simp [SortedOutput.assertFired]
    · -- a warning: an execution went uncounted, in a table that is not empty
      have hv := visitOrder_ne_nil_of_seen hinv hI.hist fun he => hw (by subst he; rfl)
      have htot := List.length_pos.mpr hw
      rw [if_neg hv, if_neg (by omega)]
      simp [SortedOutput.assertFired, hw]

/-- The opcodes `0x13` and then `0x73` at PC `0x1000`, sorted: `JavaIMem`'s
report passes its assertion and `IMem`'s stops at it, after its warning. -/
theorem sorted_report_assertion_two_opcodes :
    ({ sortOutput := true } : STFImemConfig).sortOutput = true ∧
      (((countRun JavaIMem.countImpl { sortOutput := true }
          [simpleInst 0x1000 0x13, simpleInst 0x1000 0x73] (IMemMapVec.init, [])).1.print
          { sortOutput := true } false).sorted.assertFired = false ∧
        (((countRun IMem.countImpl { sortOutput := true }
          [simpleInst 0x1000 0x13, simpleInst 0x1000 0x73] (IMemMapVec.init, [])).1.print
          { sortOutput := true } false).sorted.assertFired = true ↔
          (countRun IMem.countImpl { sortOutput := true }
            [simpleInst 0x1000 0x13, simpleInst 0x1000 0x73] (IMemMapVec.init, [])).2 ≠ [])) :=
  ⟨rfl, sorted_report_assertion { sortOutput := true } rfl false _⟩

end StfTools.Analysis
