import StfTools.Analysis.Histories
import StfTools.Analysis.JavaTables

/-!
# The counters of an entry, by admission position

Each instruction reaches `count_impl` at an admission position, the value of
`inst_count_` at that moment. A match path (stf_imem.hpp:769-775, 807-815,
841-847) adds the instruction to the entry's count, and to its warm-up count when
the position is before `warmup_count`, else to its run length when it is before
`runlength_count`. The creation path hands the same test to the constructor
(stf_imem.hpp:95-97), which puts the first execution in the warm-up count inside
the window and in the run length anywhere past it: the run-length window is not
consulted.

So for both profilers, every entry of every table holds the counters of the
positions of its instructions (`entry_counters_by_position`), with one more run
length than the windows give when the creating position is past both windows
(`newEntry_runLength_past_window`).
-/

set_option autoImplicit false

namespace StfTools.Analysis

open StfTools IMemMapVec Interface

/-! ## Positions and the counters they give -/

/-- The admission positions of the instructions of `seen` at `pc` with opcode
`op`, in order. -/
def positions (pc : UInt64) (op : UInt32) (seen : List STFInst) : List Nat :=
  (seen.enum.filter fun x => x.2.pc == pc && x.2.opcode == op).map Prod.fst

/-- INTERNAL: the positions after one more instruction, admitted at position
`seen.length`.
SOURCE: stf_imem.hpp:699-701 -/
theorem positions_append_singleton (pc : UInt64) (op : UInt32) (seen : List STFInst)
    (inst : STFInst) :
    positions pc op (seen ++ [inst]) =
      positions pc op seen ++ if inst.pc = pc ∧ inst.opcode = op then [seen.length] else [] := by
  by_cases h : inst.pc = pc ∧ inst.opcode = op <;> simp [positions, List.enum_append, h]

/-- INTERNAL: a pair never seen has no position.
SOURCE: stf_imem.hpp:699-701 -/
theorem positions_eq_nil {pc : UInt64} {op : UInt32} {seen : List STFInst}
    (h : ∀ x ∈ seen, ¬(x.pc = pc ∧ x.opcode = op)) : positions pc op seen = [] := by
  simp only [positions, List.map_eq_nil_iff, List.filter_eq_nil_iff]
  intro x hx
  simpa using h x.2 (List.snd_mem_of_mem_enum hx)

/-- The counters of an entry whose instructions were admitted at positions
`p₀ :: ps`, `p₀` the creating one: one execution each, in the warm-up count those
before `warmup_count`, in the run length those from `warmup_count` up to
`runlength_count`, and the creating one in the run length also when it is past
both windows. -/
structure CountersHold (config : STFImemConfig) (d : IMemData) (p₀ : Nat) (ps : List Nat) :
    Prop where
  count : d.count = ps.length + 1
  warmup : d.warmup = (p₀ :: ps).countP (· < config.warmupCount.toNat)
  runlength : d.runlength =
    ((p₀ :: ps).countP fun p => config.warmupCount.toNat ≤ p ∧ p < config.runlengthCount.toNat) +
      if config.runlengthCount.toNat ≤ p₀ ∧ config.warmupCount.toNat ≤ p₀ then 1 else 0

section Counters

variable {config : STFImemConfig}

/-- INTERNAL: a new entry, built with `in_warmup` the test of its position, holds
the counters of that position.
SOURCE: stf_imem.hpp:95-97 -/
theorem countersHold_new {d : IMemData} (n : Nat) (hc : d.count = 1)
    (hw : d.warmup = if decide (n < config.warmupCount.toNat) then 1 else 0)
    (hr : d.runlength = if decide (n < config.warmupCount.toNat) then 0 else 1) :
    CountersHold config d n [] := by
  refine ⟨hc, ?_, ?_⟩ <;>
    simp only [hw, hr, List.countP_cons, List.countP_nil, decide_eq_true_eq] <;> split_ifs <;> omega

/-- INTERNAL: the increments of a match path at position `s.instCount` add that
position.
SOURCE: stf_imem.hpp:769-775 -/
theorem CountersHold.countHit {d : IMemData} {p₀ : Nat} {ps : List Nat}
    (h : CountersHold config d p₀ ps) (s : IMemMapVec) :
    CountersHold config (s.countHit config d).2 p₀ (ps ++ [s.instCount]) := by
  obtain ⟨hc, hw, hr⟩ := h
  have hcons : ∀ q : Nat → Bool, (p₀ :: (ps ++ [s.instCount])).countP q =
      (p₀ :: ps).countP q + if q s.instCount then 1 else 0 := fun q => by
    rw [← List.cons_append, List.countP_append]; simp [List.countP_cons]
  rw [countHit_snd]
  split_ifs <;> refine ⟨?_, ?_, ?_⟩ <;>
    simp only [IMemData.bump, hcons, hc, hw, hr, List.length_append, List.length_singleton,
      decide_eq_true_eq] <;> split_ifs <;> omega

/-- INTERNAL: a history update leaves the counters.
SOURCE: stf_imem.hpp:776-780 -/
theorem CountersHold.historyStep {d : IMemData} {p₀ : Nat} {ps : List Nat}
    (h : CountersHold config d p₀ ps) (inst : STFInst) :
    CountersHold config (historyStep inst d) p₀ ps := by
  unfold StfTools.historyStep
  split_ifs
  exacts [⟨h.1, h.2, h.3⟩, ⟨h.1, h.2, h.3⟩, h]

/-- The entry `d` at `pc` holds the counters of the positions of its instructions,
those of `seen` at `pc` with its opcode. -/
def EntryCounted (config : STFImemConfig) (seen : List STFInst) (pc : UInt64) (d : IMemData) :
    Prop :=
  ∃ p₀ ps, positions pc d.opcode seen = p₀ :: ps ∧ CountersHold config d p₀ ps

/-- INTERNAL: an instruction not counted into an entry leaves its counters.
SOURCE: stf_imem.hpp:736-862 -/
theorem EntryCounted.append_other {seen : List STFInst} {pc : UInt64} {d : IMemData}
    (h : EntryCounted config seen pc d) {inst : STFInst}
    (hi : ¬(inst.pc = pc ∧ inst.opcode = d.opcode)) : EntryCounted config (seen ++ [inst]) pc d := by
  obtain ⟨p₀, ps, hp, hc⟩ := h
  exact ⟨p₀, ps, by rw [positions_append_singleton, if_neg hi, hp, List.append_nil], hc⟩

/-- INTERNAL: an instruction counted into an entry at position `seen.length` adds
that position.
SOURCE: stf_imem.hpp:769-775, 807-815, 841-847 -/
theorem EntryCounted.append_hit {seen : List STFInst} {pc : UInt64} {d : IMemData}
    (h : EntryCounted config seen pc d) {inst : STFInst} (hpc : inst.pc = pc)
    (hop : inst.opcode = d.opcode) {s : IMemMapVec} (hn : s.instCount = seen.length) :
    EntryCounted config (seen ++ [inst]) pc (s.countHit config d).2 := by
  obtain ⟨p₀, ps, hp, hc⟩ := h
  refine ⟨p₀, ps ++ [s.instCount], ?_, hc.countHit s⟩
  rw [opcode_countHit, positions_append_singleton, if_pos ⟨hpc, hop⟩, hp, hn]; rfl

/-- INTERNAL: a history update leaves the counters.
SOURCE: stf_imem.hpp:776-780 -/
theorem EntryCounted.historyStep {seen : List STFInst} {pc : UInt64} {d : IMemData}
    (h : EntryCounted config seen pc d) (inst : STFInst) :
    EntryCounted config seen pc (StfTools.historyStep inst d) := by
  obtain ⟨p₀, ps, hp, hc⟩ := h
  exact ⟨p₀, ps, by rw [opcode_historyStep, hp], hc.historyStep inst⟩

/-- INTERNAL: the entry created for the first instruction of its pair, at position
`seen.length`, holds the counters of that position.
SOURCE: stf_imem.hpp:757-766, 855-859 -/
theorem entryCounted_new {seen : List STFInst} {inst : STFInst}
    (hnone : ∀ x ∈ seen, ¬(x.pc = inst.pc ∧ x.opcode = inst.opcode)) {d : IMemData}
    (hop : d.opcode = inst.opcode) (hc : d.count = 1)
    (hw : d.warmup = if decide (seen.length < config.warmupCount.toNat) then 1 else 0)
    (hr : d.runlength = if decide (seen.length < config.warmupCount.toNat) then 0 else 1) :
    EntryCounted config (seen ++ [inst]) inst.pc d :=
  ⟨seen.length, [], by rw [hop, positions_append_singleton, positions_eq_nil hnone,
    if_pos ⟨rfl, rfl⟩]; rfl, countersHold_new _ hc hw hr⟩

end Counters

/-! ## `IMem` -/

/-- INTERNAL: the counters of the entry `IMem` creates.
SOURCE: stf_imem.hpp:757-766 -/
theorem IMem.newEntry_counters (inst : STFInst) (w : Bool) :
    (IMem.newEntry inst w).2.count = 1 ∧ (IMem.newEntry inst w).2.warmup = (if w then 1 else 0) ∧
      (IMem.newEntry inst w).2.runlength = if w then 0 else 1 := by
  unfold IMem.newEntry createIMemAddr_ createIMemBranch_ createIMem_
  split_ifs <;> simp_all

/-- The state of an `IMem` run after the instructions `seen`: the history
invariant, `inst_count_` at their number, and every entry of the active table
holding the counters of its positions. -/
structure IMemCounted (config : STFImemConfig) (r : IMemMapVec × List Diag)
    (seen : List STFInst) : Prop where
  hist : HistInv r seen
  instCount : r.1.instCount = seen.length
  entries : ∀ pc d, r.1.active.find pc = some d → EntryCounted config seen pc d

/-- INTERNAL: one `countStep` of `IMem` keeps the invariant.
SOURCE: stf_imem.hpp:699-701, 736-792 -/
theorem IMemCounted.countStep {config : STFImemConfig} {r : IMemMapVec × List Diag}
    {seen : List STFInst} (h : IMemCounted config r seen) (inst : STFInst) :
    IMemCounted config (countStep IMem.countImpl config inst r) (seen ++ [inst]) := by
  have hn : (StfTools.countStep IMem.countImpl config inst r).1.instCount =
      (seen ++ [inst]).length := by
    simp [StfTools.countStep, h.instCount]
  refine ⟨h.hist.countStep config inst, hn, h.hist.entries_countStep config inst h.entries
    (fun _ _ hd hi => hd.append_other hi)
    (fun cur hf hop => ((h.entries _ cur hf).append_hit rfl hop.symm h.instCount).historyStep inst)
    fun hnone => ?_⟩
  rw [h.instCount]
  obtain ⟨hc, hw, hr⟩ := IMem.newEntry_counters inst (decide (seen.length < config.warmupCount.toNat))
  exact entryCounted_new (fun x hx he => hnone x hx he.1) (IMem.newEntry_opcode _ _) hc hw hr

/-- INTERNAL: every `IMem` run from the constructor's state keeps the invariant.
SOURCE: stf_imem.hpp:673-706 -/
theorem imemCounted_countRun (config : STFImemConfig) (evs : List STFInst) :
    IMemCounted config (countRun IMem.countImpl config evs (IMemMapVec.init, [])) evs := by
  simpa using countRun_inv IMem.countImpl config (IMemCounted config)
    (fun _ _ e h => h.countStep e) evs _ []
    ⟨histInv_init, rfl, fun _ _ h => by simp [IMemMapVec.init, active] at h⟩

/-- INTERNAL: a collection of one table designated by the cursor is that table.
SOURCE: stf_imem.hpp:326 -/
theorem imemMapvec_eq_active {s : IMemMapVec} (h1 : s.imemMapvec.length = 1) (h0 : s.itv = 0) :
    s.imemMapvec = [s.active] := by
  match hs : s.imemMapvec, h1 with
  | [t], _ => simp [active, hs, h0]

/-! ## `JavaIMem` -/

/-- INTERNAL: a member of a list after an update at index `i`: an element at
another index, or the update of the element at `i`.
SOURCE: stf_imem.hpp:815, 848, 859 -/
theorem mem_modify {α : Type} {f : α → α} {l : List α} {i : Nat} {x : α}
    (hx : x ∈ l.modify f i) : (∃ k, k ≠ i ∧ l[k]? = some x) ∨ ∃ y, l[i]? = some y ∧ x = f y := by
  obtain ⟨k, hk⟩ := List.mem_iff_getElem?.mp hx
  rw [List.getElem?_modify] at hk
  by_cases hki : i = k
  · subst hki
    cases hy : l[i]? with
    | none => simp [hy] at hk
    | some y => exact .inr ⟨y, rfl, by simpa [hy] using hk.symm⟩
  · exact .inl ⟨k, Ne.symm hki, by simpa [hki] using hk⟩

/-- INTERNAL: the update of the element at `i` is in the updated list.
SOURCE: stf_imem.hpp:807-860 -/
theorem mem_modify_self {α : Type} (f : α → α) {l : List α} {i : Nat} {x : α}
    (hx : l[i]? = some x) : f x ∈ l.modify f i :=
  List.mem_iff_getElem?.mpr ⟨i, by simp [List.getElem?_modify, hx]⟩

/-- INTERNAL: an element at another index stays in the updated list.
SOURCE: stf_imem.hpp:807-860 -/
theorem mem_modify_of_ne {α : Type} (f : α → α) {l : List α} {i k : Nat} {x : α}
    (hx : l[k]? = some x) (hk : k ≠ i) : x ∈ l.modify f i :=
  List.mem_iff_getElem?.mpr ⟨k, by simp [List.getElem?_modify, hx, Ne.symm hk]⟩

/-- INTERNAL: two tables at different indices contribute two terms of a sum over
the tables.
SOURCE: stf_imem.hpp:819-838 -/
theorem add_le_tableSum {g : Option IMemData → Nat} {pc : UInt64} {ts : List IMemMap} {k i : Nat}
    {u t : IMemMap} (hki : k ≠ i) (hk : ts[k]? = some u) (hi : ts[i]? = some t) :
    g (u.find pc) + g (t.find pc) ≤ tableSum g pc ts := by
  induction ts generalizing k i with
  | nil => simp at hk
  | cons x ts ih =>
    have hle : ∀ {n : Nat} {v : IMemMap}, ts[n]? = some v → g (v.find pc) ≤ tableSum g pc ts :=
      fun h => le_tableSum (List.mem_iff_getElem?.mpr ⟨_, h⟩)
    simp only [tableSum_cons]
    rcases k with _ | k <;> rcases i with _ | i <;>
      simp only [List.getElem?_cons_zero, List.getElem?_cons_succ, Option.some.injEq] at hk hi
    · exact absurd rfl hki
    · subst hk; have := hle hi; omega
    · subst hi; have := hle hk; omega
    · have := ih (fun h => hki (congrArg (· + 1) h)) hk hi; omega

/-- INTERNAL: at most one table holds a (PC, opcode) pair.
SOURCE: stf_imem.hpp:802-862 -/
theorem JavaInv.index_unique {s : IMemMapVec} {seen : List STFInst} (hinv : JavaInv s seen)
    {k i : Nat} {u t : IMemMap} (hk : s.imemMapvec[k]? = some u) (hi : s.imemMapvec[i]? = some t)
    {pc : UInt64} {d d' : IMemData} (hu : u.find pc = some d) (ht : t.find pc = some d')
    (hop : d.opcode = d'.opcode) : k = i := by
  by_contra hki
  have := @add_le_tableSum (holdsInd d.opcode) pc _ _ _ _ _ hki hk hi
  rw [hinv.holds, hu, ht] at this
  simp only [holdsInd, hop, if_true] at this
  omega

/-- INTERNAL: the tables an insertion chooses from: the collection, with an empty
table in front when every table held the PC.
SOURCE: stf_imem.hpp:850-854 -/
theorem JavaInsert.mem_tables {config : STFImemConfig} {e : STFInst} {s s' : IMemMapVec}
    {ts : List IMemMap} {j : Nat} {t : IMemMap} (h : JavaInsert config e s s' ts j t) {u : IMemMap}
    (hu : u ∈ ts) : u = IMemMap.empty ∨ u ∈ s.imemMapvec := by
  rw [h.tables] at hu
  split_ifs at hu
  · exact List.mem_cons.mp hu
  · exact .inr hu

/-- The state of a `JavaIMem` run after the instructions `seen`: the table
invariant, `inst_count_` at their number, and every entry of every table holding
the counters of its positions. -/
structure JavaCounted (config : STFImemConfig) (s : IMemMapVec) (seen : List STFInst) : Prop where
  inv : JavaInv s seen
  instCount : s.instCount = seen.length
  entries : ∀ t ∈ s.imemMapvec, ∀ pc d, t.find pc = some d → EntryCounted config seen pc d

section Java

variable {config : STFImemConfig} {e : STFInst} {s s' : IMemMapVec} {seen : List STFInst}

/-- INTERNAL: after a hit every entry holds the counters of its positions.
SOURCE: stf_imem.hpp:807-816, 840-849 -/
theorem JavaCounted.hit (h : JavaCounted config s seen) {i : Nat} {t : IMemMap} {cur : IMemData}
    (hh : JavaHit config e s s' i t cur) :
    ∀ u ∈ s'.imemMapvec, ∀ pc d, u.find pc = some d → EntryCounted config (seen ++ [e]) pc d := by
  have hts : s'.imemMapvec = s.imemMapvec.modify
      (·.modify e.pc fun _ => (s.countHit config cur).2) i := by
    rw [hh.eq]; simp
  intro u hu pc d hd
  rw [hts] at hu
  rcases mem_modify hu with ⟨k, hki, hk⟩ | ⟨y, hy, rfl⟩
  · -- another table: it does not hold the pair
    refine (h.entries u (List.mem_iff_getElem?.mpr ⟨k, hk⟩) pc d hd).append_other ?_
    rintro ⟨rfl, hop⟩
    exact hki (h.inv.index_unique hk hh.get hd hh.find (hop.symm.trans hh.opcode.symm))
  · -- the table of the hit
    rw [hh.get] at hy; cases hy
    rw [IMemMap.find_modify] at hd
    split_ifs at hd with hpc
    · subst hpc; rw [hh.find] at hd; cases hd
      exact (h.entries t (List.mem_iff_getElem?.mpr ⟨i, hh.get⟩) _ cur hh.find).append_hit rfl
        hh.opcode.symm h.instCount
    · exact (h.entries t (List.mem_iff_getElem?.mpr ⟨i, hh.get⟩) pc d hd).append_other
        fun hi => hpc hi.1

/-- INTERNAL: after an insertion every entry holds the counters of its positions.
SOURCE: stf_imem.hpp:850-860 -/
theorem JavaCounted.insert (h : JavaCounted config s seen) {ts : List IMemMap} {j : Nat}
    {t : IMemMap} (hi : JavaInsert config e s s' ts j t) :
    ∀ u ∈ s'.imemMapvec, ∀ pc d, u.find pc = some d → EntryCounted config (seen ++ [e]) pc d := by
  have old : ∀ u ∈ ts, ∀ pc d, u.find pc = some d → EntryCounted config seen pc d :=
    fun u hu pc d hd => by
      rcases hi.mem_tables hu with rfl | hu
      · simp at hd
      · exact h.entries u hu pc d hd
  intro u hu pc d hd
  rw [hi.eq] at hu
  rcases mem_modify hu with ⟨k, -, hk⟩ | ⟨y, hy, rfl⟩
  · -- another table: the pair is new
    have hu := List.mem_iff_getElem?.mpr ⟨k, hk⟩
    refine (old u hu pc d hd).append_other ?_
    rintro ⟨rfl, hop⟩
    rcases hi.mem_tables hu with rfl | hu
    · simp at hd
    · exact hi.unheld u hu d hd hop.symm
  · -- the table of the insertion
    rw [hi.get] at hy; cases hy
    rw [IMemMap.find_insert_of_find_eq_none hi.absent] at hd
    split_ifs at hd with hpc
    · cases hd; subst hpc
      have hnone : ∀ x ∈ seen, ¬(x.pc = e.pc ∧ x.opcode = e.opcode) := fun x hx hxe => by
        have := h.inv.occurrences_eq_zero hi
        rw [occurrences, List.countP_eq_zero] at this
        exact this x hx (by simpa using hxe)
      rw [h.instCount]
      obtain ⟨hc, hw, hr⟩ := IMemData.make_counters e.isOpcode16 e.opcode 0
        (decide (seen.length < config.warmupCount.toNat)) false false 0
      exact entryCounted_new hnone (IMemData.make_ident ..).1 hc hw hr
    · exact (old t (List.mem_iff_getElem?.mpr ⟨j, hi.get⟩) pc d hd).append_other
        fun hi => hpc hi.1

/-- INTERNAL: one `countStep` of `JavaIMem` keeps the invariant.
SOURCE: stf_imem.hpp:699-701, 802-862 -/
theorem JavaCounted.countStep {r : IMemMapVec × List Diag} (h : JavaCounted config r.1 seen)
    (e : STFInst) :
    JavaCounted config (countStep JavaIMem.countImpl config e r).1 (seen ++ [e]) := by
  refine ⟨(h.inv.countStep config e).1, by simp [StfTools.countStep, h.instCount], ?_⟩
  show ∀ u ∈ (JavaIMem.countImpl config e r.1).1.imemMapvec, _
  rcases (java_countImpl_cases config e r.1 h.inv.itv_lt).2 with ⟨i, t, cur, hh⟩ | ⟨ts, j, t, hi⟩
  · exact h.hit hh
  · exact h.insert hi

end Java

/-- INTERNAL: every `JavaIMem` run from the constructor's state keeps the invariant.
SOURCE: stf_imem.hpp:673-706 -/
theorem javaCounted_countRun (config : STFImemConfig) (evs : List STFInst) :
    JavaCounted config (countRun JavaIMem.countImpl config evs (IMemMapVec.init, [])).1 evs := by
  simpa using countRun_inv JavaIMem.countImpl config (fun r seen => JavaCounted config r.1 seen)
    (fun _ _ e h => h.countStep e) evs _ []
    ⟨javaInv_init, rfl, fun _ hu _ _ hd => by simp [IMemMapVec.init] at hu; simp [hu] at hd⟩

/-! ## The counters after a run -/

/-- For both profilers and every sequence of admitted instructions, every entry of
every table holds the counters of the positions `p₀ :: ps` at which the
instructions of its PC with its opcode were admitted: its count is their number,
its warm-up count the number before `warmup_count`, and its run length the number
in `[warmup_count, runlength_count)`, plus one when the creating position `p₀` is
past both windows. -/
theorem entry_counters_by_position (config : STFImemConfig) (evs : List STFInst) :
    (∀ t ∈ (countRun IMem.countImpl config evs (IMemMapVec.init, [])).1.imemMapvec,
      ∀ pc d, t.find pc = some d → EntryCounted config evs pc d) ∧
    (∀ t ∈ (countRun JavaIMem.countImpl config evs (IMemMapVec.init, [])).1.imemMapvec,
      ∀ pc d, t.find pc = some d → EntryCounted config evs pc d) := by
  refine ⟨fun t ht => ?_, (javaCounted_countRun config evs).entries⟩
  have hinv : IMemInv (countRun IMem.countImpl config evs (IMemMapVec.init, [])) evs := by
    simpa using countRun_inv IMem.countImpl config IMemInv
      (fun _ _ e h => h.countStep config e) evs _ [] imemInv_init
  rw [imemMapvec_eq_active hinv.single hinv.itv_zero, List.mem_singleton] at ht
  subst ht
  exact (imemCounted_countRun config evs).entries

/-- With `runlength_count = 1`, the PC `0x1004` first executed at position 1 gets
a run length of 1 from either profiler, though position 1 lies outside the
run-length window `[0, 1)`. -/
theorem newEntry_runLength_past_window :
    ((countRun IMem.countImpl { runlengthCount := 1 }
        [simpleInst 0x1000 0x13, simpleInst 0x1004 0x13] (IMemMapVec.init, [])).1.active.find
        0x1004).map IMemData.runlength = some 1 ∧
      ((countRun JavaIMem.countImpl { runlengthCount := 1 }
        [simpleInst 0x1000 0x13, simpleInst 0x1004 0x13] (IMemMapVec.init, [])).1.active.find
        0x1004).map IMemData.runlength = some 1 := by
  decide

end StfTools.Analysis
