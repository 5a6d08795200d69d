import StfTools.Model.Print
import StfTools.Analysis.Steps
import Mathlib.Data.List.SplitBy
import Mathlib.Data.List.Forall2

/-!
# The report lists the maximal runs of contiguous PCs

`print` visits the entries of all tables in one sequence and cuts it wherever an
entry does not start at the previous entry's PC plus its size. That is
`List.splitBy follows` of the visited sequence: the loop of `print` keeps exactly
the arguments of `List.splitBy.loop` (the last entry, the open block, the closed
blocks), so each iteration is one step of a left-to-right scan that builds
`splitBy` (`scanRuns_foldl`), and two relations follow the scan through the loop,
one for each value of `sort_output` (`LinesSim`, `SortedSim`).

Unsorted, the footprint file separates the runs by `...` lines. Sorted,
`sorted_map` holds each run once under its (total count, first PC) key, ordered
by `SortedMapKey::operator<`, so the ranked loop visits the heaviest first and
ends with the total count of all tables (`print_blocks_are_runs`).
-/

set_option autoImplicit false

namespace StfTools.Analysis

open StfTools

/-! ## Maximal runs, scanned left to right -/

/-- The state of a left-to-right scan cutting a list into maximal chains: nothing
yet, or the last element, the rest of the open run (reversed) and the closed runs
(reversed), as `List.splitBy.loop` holds them. -/
abbrev ScanState (α : Type) := Option (α × List α × List (List α))

section Scan

variable {α : Type} (R : α → α → Bool)

/-- One element of the scan: it extends the open run when `R` relates the last
element to it, else it closes the open run and starts a new one. -/
def scanStep : ScanState α → α → ScanState α
  | none, a => some (a, [], [])
  | some (ag, g, gs), a =>
    if R ag a then some (a, ag :: g, gs) else some (a, [], (ag :: g).reverse :: gs)

/-- The runs of a scan state, in order. -/
def scanRuns : ScanState α → List (List α)
  | none => []
  | some (ag, g, gs) => ((ag :: g).reverse :: gs).reverse

/-- INTERNAL: from a started state, the scan finishes as `List.splitBy.loop`.
SOURCE: stf_imem.hpp:563-594 -/
theorem scanRuns_foldl_some :
    ∀ (l : List α) (ag : α) (g : List α) (gs : List (List α)),
      scanRuns (l.foldl (scanStep R) (some (ag, g, gs))) = List.splitBy.loop R l ag g gs
  | [], _, _, _ => rfl
  | b :: l, ag, g, gs => by
    rw [List.foldl_cons, List.splitBy.loop]
    cases h : R ag b <;> simp only [scanStep, h, if_true, Bool.false_eq_true, if_false] <;>
      exact scanRuns_foldl_some l _ _ _

@[simp] theorem scanStep_none (a : α) : scanStep R none a = some (a, [], []) := rfl

theorem scanStep_of_true {ag a : α} {g : List α} (gs : List (List α)) (h : R ag a = true) :
    scanStep R (some (ag, g, gs)) a = some (a, ag :: g, gs) := by
  simp [scanStep, h]

theorem scanStep_of_false {ag a : α} {g : List α} (gs : List (List α)) (h : R ag a = false) :
    scanStep R (some (ag, g, gs)) a = some (a, [], (ag :: g).reverse :: gs) := by
  simp [scanStep, h]

@[simp] theorem scanRuns_some (ag : α) (g : List α) (gs : List (List α)) :
    scanRuns (some (ag, g, gs)) = gs.reverse ++ [(ag :: g).reverse] := by
  simp [scanRuns]

/-- The scan cuts a list into `List.splitBy R`. -/
theorem scanRuns_foldl (l : List α) : scanRuns (l.foldl (scanStep R) none) = l.splitBy R := by
  cases l with
  | nil => rfl
  | cons a l => exact scanRuns_foldl_some R l a [] []

end Scan

/-- `b` follows `a` in memory: its PC is `a`'s PC plus `a`'s opcode size, modulo
2^64 (the negation of the test at stf_imem.hpp:567). -/
def follows (a b : Entry) : Bool :=
  a.1 + a.2.getOpcodeSize.toUInt64 == b.1

/-! ## One iteration of the loop -/

/-- INTERNAL: the loop body with `sort_output` set: `cur` closes the current block
into `sorted_map` when it does not follow the previous entry, then joins the block.
SOURCE: stf_imem.hpp:563-594 -/
theorem printEntry_sorted {config : STFImemConfig} (h : config.sortOutput = true)
    (isStdout : Bool) (st : PrintState) (cur : Entry) :
    printEntry config isStdout st cur =
      let brk := !st.first && st.prevPc + st.prevSize.toUInt64 != cur.1
      { prevPc := cur.1, prevSize := cur.2.getOpcodeSize, first := false,
        currentBlock := (if brk then [] else st.currentBlock) ++ [cur],
        blockCount := (if brk then 0 else st.blockCount) + cur.2.count,
        sortedMap := if brk then st.flush else st.sortedMap,
        lines := if isStdout then st.lines else st.lines ++ [itemLine cur] } := by
  rcases st with ⟨pp, ps, f, cb, bc, sm, ls⟩
  cases f <;> cases isStdout <;> by_cases hc : pp + ps.toUInt64 = cur.1 <;>
    simp [printEntry, h, hc, PrintState.flush]

/-- INTERNAL: the loop body with `sort_output` off: a `...` line when `cur` does not
follow the previous entry, then the line of `cur`.
SOURCE: stf_imem.hpp:563-594 -/
theorem printEntry_unsorted {config : STFImemConfig} (h : config.sortOutput = false)
    (isStdout : Bool) (st : PrintState) (cur : Entry) :
    printEntry config isStdout st cur =
      { st with
        prevPc := cur.1
        prevSize := cur.2.getOpcodeSize
        first := false
        lines := st.lines ++
          (if !st.first && st.prevPc + st.prevSize.toUInt64 != cur.1 then [.gap] else []) ++
          [itemLine cur] } := by
  rcases st with ⟨pp, ps, f, cb, bc, sm, ls⟩
  cases f <;> by_cases hc : pp + ps.toUInt64 = cur.1 <;> simp [printEntry, h, hc]

/-- The locals `first`, `prev_pc` and `prev_size` agree with a scan state: `first`
is set before any entry, and afterwards they describe the last entry. -/
def Tracks (st : PrintState) : ScanState Entry → Prop
  | none => st.first = true
  | some (ag, _, _) => st.first = false ∧ st.prevPc = ag.1 ∧ st.prevSize = ag.2.getOpcodeSize

/-- INTERNAL: the loop body closes a block exactly where the scan closes a run.
SOURCE: stf_imem.hpp:567 -/
theorem brk_of_tracks {st : PrintState} {ag : Entry} {g : List Entry} {gs : List (List Entry)}
    (ht : Tracks st (some (ag, g, gs))) (cur : Entry) :
    (!st.first && st.prevPc + st.prevSize.toUInt64 != cur.1) = !follows ag cur := by
  obtain ⟨hf, hp, hs⟩ := ht
  simp only [hf, hp, hs, follows, Bool.not_false, Bool.true_and, bne]

/-- INTERNAL: after any entry, the locals describe it.
SOURCE: stf_imem.hpp:592-593 -/
theorem tracks_scanStep {st' : PrintState} {o : ScanState Entry} (cur : Entry)
    (hf : st'.first = false) (hp : st'.prevPc = cur.1) (hs : st'.prevSize = cur.2.getOpcodeSize) :
    Tracks st' (scanStep follows o cur) := by
  rcases o with _ | ⟨ag, g, gs⟩
  · exact ⟨hf, hp, hs⟩
  · cases hr : follows ag cur
    · rw [scanStep_of_false follows gs hr]; exact ⟨hf, hp, hs⟩
    · rw [scanStep_of_true follows gs hr]; exact ⟨hf, hp, hs⟩

/-! ## Unsorted: the footprint file -/

/-- INTERNAL: a new run adds a separator and its line.
SOURCE: stf_imem.hpp:567-573 -/
theorem intercalate_append_singleton {β : Type} (sep x : List β) :
    ∀ M : List (List β), M ≠ [] →
      List.intercalate sep (M ++ [x]) = List.intercalate sep M ++ sep ++ x
  | [a], _ => by simp [List.intercalate]
  | a :: b :: M, _ => by
    have ih := intercalate_append_singleton sep x (b :: M) (List.cons_ne_nil _ _)
    simp only [List.cons_append, List.intercalate, List.intersperse_cons₂, List.flatten_cons] at ih ⊢
    simp [ih]

/-- INTERNAL: an entry joining the last run adds its line at the end.
SOURCE: stf_imem.hpp:590-591 -/
theorem intercalate_append_last {β : Type} (sep y z : List β) :
    ∀ M : List (List β), List.intercalate sep (M ++ [y ++ z]) = List.intercalate sep (M ++ [y]) ++ z
  | [] => by simp [List.intercalate]
  | [a] => by simp [List.intercalate]
  | a :: b :: M => by
    have ih := intercalate_append_last sep y z (b :: M)
    simp only [List.cons_append, List.intercalate, List.intersperse_cons₂, List.flatten_cons] at ih ⊢
    simp [ih]

/-- The footprint file of an unsorted `print` against a scan state: its lines other
than the table headers are the runs' entry lines, separated by `...`. -/
structure LinesSim (st : PrintState) (o : ScanState Entry) : Prop where
  tracks : Tracks st o
  lines : st.lines.filter (fun l => !l.isHeader) =
    List.intercalate [.gap] ((scanRuns o).map (·.map itemLine))

/-- INTERNAL: one unsorted iteration is one step of the scan.
SOURCE: stf_imem.hpp:563-594 -/
theorem LinesSim.step {config : STFImemConfig} (h : config.sortOutput = false) (isStdout : Bool)
    {st : PrintState} {o : ScanState Entry} (hs : LinesSim st o) (cur : Entry) :
    LinesSim (printEntry config isStdout st cur) (scanStep follows o cur) := by
  rw [printEntry_unsorted h]
  refine ⟨tracks_scanStep cur rfl rfl rfl, ?_⟩
  have hl := hs.lines
  rcases o with _ | ⟨ag, g, gs⟩
  · have hf : st.first = true := hs.tracks
    have hl' : st.lines.filter (fun l => !l.isHeader) = [] := hl
    simp only [hf, Bool.not_true, Bool.false_and, Bool.false_eq_true, if_false, List.append_nil,
      List.filter_append, hl', scanStep_none, scanRuns_some]
    simp [ImemLine.isHeader, itemLine, List.intercalate]
  · rw [brk_of_tracks hs.tracks]
    simp only [scanRuns_some, List.map_append, List.map_singleton] at hl
    cases hfl : follows ag cur
    · -- `cur` starts a new run, after a `...` line
      rw [scanStep_of_false follows gs hfl, scanRuns_some, List.reverse_cons, List.map_append,
        List.map_singleton, List.map_append, List.map_singleton,
        intercalate_append_singleton _ _ _ (by simp), ← hl]
      simp [List.filter_append, ImemLine.isHeader, itemLine]
    · -- `cur` extends the open run
      rw [scanStep_of_true follows gs hfl, scanRuns_some, List.reverse_cons, List.map_append,
        List.map_singleton, List.map_append, List.map_singleton, intercalate_append_last, ← hl]
      simp [List.filter_append, ImemLine.isHeader, itemLine]

/-! ## Sorted: `sorted_map` -/

/-- The sum of the counts of a block: `block_count` once the block is complete. -/
def blockTotal (b : List Entry) : Nat :=
  (b.map (·.2.count)).sum

/-- The key `print` gives a block: its total count and its first entry's PC. -/
def blockKey (b : List Entry) : SortedMapKey :=
  ⟨blockTotal b, (b.head?.map Prod.fst).getD 0⟩

/-- `a` does not come after `b` in `sorted_map`'s order. -/
def KeyLe {β : Type} (a b : SortedMapKey × β) : Prop :=
  b.1.lt a.1 = false

/-- INTERNAL: `operator<` compares the counts, then the PCs the other way.
SOURCE: stf_imem.hpp:305-307 -/
theorem SortedMapKey.lt_iff (a b : SortedMapKey) :
    a.lt b = true ↔ a.count < b.count ∨ (a.count = b.count ∧ b.pc.toNat < a.pc.toNat) := by
  simp only [SortedMapKey.lt, Bool.or_eq_true, decide_eq_true_eq, Bool.and_eq_true, beq_iff_eq]
  rfl

/-- INTERNAL: `emplace` adds one element.
SOURCE: stf_imem.hpp:576-578 -/
theorem emplace_perm {β : Type} (k : SortedMapKey) (v : β) :
    ∀ l : List (SortedMapKey × β), (emplace k v l).Perm ((k, v) :: l)
  | [] => .refl _
  | e :: rest => by
    unfold emplace; split
    · exact .refl _
    · exact ((emplace_perm k v rest).cons e).trans (.swap _ _ _)

/-- INTERNAL: `emplace` keeps the multimap in key order.
SOURCE: stf_imem.hpp:576-578 -/
theorem emplace_pairwise {β : Type} (k : SortedMapKey) (v : β) :
    ∀ l : List (SortedMapKey × β), l.Pairwise KeyLe → (emplace k v l).Pairwise KeyLe
  | [], _ => List.pairwise_singleton _ _
  | e :: rest, h => by
    rw [List.pairwise_cons] at h
    unfold emplace; split
    · next hlt =>
      refine List.pairwise_cons.2 ⟨fun y hy => ?_, List.pairwise_cons.2 h⟩
      rcases List.mem_cons.1 hy with rfl | hy
      · simp only [KeyLe, Bool.eq_false_iff, ne_eq, SortedMapKey.lt_iff] at hlt ⊢; omega
      · have := h.1 y hy
        simp only [KeyLe, Bool.eq_false_iff, ne_eq, SortedMapKey.lt_iff] at hlt this ⊢; omega
    · next hnlt =>
      refine List.pairwise_cons.2 ⟨fun y hy => ?_, emplace_pairwise k v rest h.2⟩
      rcases List.mem_cons.1 ((emplace_perm k v rest).subset hy) with rfl | hy
      · simpa [KeyLe] using hnlt
      · exact h.1 y hy

/-- The open run of a scan state. -/
def openRun : ScanState Entry → List Entry
  | none => []
  | some (ag, g, _) => (ag :: g).reverse

/-- The closed runs of a scan state, last closed first. -/
def closedRuns : ScanState Entry → List (List Entry)
  | none => []
  | some (_, _, gs) => gs

/-- The locals of a sorted `print` against a scan state: the current block is the
open run, `block_count` its total, and `sorted_map` holds the closed runs, each
under its key, in key order. -/
structure SortedSim (st : PrintState) (o : ScanState Entry) : Prop where
  tracks : Tracks st o
  block : st.currentBlock = openRun o
  count : st.blockCount = blockTotal st.currentBlock
  closed : (st.sortedMap.map Prod.snd).Perm (closedRuns o)
  keyed : ∀ b ∈ st.sortedMap, b.1 = blockKey b.2
  ordered : st.sortedMap.Pairwise KeyLe

/-- INTERNAL: closing the current block files it under its key.
SOURCE: stf_imem.hpp:576-578 -/
theorem SortedSim.flush {st : PrintState} {o : ScanState Entry} (hs : SortedSim st o) :
    (st.flush.map Prod.snd).Perm (st.currentBlock :: closedRuns o) ∧
      (∀ b ∈ st.flush, b.1 = blockKey b.2) ∧ st.flush.Pairwise KeyLe := by
  have hp := emplace_perm (blockKey st.currentBlock) st.currentBlock st.sortedMap
  have hkey : st.flush = emplace (blockKey st.currentBlock) st.currentBlock st.sortedMap := by
    simp [PrintState.flush, blockKey, hs.count]
  rw [hkey]
  refine ⟨(hp.map Prod.snd).trans (hs.closed.cons _), fun b hb => ?_,
    emplace_pairwise _ _ _ hs.ordered⟩
  rcases List.mem_cons.1 (hp.subset hb) with rfl | hb
  · rfl
  · exact hs.keyed b hb

/-- INTERNAL: one sorted iteration is one step of the scan.
SOURCE: stf_imem.hpp:563-594 -/
theorem SortedSim.step {config : STFImemConfig} (h : config.sortOutput = true) (isStdout : Bool)
    {st : PrintState} {o : ScanState Entry} (hs : SortedSim st o) (cur : Entry) :
    SortedSim (printEntry config isStdout st cur) (scanStep follows o cur) := by
  rw [printEntry_sorted h]
  rcases o with _ | ⟨ag, g, gs⟩
  · have hf : st.first = true := hs.tracks
    have hb : st.currentBlock = [] := hs.block
    have hc := hs.count
    simp only [hb, blockTotal, List.map_nil, List.sum_nil] at hc
    simp only [hf, Bool.not_true, Bool.false_and, Bool.false_eq_true, if_false, hb, hc]
    exact ⟨⟨rfl, rfl, rfl⟩, rfl, by simp [blockTotal], hs.closed, hs.keyed, hs.ordered⟩
  · have hb : st.currentBlock = (ag :: g).reverse := hs.block
    rw [brk_of_tracks hs.tracks]
    cases hfl : follows ag cur
    · obtain ⟨hcl, hk, ho⟩ := hs.flush
      simp only [scanStep, hfl, Bool.not_false, if_true, Bool.false_eq_true, if_false,
        List.nil_append]
      exact ⟨⟨rfl, rfl, rfl⟩, rfl, by simp [blockTotal], by simpa [closedRuns, hb] using hcl, hk, ho⟩
    · simp only [scanStep, hfl, Bool.not_true, Bool.false_eq_true, if_false, if_true]
      refine ⟨⟨rfl, rfl, rfl⟩, by simp [openRun, hb], ?_, hs.closed, hs.keyed, hs.ordered⟩
      simp [blockTotal, hs.count]

/-! ## The whole loop -/

/-- INTERNAL: a relation that each iteration carries along the scan, and that the
table headers leave alone, holds after the loop over any tables.
SOURCE: stf_imem.hpp:553-597 -/
theorem printMaps_rel (config : STFImemConfig) (isStdout rv64 : Bool)
    (Rel : PrintState → ScanState Entry → Prop)
    (hentry : ∀ st o cur, Rel st o → Rel (printEntry config isStdout st cur) (scanStep follows o cur))
    (hheader : ∀ st o n, Rel st o → Rel { st with lines := st.lines ++ [.mapHeader n rv64] } o) :
    ∀ (ts : List IMemMap) (n : Nat) (st : PrintState) (o : ScanState Entry), Rel st o →
      Rel (printMaps config isStdout rv64 ts n st)
        ((ts.map IMemMap.entries).flatten.foldl (scanStep follows) o)
  | [], _, _, _, h => h
  | m :: ts, n, st, o, h => by
    rw [printMaps, List.map_cons, List.flatten_cons, List.foldl_append]
    refine printMaps_rel config isStdout rv64 Rel hentry hheader ts (n + 1) _ _ ?_
    exact List.rel_foldl (fun _ _ hr _ _ hab => hab ▸ hentry _ _ _ hr) (hheader st o n h)
      (List.forall₂_same.2 fun _ _ => rfl)

/-- INTERNAL: the loop of `print` over `reverse(imem_mapvec_)` scans `visitOrder`.
SOURCE: stf_imem.hpp:553-597 -/
theorem printLoop_rel (config : STFImemConfig) (isStdout : Bool) (s : IMemMapVec)
    (Rel : PrintState → ScanState Entry → Prop)
    (hentry : ∀ st o cur, Rel st o → Rel (printEntry config isStdout st cur) (scanStep follows o cur))
    (hheader : ∀ st o n, Rel st o → Rel { st with lines := st.lines ++ [.mapHeader n s.isRv64] } o)
    (hinit : Rel PrintState.init none) :
    Rel (printLoop config isStdout s) ((visitOrder s).foldl (scanStep follows) none) :=
  printMaps_rel config isStdout s.isRv64 Rel hentry hheader _ 1 _ _ hinit

/-! ## The ranked loop -/

/-- INTERNAL: a block adds its total to the cumulative count.
SOURCE: stf_imem.hpp:641-644 -/
@[simp] theorem printBlock_fst (config : STFImemConfig) :
    ∀ (c : Nat) (b : List Entry), (printBlock config c b).1 = c + blockTotal b
  | _, [] => rfl
  | c, e :: rest => by
    simp only [printBlock, printBlock_fst config _ rest, blockTotal, List.map_cons, List.sum_cons]
    omega

/-- INTERNAL: the ranked loop adds the totals of all blocks.
SOURCE: stf_imem.hpp:633-645 -/
theorem rankedLoop_fst (config : STFImemConfig) :
    ∀ (B : List (SortedMapKey × List Entry)) (c : Nat),
      (rankedLoop config B c).1 = c + ((B.map Prod.snd).flatten.map (·.2.count)).sum
  | [], _ => rfl
  | (k, b) :: rest, c => by
    simp only [rankedLoop, rankedLoop_fst config rest, printBlock_fst, blockTotal, List.map_cons,
      List.flatten_cons, List.map_append, List.sum_append]
    omega

/-- INTERNAL: the visited entries carry the counts of all tables.
SOURCE: stf_imem.hpp:553-560 -/
theorem sum_visitOrder (s : IMemMapVec) :
    ((visitOrder s).map (·.2.count)).sum = tablesTotal .count s.imemMapvec := by
  simp only [visitOrder, tablesTotal, List.map_flatten, List.sum_flatten, List.map_map,
    List.map_reverse, List.sum_reverse]
  rfl

/-! ## The report -/

/-- INTERNAL: what `print` writes before the tables is made of headers, none of them
a table header.
SOURCE: stf_imem.hpp:524-541 -/
theorem mem_trackHeader {config : STFImemConfig} {a b c : Nat} {l : ImemLine}
    (h : l ∈ trackHeader config a b c) : l.isHeader = true ∧ l.isMapHeader = false := by
  unfold trackHeader at h
  split at h
  · rcases List.mem_pair.mp h with rfl | rfl <;> exact ⟨rfl, rfl⟩
  · exact absurd h (List.not_mem_nil _)

/-- INTERNAL: the footprint is the header before the tables followed by the lines of
the loop over the tables.
SOURCE: stf_imem.hpp:524-597 -/
theorem imem_print (config : STFImemConfig) (isStdout : Bool) (s : IMemMapVec) :
    (s.print config isStdout).imem =
      trackHeader config (s.print config isStdout).countFieldWidth
        (s.print config isStdout).warmupFieldWidth (s.print config isStdout).runLengthFieldWidth ++
      (printLoop config isStdout s).lines := rfl

/-- INTERNAL: unsorted, the lines other than the table headers are the runs' entry
lines, separated by `...`.
SOURCE: stf_imem.hpp:553-597 -/
theorem printLoop_unsorted_lines {config : STFImemConfig} (h : config.sortOutput = false)
    (isStdout : Bool) (s : IMemMapVec) :
    (printLoop config isStdout s).lines.filter (fun l => !l.isHeader) =
      List.intercalate [.gap] (((visitOrder s).splitBy follows).map (·.map itemLine)) := by
  rw [← scanRuns_foldl]
  exact (printLoop_rel config isStdout s LinesSim (fun _ _ cur hs => hs.step h isStdout cur)
    (fun _ _ _ hs => ⟨hs.tracks, by simpa [List.filter_append, ImemLine.isHeader] using hs.lines⟩)
    ⟨rfl, rfl⟩).lines

/-- INTERNAL: sorted, `sorted_map` after the final flush holds the runs, last run
first up to order, each under its key, in key order.
SOURCE: stf_imem.hpp:553-603 -/
theorem sortedMapOf_runs {config : STFImemConfig} (h : config.sortOutput = true)
    (isStdout : Bool) (s : IMemMapVec) :
    let M := sortedMapOf config (printLoop config isStdout s)
    (M.map Prod.snd).Perm ((visitOrder s).splitBy follows).reverse ∧
      (∀ b ∈ M, b.1 = blockKey b.2) ∧ M.Pairwise KeyLe := by
  have hs := printLoop_rel config isStdout s SortedSim (fun _ _ cur hs => hs.step h isStdout cur)
    (fun _ _ _ hs => ⟨hs.1, hs.2, hs.3, hs.4, hs.5, hs.6⟩)
    ⟨rfl, rfl, rfl, .nil, fun _ h => by simp [PrintState.init] at h, .nil⟩
  rw [← scanRuns_foldl]
  generalize (visitOrder s).foldl (scanStep follows) none = o at hs
  rcases o with _ | ⟨ag, g, gs⟩
  · have hb : (printLoop config isStdout s).currentBlock = [] := hs.block
    simp only [sortedMapOf, hb, List.isEmpty_nil, Bool.not_true, Bool.and_false,
      Bool.false_eq_true, if_false]
    exact ⟨hs.closed, hs.keyed, hs.ordered⟩
  · -- the final flush closes the open run
    have hb : (printLoop config isStdout s).currentBlock = (ag :: g).reverse := hs.block
    obtain ⟨hcl, hk, ho⟩ := hs.flush
    have hne : (printLoop config isStdout s).currentBlock.isEmpty = false := by rw [hb]; simp
    simp only [sortedMapOf, h, hne, Bool.not_false, Bool.and_true, if_true]
    refine ⟨?_, hk, ho⟩
    rw [hb] at hcl
    simpa [scanRuns, closedRuns] using hcl

/-- INTERNAL: a list has no runs exactly when it is empty.
SOURCE: stf_imem.hpp:605-608 -/
theorem splitBy_eq_nil_iff {α : Type} (R : α → α → Bool) (l : List α) :
    l.splitBy R = [] ↔ l = [] :=
  ⟨fun h => by simpa [h] using (List.flatten_splitBy R l).symm, fun h => h ▸ rfl⟩

/-- INTERNAL: with `sort_output` on, `print` warns instead of writing the sorted
file exactly when the tables are empty; otherwise the ranked loop ends with the
total count of all tables, and the final assertion fails exactly when that total is
not `inst_count_`.
SOURCE: stf_imem.hpp:599-652 -/
theorem print_sorted {config : STFImemConfig} (h : config.sortOutput = true) (isStdout : Bool)
    (s : IMemMapVec) :
    (s.print config isStdout).sorted =
      if visitOrder s = [] then .emptyWarning
      else
        let report : SortedReport :=
          { filename := sortedFilename config.outputFilename isStdout, instCount := s.instCount,
            maxCount := s.maxCount, lines := (rankedLoop config (rankedBlocks config isStdout s) 0).2,
            cumulativeCount := tablesTotal .count s.imemMapvec }
        if tablesTotal .count s.imemMapvec = s.instCount then .written report
        else .assertFailed report := by
  have hM := (sortedMapOf_runs h isStdout s).1
  have hempty : (sortedMapOf config (printLoop config isStdout s)).isEmpty ↔ visitOrder s = [] := by
    rw [List.isEmpty_iff, ← List.length_eq_zero, ← List.length_map _ Prod.snd, hM.length_eq,
      List.length_reverse, List.length_eq_zero, splitBy_eq_nil_iff]
  have hfst := rankedLoop_fst config (rankedBlocks config isStdout s) 0
  obtain ⟨hcl, -, -⟩ := sortedMapOf_runs h isStdout s
  have htot : (rankedLoop config (rankedBlocks config isStdout s) 0).1 =
      tablesTotal .count s.imemMapvec := by
    rw [hfst, ← sum_visitOrder, Nat.zero_add]
    refine List.Perm.sum_eq (List.Perm.map _ ?_)
    simp only [rankedBlocks, List.map_reverse]
    simpa [List.flatten_splitBy] using ((List.reverse_perm _).trans
      (hcl.trans (List.reverse_perm _))).flatten
  by_cases he : visitOrder s = []
  · simp [IMemMapVec.print, h, hempty.2 he, he]
  · have hne : (sortedMapOf config (printLoop config isStdout s)).isEmpty = false := by
      simpa using he ∘ hempty.1
    simp only [IMemMapVec.print, h, if_true, hne, Bool.false_eq_true, if_false, he]
    rw [← rankedBlocks, htot]

/-- For every state of the tables, `print` cuts the visited entries into the maximal
runs of contiguous PCs (`List.splitBy follows`). With `sort_output` off, the lines of
the footprint file other than the headers are the runs' entry lines with a `...`
line between two runs. With `sort_output` on, the ranked loop visits exactly these
runs, each entry once, each block under its total count and first PC, by descending
count and then ascending PC, and it ends with the total count of all tables; the
sorted file is a warning when no entry is visited, and otherwise holds the ranked
loop's lines and that total, the final assertion failing exactly when the total is
not `inst_count_`. -/
theorem print_blocks_are_runs (config : STFImemConfig) (isStdout : Bool) (s : IMemMapVec) :
    let runs := (visitOrder s).splitBy follows
    (s.print { config with sortOutput := false } isStdout).imem.filter (fun l => !l.isHeader) =
      List.intercalate [.gap] (runs.map (·.map itemLine)) ∧
    let ranked := { config with sortOutput := true }
    let B := rankedBlocks ranked isStdout s
    (B.map Prod.snd).Perm runs ∧ ((B.map Prod.snd).flatten).Perm (visitOrder s) ∧
      (∀ b ∈ B, b.1 = blockKey b.2) ∧
      B.Pairwise (fun a b => b.1.count < a.1.count ∨ (a.1.count = b.1.count ∧ a.1.pc ≤ b.1.pc)) ∧
      (rankedLoop ranked B 0).1 = tablesTotal .count s.imemMapvec ∧
      (s.print ranked isStdout).sorted =
        if visitOrder s = [] then .emptyWarning
        else
          let report : SortedReport :=
            { filename := sortedFilename config.outputFilename isStdout, instCount := s.instCount,
              maxCount := s.maxCount, lines := (rankedLoop ranked B 0).2,
              cumulativeCount := tablesTotal .count s.imemMapvec }
          if tablesTotal .count s.imemMapvec = s.instCount then .written report
          else .assertFailed report := by
  refine ⟨?_, ?_⟩
  · -- the CONFIG block and the column titles are headers
    rw [imem_print, List.filter_append,
      List.filter_eq_nil_iff.mpr fun l hl => by simp [(mem_trackHeader hl).1], List.nil_append]
    exact printLoop_unsorted_lines rfl isStdout s
  intro ranked B
  obtain ⟨hcl, hk, ho⟩ := @sortedMapOf_runs ranked rfl isStdout s
  have hperm : (B.map Prod.snd).Perm ((visitOrder s).splitBy follows) := by
    simp only [B, rankedBlocks, List.map_reverse]
    exact (List.reverse_perm _).trans (hcl.trans (List.reverse_perm _))
  have hflat : ((B.map Prod.snd).flatten).Perm (visitOrder s) := by
    simpa [List.flatten_splitBy] using hperm.flatten
  refine ⟨hperm, hflat, fun b hb => hk b (List.mem_reverse.1 hb), ?_, ?_,
    print_sorted rfl isStdout s⟩
  · refine (List.pairwise_reverse.2 ho).imp fun {a b} hab => ?_
    simp only [KeyLe, Bool.eq_false_iff, ne_eq, SortedMapKey.lt_iff] at hab
    show _ ∨ _ ∧ a.1.pc.toNat ≤ b.1.pc.toNat
    omega
  · rw [rankedLoop_fst, ← sum_visitOrder, Nat.zero_add]
    exact hflat.map _ |>.sum_eq

end StfTools.Analysis
