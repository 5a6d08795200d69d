import StfTools.Analysis.ReportOptions

/-!
# The layout of the sorted file

The ranked loop of `print` (stf_imem.hpp:633-648) writes, for each block of
`sorted_map` from the highest key down, a header `------- pct% - count inst,
n addr` and then one line per entry of the block. Before it writes an entry's
line it adds the entry's count to `cumulative_count`, which is 0 before the loop
and is never reset. The key of a block holds the total count of its entries, and
a block is a run of entries, never empty (`sortedMapOf_runs`).

So the lines of every sorted file `print` writes fall into groups, read off the
lines alone (`sorted_file_layout`):

* a group is a header followed by a non-empty run of entry lines, the header's
  instruction count being the sum of their count column and its address count
  their number;
* over the whole file, each entry line's cumulative count is the previous one's
  plus its own count, from 0 (`CumulativeFrom`).
-/

set_option autoImplicit false

namespace StfTools

/-- Whether a line of the sorted file is an entry's line. -/
def SortedLine.isItem : SortedLine → Bool
  | .item .. => true
  | .blockHeader .. => false

/-- The count column of a line of the sorted file: an entry's count, 0 for a
header. -/
def SortedLine.count : SortedLine → Nat
  | .item _ count .. => count
  | .blockHeader .. => 0

end StfTools

namespace StfTools.Analysis

open StfTools IMemMapVec

/-- The cumulative column of `ls` runs on from `n`: each entry line's cumulative
count is the previous value plus its own count, and a header passes the value on. -/
def CumulativeFrom : Nat → List SortedLine → Prop
  | _, [] => True
  | n, .blockHeader .. :: ls => CumulativeFrom n ls
  | n, .item _ count cumulative .. :: ls => cumulative = n + count ∧ CumulativeFrom (n + count) ls

instance CumulativeFrom.decidable :
    ∀ (n : Nat) (ls : List SortedLine), Decidable (CumulativeFrom n ls)
  | _, [] => isTrue trivial
  | n, .blockHeader .. :: ls => CumulativeFrom.decidable n ls
  | n, .item _ count cumulative .. :: ls =>
    @instDecidableAnd _ _ (Nat.decEq cumulative (n + count))
      (CumulativeFrom.decidable (n + count) ls)

/-- A cumulative column started again at a header does not run on. -/
example : ¬CumulativeFrom 0 [.blockHeader 1 1, .item 0x1000 1 1 0 0x13 none,
    .blockHeader 1 1, .item 0x2000 1 1 0 0x13 none] := by
  decide

/-- INTERNAL: the cumulative column of two pieces of a file runs on across the
join.
SOURCE: stf_imem.hpp:633, 644-646 -/
theorem CumulativeFrom.append {n : Nat} {xs : List SortedLine} (ys : List SortedLine)
    (hx : CumulativeFrom n xs) (hy : CumulativeFrom (n + (xs.map SortedLine.count).sum) ys) :
    CumulativeFrom n (xs ++ ys) := by
  induction xs generalizing n with
  | nil => exact hy
  | cons l xs ih =>
    cases l with
    | blockHeader => exact ih hx (by simpa [SortedLine.count] using hy)
    | item => exact ⟨hx.1, ih hx.2 (by simpa [SortedLine.count, Nat.add_assoc] using hy)⟩

section Blocks

variable (config : STFImemConfig)

/-- INTERNAL: the loop over a block writes one line per entry, with the entry's
count.
SOURCE: stf_imem.hpp:641-644 -/
theorem map_count_printBlock : ∀ (n : Nat) (b : List Entry),
    (printBlock config n b).2.map SortedLine.count = b.map (·.2.count)
  | _, [] => rfl
  | _, e :: rest => congrArg (e.2.count :: ·) (map_count_printBlock _ rest)

/-- INTERNAL: the loop over a block runs the cumulative column on from the value
it starts with.
SOURCE: stf_imem.hpp:641-644 -/
theorem cumulativeFrom_printBlock : ∀ (n : Nat) (b : List Entry),
    CumulativeFrom n (printBlock config n b).2
  | _, [] => trivial
  | _, _ :: rest => ⟨rfl, cumulativeFrom_printBlock _ rest⟩

/-- INTERNAL: so does the ranked loop over any blocks.
SOURCE: stf_imem.hpp:633-645 -/
theorem cumulativeFrom_rankedLoop : ∀ (B : List (SortedMapKey × List Entry)) (n : Nat),
    CumulativeFrom n (rankedLoop config B n).2
  | [], _ => trivial
  | (_, b) :: rest, n => by
    show CumulativeFrom n ((printBlock config n b).2 ++ (rankedLoop config rest _).2)
    refine (cumulativeFrom_printBlock config n b).append _ ?_
    rw [map_count_printBlock, printBlock_fst]
    exact cumulativeFrom_rankedLoop rest _

/-- INTERNAL: over non-empty blocks each keyed by its total count, the ranked loop
writes groups of a header and the block's lines.
SOURCE: stf_imem.hpp:633-645 -/
theorem rankedLoop_groups : ∀ (B : List (SortedMapKey × List Entry)) (n : Nat),
    (∀ b ∈ B, b.1.count = blockTotal b.2 ∧ b.2 ≠ []) →
    ∃ G : List (List SortedLine), (∀ g ∈ G, g ≠ [] ∧ ∀ l ∈ g, l.isItem) ∧
      (rankedLoop config B n).2 =
        (G.map fun g => .blockHeader (g.map SortedLine.count).sum g.length :: g).flatten
  | [], _, _ => ⟨[], fun _ h => absurd h (List.not_mem_nil _), rfl⟩
  | (k, b) :: rest, n, hB => by
    obtain ⟨G, hG, hrest⟩ := rankedLoop_groups rest (printBlock config n b).1
      fun x hx => hB x (List.mem_cons_of_mem _ hx)
    obtain ⟨hk, hne⟩ : k.count = blockTotal b ∧ b ≠ [] := hB (k, b) (List.mem_cons_self _ _)
    have hcount := map_count_printBlock config n b
    have hlen : (printBlock config n b).2.length = b.length := by
      rw [← List.length_map _ SortedLine.count, hcount, List.length_map]
    refine ⟨(printBlock config n b).2 :: G, fun g hg => ?_, ?_⟩
    · rcases List.mem_cons.mp hg with rfl | hg
      · exact ⟨List.ne_nil_of_length_pos (hlen ▸ List.length_pos.mpr hne),
          printBlock_forall config (fun l => l.isItem) n b fun _ _ _ => rfl⟩
      · exact hG g hg
    · show .blockHeader k.count b.length ::
        ((printBlock config n b).2 ++ (rankedLoop config rest _).2) = _
      simp only [List.map_cons, List.flatten_cons, List.cons_append, hcount, hlen, hk, hrest]
      rfl

end Blocks

/-- INTERNAL: every block of the ranked loop is a non-empty run keyed by its total
count.
SOURCE: stf_imem.hpp:563-603 -/
theorem rankedBlocks_keyed {config : STFImemConfig} (h : config.sortOutput = true)
    (isStdout : Bool) (s : IMemMapVec) :
    ∀ b ∈ rankedBlocks config isStdout s, b.1.count = blockTotal b.2 ∧ b.2 ≠ [] := by
  intro b hb
  obtain ⟨hperm, hkey, -⟩ := sortedMapOf_runs h isStdout s
  have hbM := List.mem_reverse.mp hb
  exact ⟨by rw [hkey b hbM]; rfl, List.ne_nil_of_mem_splitBy follows
    (List.mem_reverse.mp (hperm.subset (List.mem_map_of_mem _ hbM)))⟩

/-- For every configuration, every state of the tables and every sorted file
`print` writes, the file's lines fall into groups, each a header followed by a
non-empty run of entry lines, the header's instruction count being the sum of
their counts and its address count their number; and the cumulative column runs
over the whole file from 0, each entry line adding its own count. -/
theorem sorted_file_layout {config : STFImemConfig} {isStdout : Bool} {s : IMemMapVec}
    {r : SortedReport} (hr : (s.print config isStdout).sorted = .written r ∨
      (s.print config isStdout).sorted = .assertFailed r) :
    (∃ G : List (List SortedLine), (∀ g ∈ G, g ≠ [] ∧ ∀ l ∈ g, l.isItem) ∧
      r.lines =
        (G.map fun g => .blockHeader (g.map SortedLine.count).sum g.length :: g).flatten) ∧
    CumulativeFrom 0 r.lines := by
  obtain ⟨h, hlines⟩ := lines_of_sorted config isStdout hr
  rw [hlines]
  exact ⟨rankedLoop_groups config _ 0 (rankedBlocks_keyed h isStdout s),
    cumulativeFrom_rankedLoop config _ 0⟩

/-- The sorted file of a run over a two-instruction block and a PC executed
twice: two groups, the cumulative column running on across them. -/
theorem sorted_file_layout_two_blocks :
    let s := (countRun JavaIMem.countImpl {} [simpleInst 0x1000 0x13, simpleInst 0x1004 0x13,
      simpleInst 0x2000 0x13, simpleInst 0x2000 0x13] (IMemMapVec.init, [])).1
    let r : SortedReport :=
      { filename := "-", instCount := 4, maxCount := 2, cumulativeCount := 4,
        lines := [.blockHeader 2 2, .item 0x1000 1 1 0 0x13 none, .item 0x1004 1 2 0 0x13 none,
          .blockHeader 2 1, .item 0x2000 2 4 0 0x13 none] }
    (s.print { sortOutput := true } true).sorted = .written r ∧
      (∃ G : List (List SortedLine), (∀ g ∈ G, g ≠ [] ∧ ∀ l ∈ g, l.isItem) ∧
        r.lines =
          (G.map fun g => .blockHeader (g.map SortedLine.count).sum g.length :: g).flatten) ∧
      CumulativeFrom 0 r.lines := by
  dsimp only
  exact (fun hr => ⟨hr, sorted_file_layout (.inl hr)⟩) (by decide)

end StfTools.Analysis
