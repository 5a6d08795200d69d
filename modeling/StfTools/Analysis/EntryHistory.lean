import StfTools.Model.IMemData
import StfTools.Interface.Ring

/-!
# The local histories of one entry

An `IMemData` records its local histories through two member functions only:
`nextStride` writes the stride from the previous address at its cursor, and
`nextBranchHistory` writes an outcome bit at its own cursor (stf_imem.hpp:194-215).
The seven-argument constructor, which every `createIMem_` overload reaches, starts
both rings empty, with the cursors at 0, and records the first outcome of a
branch (stf_imem.hpp:89-106).

Each function is one push on its ring (`nextStride_ring`, `nextBranchHistory_ring`)
and leaves the other ring alone. So after any interleaving of the two, starting
from the constructor, each ring holds what `Interface.RingHolds` says it should
hold of the values pushed on it, and each cursor designates a slot before every
write (`imemData_histories_ring`).
-/

set_option autoImplicit false

namespace StfTools.Analysis

open StfTools Interface

/-! ## The two rings -/

/-- The strides between consecutive addresses `a₀, a₁, …`: `aⱼ - aⱼ₋₁` read as an
`int64`, for `j ≥ 1`. -/
def strides : List UInt64 → List Int
  | a :: b :: rest => toInt64 (b - a) :: strides (b :: rest)
  | _ => []

@[simp] theorem length_strides (a₀ : UInt64) (as : List UInt64) :
    (strides (a₀ :: as)).length = as.length := by
  induction as generalizing a₀ with
  | nil => rfl
  | cons b bs ih => simp [strides, ih]

/-- INTERNAL: one more address adds the stride from the last one.
SOURCE: stf_imem.hpp:194-198 -/
theorem strides_append_singleton (a₀ : UInt64) (as : List UInt64) (x : UInt64) :
    strides (a₀ :: (as ++ [x])) =
      strides (a₀ :: as) ++ [toInt64 (x - (a₀ :: as).getLast (List.cons_ne_nil _ _))] := by
  induction as generalizing a₀ with
  | nil => rfl
  | cons b bs ih => simp [strides, ih]

/-- The stride history of an entry has recorded the addresses `a₀ :: as` of the
loads and stores counted into it: the entry is a load/store entry when `a₀ ≠ 0`,
it remembers the last address, and its ring holds the strides between
consecutive addresses. -/
structure StrideHolds (d : IMemData) (a₀ : UInt64) (as : List UInt64) : Prop where
  loadstore : d.isLoadstore = (a₀ != 0)
  last : d.lastAddress = (a₀ :: as).getLast (List.cons_ne_nil _ _)
  ring : RingHolds MAX_LHIST_ 0 d.recentStrides d.recentStridesIdx (strides (a₀ :: as))

/-- INTERNAL: `nextStride` advances its cursor modulo `MAX_LHIST_`, testing it
against `MAX_LHIST_ - 1` before the increment.
SOURCE: stf_imem.hpp:196 -/
theorem nextStride_idx (d : IMemData) (a : UInt64) (h : d.recentStridesIdx < MAX_LHIST_) :
    (d.nextStride a).recentStridesIdx = (d.recentStridesIdx + 1) % MAX_LHIST_ := by
  simp only [IMemData.nextStride, MAX_LHIST_] at h ⊢
  split_ifs <;> omega

/-- INTERNAL: `nextBranchHistory` advances its cursor modulo `MAX_LHIST_`, testing
it against `MAX_LHIST_` after the increment.
SOURCE: stf_imem.hpp:212-214 -/
theorem nextBranchHistory_idx (d : IMemData) (b : Bool) (h : d.branchLhrIdx < MAX_LHIST_) :
    (d.nextBranchHistory b).branchLhrIdx = (d.branchLhrIdx + 1) % MAX_LHIST_ := by
  simp only [IMemData.nextBranchHistory, MAX_LHIST_] at h ⊢
  split_ifs <;> omega

/-- INTERNAL: `nextStride` pushes the stride from the previous address on the
stride ring.
SOURCE: stf_imem.hpp:194-198 -/
theorem nextStride_ring {d : IMemData} {vals : List Int}
    (h : RingHolds MAX_LHIST_ 0 d.recentStrides d.recentStridesIdx vals) (a : UInt64) :
    RingHolds MAX_LHIST_ 0 (d.nextStride a).recentStrides (d.nextStride a).recentStridesIdx
      (vals ++ [toInt64 (a - d.lastAddress)]) := by
  rw [nextStride_idx d a (h.cursor_lt (by decide))]
  exact h.push (by decide) _

/-- INTERNAL: `nextBranchHistory` pushes its outcome on the branch ring.
SOURCE: stf_imem.hpp:203-215 -/
theorem nextBranchHistory_ring {d : IMemData} {bs : List Bool}
    (h : RingHolds MAX_LHIST_ false d.branchLhr d.branchLhrIdx bs) (b : Bool) :
    RingHolds MAX_LHIST_ false (d.nextBranchHistory b).branchLhr
      (d.nextBranchHistory b).branchLhrIdx (bs ++ [b]) := by
  rw [nextBranchHistory_idx d b (h.cursor_lt (by decide))]
  exact h.push (by decide) b

/-- INTERNAL: `nextStride` records one more address.
SOURCE: stf_imem.hpp:194-198 -/
theorem StrideHolds.nextStride {d : IMemData} {a₀ : UInt64} {as : List UInt64}
    (h : StrideHolds d a₀ as) (a : UInt64) : StrideHolds (d.nextStride a) a₀ (as ++ [a]) := by
  refine ⟨h.loadstore, by simp [IMemData.nextStride], ?_⟩
  rw [strides_append_singleton, ← h.last]
  exact nextStride_ring h.ring a

/-- INTERNAL: `nextBranchHistory` leaves the stride history.
SOURCE: stf_imem.hpp:203-215 -/
theorem StrideHolds.nextBranchHistory {d : IMemData} {a₀ : UInt64} {as : List UInt64}
    (h : StrideHolds d a₀ as) (b : Bool) : StrideHolds (d.nextBranchHistory b) a₀ as :=
  ⟨h.loadstore, h.last, h.ring⟩

/-! ## Any sequence of calls -/

/-- A call of one of the two history functions of an entry. -/
inductive HistoryCall where
  /-- `nextStride(curr_addr)` -/
  | nextStride (curr_addr : UInt64)
  /-- `nextBranchHistory(taken)` -/
  | nextBranchHistory (taken : Bool)
  deriving DecidableEq, Repr

/-- The entry after the call. -/
def HistoryCall.apply : HistoryCall → IMemData → IMemData
  | .nextStride a, d => d.nextStride a
  | .nextBranchHistory b, d => d.nextBranchHistory b

/-- The address a call passes to `nextStride`, if it is one. -/
def HistoryCall.strideAddr : HistoryCall → Option UInt64
  | .nextStride a => some a
  | .nextBranchHistory _ => none

/-- The outcome a call passes to `nextBranchHistory`, if it is one. -/
def HistoryCall.branchBit : HistoryCall → Option Bool
  | .nextStride _ => none
  | .nextBranchHistory b => some b

/-- The entry after the calls, in order. -/
def applyCalls (d : IMemData) (calls : List HistoryCall) : IMemData :=
  calls.foldl (fun d c => c.apply d) d

/-- Both histories of an entry have recorded what was pushed on them: the stride
addresses `a₀ :: as`, and the outcomes `bs`, the entry being a branch exactly
when one was recorded. -/
structure HistoriesHold (d : IMemData) (a₀ : UInt64) (as : List UInt64) (bs : List Bool) :
    Prop where
  stride : StrideHolds d a₀ as
  branch : d.isBranch = !bs.isEmpty
  lhr : RingHolds MAX_LHIST_ false d.branchLhr d.branchLhrIdx bs

/-- INTERNAL: one call pushes on its own ring and leaves the other.
SOURCE: stf_imem.hpp:194-215 -/
theorem HistoriesHold.apply {d : IMemData} {a₀ : UInt64} {as : List UInt64} {bs : List Bool}
    (h : HistoriesHold d a₀ as bs) (c : HistoryCall) :
    HistoriesHold (c.apply d) a₀ (as ++ c.strideAddr.toList) (bs ++ c.branchBit.toList) := by
  cases c with
  | nextStride a =>
    simp only [HistoryCall.apply, HistoryCall.strideAddr, HistoryCall.branchBit, Option.toList,
      List.append_nil]
    exact ⟨h.stride.nextStride a, h.branch, h.lhr⟩
  | nextBranchHistory b =>
    simp only [HistoryCall.apply, HistoryCall.strideAddr, HistoryCall.branchBit, Option.toList,
      List.append_nil]
    exact ⟨h.stride.nextBranchHistory b, by simp [IMemData.nextBranchHistory],
      nextBranchHistory_ring h.lhr b⟩

/-- INTERNAL: a sequence of calls pushes, on each ring, the values of its own calls
in order.
SOURCE: stf_imem.hpp:194-215 -/
theorem HistoriesHold.applyCalls {d : IMemData} {a₀ : UInt64} {as : List UInt64}
    {bs : List Bool} (h : HistoriesHold d a₀ as bs) (calls : List HistoryCall) :
    HistoriesHold (StfTools.Analysis.applyCalls d calls) a₀
      (as ++ calls.filterMap HistoryCall.strideAddr) (bs ++ calls.filterMap HistoryCall.branchBit) := by
  induction calls generalizing d as bs with
  | nil => simpa [StfTools.Analysis.applyCalls] using h
  | cons c rest ih =>
    have := ih (h.apply c)
    cases c <;> simpa [StfTools.Analysis.applyCalls, List.filterMap_cons] using this

/-- INTERNAL: the seven-argument constructor starts the stride history at its
address and records the first outcome of a branch.
SOURCE: stf_imem.hpp:89-106 -/
theorem historiesHold_make (is_16bit : Bool) (opcode : UInt32) (phys_pc : UInt64)
    (in_warmup is_branch br_taken : Bool) (mem_addr : UInt64) :
    HistoriesHold (IMemData.make is_16bit opcode phys_pc in_warmup is_branch br_taken mem_addr)
      mem_addr [] (if is_branch then [br_taken] else []) := by
  have h₀ : HistoriesHold (IMemData.make is_16bit opcode phys_pc in_warmup false br_taken mem_addr)
      mem_addr [] [] := ⟨⟨rfl, rfl, ringHolds_replicate _ _⟩, rfl, ringHolds_replicate _ _⟩
  cases is_branch
  · exact h₀
  · -- the constructor's own call
    exact h₀.apply (.nextBranchHistory br_taken)

/-- For every entry built by the seven-argument constructor and every sequence of
`nextStride` and `nextBranchHistory` calls: the stride ring keeps `MAX_LHIST_`
slots and both cursors stay below `MAX_LHIST_` in every state, so before every
write; and at the end the stride ring holds the strides between the
constructor's `mem_addr` and the addresses passed to `nextStride`, and the
branch ring the outcomes passed to `nextBranchHistory`, the constructor's own
call first: each of the last `MAX_LHIST_` values in the slot of its position
modulo `MAX_LHIST_`, with the cursor at their number modulo `MAX_LHIST_`. -/
theorem imemData_histories_ring (is_16bit : Bool) (opcode : UInt32) (phys_pc : UInt64)
    (in_warmup is_branch br_taken : Bool) (mem_addr : UInt64) (calls : List HistoryCall) :
    let d₀ := IMemData.make is_16bit opcode phys_pc in_warmup is_branch br_taken mem_addr
    (∀ k ≤ calls.length,
      (applyCalls d₀ (calls.take k)).recentStrides.length = MAX_LHIST_ ∧
        (applyCalls d₀ (calls.take k)).recentStridesIdx < MAX_LHIST_ ∧
        (applyCalls d₀ (calls.take k)).branchLhrIdx < MAX_LHIST_) ∧
      RingHolds MAX_LHIST_ 0 (applyCalls d₀ calls).recentStrides
        (applyCalls d₀ calls).recentStridesIdx
        (strides (mem_addr :: calls.filterMap HistoryCall.strideAddr)) ∧
      RingHolds MAX_LHIST_ false (applyCalls d₀ calls).branchLhr (applyCalls d₀ calls).branchLhrIdx
        ((if is_branch then [br_taken] else []) ++ calls.filterMap HistoryCall.branchBit) := by
  intro d₀
  have h₀ := historiesHold_make is_16bit opcode phys_pc in_warmup is_branch br_taken mem_addr
  refine ⟨fun k _ => ?_, (h₀.applyCalls calls).stride.ring, (h₀.applyCalls calls).lhr⟩
  have hk := h₀.applyCalls (calls.take k)
  exact ⟨hk.stride.ring.length, hk.stride.ring.cursor_lt (by decide), hk.lhr.cursor_lt (by decide)⟩

/-- The 53 distinct strides `1, 3, 5, …, 105` from the addresses `0, 1, 4, …, 53²`:
the last three overwrite the first three slots, and the cursor is at 3. -/
example :
    (applyCalls (IMemData.make false 0 0 false false false 0)
        ((List.range 53).map fun j => .nextStride ((j + 1) * (j + 1)).toUInt64)).recentStrides =
      (List.range 50).map (fun i => ((2 * (if i < 3 then i + 50 else i) + 1 : Nat) : Int)) ∧
    (applyCalls (IMemData.make false 0 0 false false false 0)
        ((List.range 53).map fun j => .nextStride ((j + 1) * (j + 1)).toUInt64)).recentStridesIdx =
      3 := by
  decide

end StfTools.Analysis
