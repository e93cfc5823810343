import GcnSim.Cache.BloomIndex
import Mathlib.Data.Rat.Floor

/-!
# The averages of the moving median

`MovingMedian` is to keep the average column of every block of rows. It flushes an average
only when an edge of another block arrives, so the last block is never averaged; the edge
that changes the block is not averaged either, and a row on the boundary is put in the block
before it. `replace` then looks the average up by the row, not by its block. A scan never
leaves one average for every block, and the last row is looked up past the end.
-/

namespace GcnSim

/-- `mvmTmp`, `medians` and `mvmCurIdx` with the averages as exact quotients; `none` is the
average of no columns. -/
structure MovingMean where
  tmp : List Int
  medians : List (Option ℚ)
  curIdx : Nat
  deriving DecidableEq

namespace MovingMean

variable (C : HybridConfig)

/-- The constructor. -/
def init : MovingMean := ⟨[], [], 0⟩

/-- `(double)tmpSum/mvmTmp.size()`. -/
def average (tmp : List Int) : Option ℚ :=
  if tmp = [] then none
  else some (((tmp.map u64OfInt).sum % u64Size : Nat) / (tmp.length : ℚ))

/-- `firstCycleAccess`. -/
def firstCycleAccess (m : MovingMean) (e : Nat × Nat) : MovingMean :=
  if m.curIdx ≠ MovingMedian.blockOf C e.1 then
    { tmp := []
      medians := m.medians ++ [average m.tmp]
      curIdx := MovingMedian.blockOf C e.1 }
  else { m with tmp := m.tmp ++ [intOfU64 e.2] }

/-- The averages after a scan of the edges. -/
def scan (edges : List (Nat × Nat)) : MovingMean := Transition.run (firstCycleAccess C) init edges

/-- The averages converted to `int`, as `replace` reads them. -/
def truncate (m : MovingMean) : MovingMedian :=
  ⟨m.tmp, m.medians.map (Option.map Int.floor), m.curIdx⟩

/-- The row lies in block `i` of `mvmBlkIdxVector`. -/
def InBlock (i row : Nat) : Prop :=
  Blocks.offset (HybridConfig.spread C.aH C.movMedBlockNum) i ≤ row ∧
    row < Blocks.offset (HybridConfig.spread C.aH C.movMedBlockNum) i +
      (HybridConfig.spread C.aH C.movMedBlockNum).getD i 0

instance (i row : Nat) : Decidable (InBlock C i row) :=
  inferInstanceAs (Decidable (_ ∧ _))

/-- The columns of the edges of block `i`. -/
def blockCols (edges : List (Nat × Nat)) (i : Nat) : List Nat :=
  (edges.filter fun e => InBlock C i e.1).map Prod.snd

/-- What a scan of fold 0 is to leave. -/
structure AveragesBlocks (edges : List (Nat × Nat)) : Prop where
  length_eq : (scan C edges).medians.length = C.movMedBlockNum
  mean : ∀ i < C.movMedBlockNum, (scan C edges).medians[i]? =
    some (some ((blockCols C edges i).sum / ((blockCols C edges i).length : ℚ)))
  /-- `replace` reads the average of the block of the row. -/
  lookup : ∀ row < C.aH, ∃ i < C.movMedBlockNum, InBlock C i row ∧
    row < (scan C edges).medians.length ∧
      (scan C edges).medians[row]? = (scan C edges).medians[i]?

/-- A scan of fold 0: the edges come in the order of their rows, and every block has one. -/
structure RowOrder (edges : List (Nat × Nat)) : Prop where
  sorted : edges.Pairwise fun a b => a.1 ≤ b.1
  row_lt : ∀ e ∈ edges, e.1 < C.aH
  nonempty : ∀ i < C.movMedBlockNum, ∃ e ∈ edges, InBlock C i e.1

variable {C}

/-- The averages of the buffer are these, converted to `int`. -/
theorem truncate_firstCycleAccess (m : MovingMean) (row col : Nat) :
    (m.firstCycleAccess C (row, col)).truncate = m.truncate.firstCycleAccess C row col := by
  have haverage : (average m.tmp).map Int.floor = MovingMedian.average m.tmp := by
    rw [average, MovingMedian.average]
    split
    · rfl
    · rw [Option.map_some, Rat.floor_natCast_div_natCast]
      rfl
  rw [firstCycleAccess, MovingMedian.firstCycleAccess]
  change truncate (if m.curIdx ≠ MovingMedian.blockOf C row then _ else _) =
    if m.curIdx ≠ MovingMedian.blockOf C row then _ else _
  split
  · rw [truncate, List.map_append, List.map_singleton, haverage]
    rfl
  · rfl

/-- The block of a row is the first one that ends behind the row or at it. -/
theorem blockOf_spec {row : Nat} (hrow : row < C.aH) :
    MovingMedian.blockOf C row < C.movMedBlockNum ∧
      row ≤ Blocks.offset (HybridConfig.spread C.aH C.movMedBlockNum)
        (MovingMedian.blockOf C row + 1) ∧
      ∀ j < MovingMedian.blockOf C row,
        Blocks.offset (HybridConfig.spread C.aH C.movMedBlockNum) (j + 1) < row := by
  have hlast : C.movMedBlockNum - 1 < C.movMedBlockNum :=
    Nat.sub_lt C.movMedBlockNum_pos Nat.one_pos
  have hall : row ≤ Blocks.offset (HybridConfig.spread C.aH C.movMedBlockNum)
      (C.movMedBlockNum - 1 + 1) := by
    rw [Nat.sub_add_cancel C.movMedBlockNum_pos, Blocks.offset,
      List.take_of_length_le HybridConfig.length_spread.le,
      HybridConfig.sum_spread C.movMedBlockNum_pos]
    exact hrow.le
  have hsome : ((List.range C.movMedBlockNum).find? fun i => decide
      (row ≤ Blocks.offset (HybridConfig.spread C.aH C.movMedBlockNum) (i + 1))).isSome :=
    List.find?_isSome.mpr ⟨_, List.mem_range.mpr hlast, decide_eq_true hall⟩
  obtain ⟨i, hi⟩ := Option.isSome_iff_exists.mp hsome
  have hblock : MovingMedian.blockOf C row = i := congrArg (Option.getD · 0) hi
  obtain ⟨htest, hmem, hfirst⟩ := List.find?_range_eq_some.mp hi
  rw [hblock]
  refine ⟨List.mem_range.mp hmem, of_decide_eq_true htest, fun j hj => ?_⟩
  have hj := hfirst j hj
  rw [Bool.not_eq_true', decide_eq_false_iff_not] at hj
  exact Nat.lt_of_not_le hj

/-- The rows of a scan come to the blocks in their order. -/
theorem blockOf_mono {row row' : Nat} (hle : row ≤ row') (hrow : row' < C.aH) :
    MovingMedian.blockOf C row ≤ MovingMedian.blockOf C row' := by
  obtain ⟨-, hend, -⟩ := blockOf_spec hrow
  obtain ⟨-, -, hfirst⟩ := blockOf_spec (hle.trans_lt hrow)
  by_contra hlt
  have := hfirst _ (Nat.lt_of_not_le hlt)
  omega

/-- What a scan in row order has done before it comes to row `row`. -/
structure UpTo (row : Nat) (m : MovingMean) : Prop where
  flushed : m.medians.length ≤ m.curIdx
  curIdx_le : m.curIdx ≤ MovingMedian.blockOf C row

/-- An edge flushes at most one average, and only when the block changes. -/
theorem UpTo.firstCycleAccess {m : MovingMean} {e : Nat × Nat} (h : UpTo (C := C) e.1 m)
    {row : Nat} (hle : e.1 ≤ row) (hrow : row < C.aH) :
    UpTo (C := C) row (m.firstCycleAccess C e) := by
  have hmono := blockOf_mono hle hrow
  rw [MovingMean.firstCycleAccess]
  split
  · rename_i hne
    refine ⟨?_, hmono⟩
    rw [List.length_append, List.length_singleton]
    have hlt : m.curIdx < MovingMedian.blockOf C e.1 := Nat.lt_of_le_of_ne h.curIdx_le hne
    have hflushed := h.flushed
    change m.medians.length + 1 ≤ MovingMedian.blockOf C e.1
    omega
  · exact ⟨h.flushed, h.curIdx_le.trans hmono⟩

/-- A scan leaves fewer averages than there are blocks. -/
theorem length_medians_lt {edges : List (Nat × Nat)}
    (hsorted : edges.Pairwise fun a b => a.1 ≤ b.1) (hrows : ∀ e ∈ edges, e.1 < C.aH) :
    (scan C edges).medians.length < C.movMedBlockNum := by
  -- The scan is followed from any state that it can be in before its first edge.
  have hrun : ∀ (edges : List (Nat × Nat)) (m : MovingMean),
      edges.Pairwise (fun a b => a.1 ≤ b.1) → (∀ e ∈ edges, e.1 < C.aH) →
      m.medians.length ≤ m.curIdx → m.curIdx < C.movMedBlockNum →
      (∀ e ∈ edges, m.curIdx ≤ MovingMedian.blockOf C e.1) →
      (Transition.run (MovingMean.firstCycleAccess C) m edges).medians.length <
        C.movMedBlockNum := by
    intro edges
    induction edges with
    | nil => exact fun m _ _ hflushed hcur _ => hflushed.trans_lt hcur
    | cons e edges ih =>
      intro m hsorted hrows hflushed hcur hnext
      rw [List.pairwise_cons] at hsorted
      rw [List.forall_mem_cons] at hrows hnext
      have hup : ∀ row, e.1 ≤ row → row < C.aH → UpTo (C := C) row (m.firstCycleAccess C e) :=
        fun row hle hrow => UpTo.firstCycleAccess ⟨hflushed, hnext.1⟩ hle hrow
      have hself := hup e.1 le_rfl hrows.1
      refine ih _ hsorted.2 hrows.2 hself.flushed ?_ ?_
      · exact hself.curIdx_le.trans_lt (blockOf_spec hrows.1).1
      · intro e' he'
        exact (hup e'.1 (hsorted.1 e' he') (hrows.2 e' he')).curIdx_le
  exact hrun edges init hsorted hrows le_rfl C.movMedBlockNum_pos fun _ _ => Nat.zero_le _

/-- A scan in row order never leaves one average for every block, and the last row is never
looked up in range. -/
theorem scan_not_averagesBlocks (C : HybridConfig) (hblocks : C.movMedBlockNum ≤ C.aH)
    (edges : List (Nat × Nat)) (horder : RowOrder C edges) :
    (scan C edges).medians.length ≠ C.movMedBlockNum ∧
      (∃ row < C.aH, (scan C edges).medians[row]? = none) ∧ ¬ AveragesBlocks C edges := by
  have hlt := length_medians_lt horder.sorted horder.row_lt
  have hpos := C.movMedBlockNum_pos
  refine ⟨hlt.ne, ⟨C.aH - 1, by omega, List.getElem?_eq_none (by omega)⟩, fun h => ?_⟩
  exact hlt.ne h.length_eq

/-- Four rows in two blocks. -/
def fourRows : HybridConfig where
  algo := .movingMed
  setN := 1
  wayN := 2
  aH := 4
  bloomFilterNum := 1
  bfLen := 1
  bfOverlap := 0
  movMedBlockNum := 2
  setN_pos := Nat.one_pos
  wayN_pos := Nat.two_pos
  bloomFilterNum_pos := Nat.one_pos
  bfLen_pos := Nat.one_pos
  movMedBlockNum_pos := Nat.two_pos

theorem fourRows_rowOrder : RowOrder fourRows [(0, 0), (1, 2), (2, 3), (3, 1)] where
  sorted := by decide
  row_lt := by decide
  nonempty := by decide

theorem scan_not_averagesBlocks_fourRows :
    ¬ AveragesBlocks fourRows [(0, 0), (1, 2), (2, 3), (3, 1)] :=
  (scan_not_averagesBlocks fourRows (by decide) _ fourRows_rowOrder).2.2

/-- One average is left for the two blocks, of the columns of rows 0, 1 and 2. -/
theorem fourRows_one_average :
    RowOrder fourRows [(0, 0), (1, 2), (2, 3), (3, 1)] ∧
      (scan fourRows [(0, 0), (1, 2), (2, 3), (3, 1)]).medians = [some (5 / 3)] ∧
      ¬ AveragesBlocks fourRows [(0, 0), (1, 2), (2, 3), (3, 1)] := by
  refine ⟨fourRows_rowOrder, ?_, fun h => ?_⟩
  · decide +kernel
  · exact absurd h.length_eq (by decide)

end MovingMean

end GcnSim
