import GcnSim.Core.Machine
import GcnSim.Lib.Blocks
import GcnSim.Lib.Rounding

/-!
# The adjacency matrix and its per-block counts

`DataReader` reads the CSR adjacency and, while it parses the row line, cuts the
rows into blocks of `max_v` rows. For every block it queues the number of edges
and the number of row pointers; the readers and the data controller later pop
these counts independently of each other.
-/

namespace GcnSim

/-- A CSR adjacency of `a_h` rows: `a_h + 1` non-decreasing row pointers from `0` and
as many columns as the last pointer says. -/
structure Csr where
  /-- Number of rows, `a_h`. -/
  aH : Nat
  /-- The row line of the data file. -/
  row : List Nat
  /-- The column line of the data file. -/
  col : List Nat
  aH_pos : 0 < aH
  row_length : row.length = aH + 1
  row_zero : row.getD 0 0 = 0
  row_mono : ∀ i < aH, row.getD i 0 ≤ row.getD (i + 1) 0
  col_length : col.length = row.getD aH 0

/-- What a run of the simulator is configured with: the adjacency, `CACHE_LINE_COUNT`,
the vertices of the T cache `max_v` and the width `w_w` of the weight matrix. -/
structure Params extends Csr where
  /-- Entries of a cache line, `CACHE_LINE_COUNT`. -/
  cacheLineCount : Nat
  /-- Rows of a block, `max_v`. -/
  maxV : Nat
  /-- Width of the weight matrix, `w_w`. -/
  wW : Nat
  /-- What a `double` from `2 ^ 64` on is converted to, which the language leaves open. -/
  overflow : Nat := 0
  cacheLineCount_pos : 0 < cacheLineCount
  maxV_pos : 0 < maxV
  wW_pos : 0 < wW

/-- The loop of `GetUint64Val` over the tokens after the first one, with `is_vertex`
set: the entries pushed on `edge_req_count` and on `vertex_req_count`. -/
def countLoop (maxV aH : Nat) : Nat → Nat → Nat → List Nat → List Nat × List Nat
  | _, _, _, [] => ([], [])
  | parseCount, vCount, startV, x :: xs =>
    if (parseCount + 1) % maxV = 0 ∨ parseCount + 1 = aH then
      let rest := countLoop maxV aH (parseCount + 1) 0 x xs
      ((x - startV) :: rest.1, (vCount + 1) :: rest.2)
    else countLoop maxV aH (parseCount + 1) (vCount + 1) startV xs

/-- `ceil((double)a_h / CACHE_LINE_COUNT) * w_w * edge_req_count.size()` in `double`. Both
products are rounded. The quotient is not: `a_h` is read by `stoi`, and a quotient of so
small a number is never rounded to or over the next integer. -/
def totAxwCount (aH cacheLineCount wW size : Nat) : Option Nat :=
  toU64 (Rounding.round 53
    (Rounding.round 53 (ceilDiv aH cacheLineCount * Rounding.round 53 wW) * Rounding.round 53 size))

/-- `tot_axw_count` is the exact product only if a `double` can hold it. -/
theorem totAxwCount_eq_iff {aH cacheLineCount wW size : Nat} (haH : 0 < aH)
    (hclc : 0 < cacheLineCount) (hsize : 0 < size) :
    totAxwCount aH cacheLineCount wW size = some (ceilDiv aH cacheLineCount * wW * size) ↔
      ceilDiv aH cacheLineCount * wW * size < u64Size ∧
        Rounding.Representable 53 (ceilDiv aH cacheLineCount * wW * size) := by
  have hround := Rounding.round_product_eq_iff (p := 53) (w := wW) (by decide)
    (ceilDiv_pos haH hclc) hsize
  rw [← hround, totAxwCount, toU64]
  constructor
  · intro h
    split at h
    · rename_i hlt
      have heq := Option.some.inj h
      rw [heq] at hlt
      exact ⟨hlt, heq⟩
    · cases h
  · rintro ⟨hlt, heq⟩
    rw [heq, if_pos hlt]

/-- With three-row blocks of 3549 rows and the largest `w_w` one line is lost. -/
example : totAxwCount 3549 1 2147483647 1183 = some (3549 * 2147483647 * 1183 - 1) := by
  decide +kernel

namespace Params

variable (P : Params)

/-- `w_fold`, which `Distributer` sets to `w_w`. -/
abbrev wFold : Nat := P.wW

/-- The row pointer of row `i`. -/
def rowPtr (i : Nat) : Nat := P.row.getD i 0

/-- The entries `ReadData` leaves on `edge_req_count` and on `edge_req_count_cnt`. -/
def edgeReqCount : List Nat := (countLoop P.maxV P.aH 0 1 0 P.row.tail).1

/-- The entries `ReadData` leaves on `vertex_req_count` and on `vertex_req_count_cnt`. -/
def vertexReqCount : List Nat := (countLoop P.maxV P.aH 0 1 0 P.row.tail).2

/-- The lines of one write episode, `ceil((double)a_h / CACHE_LINE_COUNT)`. -/
def writeLines : Nat := ceilDiv P.aH P.cacheLineCount

/-- `tot_axw_count` as `ReadData` computes it, in `double`. -/
def totAxwCount : Nat :=
  (GcnSim.totAxwCount P.aH P.cacheLineCount P.wW P.edgeReqCount.length).getD P.overflow

/-- Number of blocks, `ceil(a_h / max_v)`. -/
def blockCount : Nat := ceilDiv P.aH P.maxV

/-- The lines of an episode for each pass over each block: what `tot_axw_count` stands for. -/
def axwLines : Nat := P.writeLines * P.wW * P.blockCount

/-- The row after which block `b` starts. -/
def blockStart (b : Nat) : Nat := b * P.maxV

/-- The last row of block `b`. -/
def blockEnd (b : Nat) : Nat := min ((b + 1) * P.maxV) P.aH

/-- The row pointers of block `b`, one for each of its rows. -/
def blockRows (b : Nat) : List Nat :=
  (P.row.drop (P.blockStart b + 1)).take (P.blockEnd b - P.blockStart b)

/-- The columns of block `b`. -/
def blockCols (b : Nat) : List Nat :=
  (P.col.drop (P.rowPtr (P.blockStart b))).take
    (P.rowPtr (P.blockEnd b) - P.rowPtr (P.blockStart b))

/-- The leading `0` of the row line belongs to the first block. -/
def lead (b : Nat) : Nat := if b = 0 then 1 else 0

variable {P}

theorem lt_blockCount_iff {b : Nat} : b < P.blockCount ↔ P.blockStart b < P.aH :=
  lt_ceilDiv_iff P.maxV_pos

theorem blockCount_pos : 0 < P.blockCount := ceilDiv_pos P.aH_pos P.maxV_pos

@[simp] theorem blockStart_zero : P.blockStart 0 = 0 := by simp [blockStart]

theorem blockStart_succ (b : Nat) : P.blockStart (b + 1) = P.blockStart b + P.maxV := by
  simp only [blockStart, Nat.succ_mul]

theorem blockEnd_eq_min (b : Nat) :
    P.blockEnd b = min (P.blockStart b + P.maxV) P.aH := by
  rw [blockEnd, ← blockStart_succ, blockStart]

theorem blockEnd_le (b : Nat) : P.blockEnd b ≤ P.aH := by
  rw [blockEnd_eq_min]
  omega

theorem blockStart_lt_blockEnd {b : Nat} (hb : b < P.blockCount) :
    P.blockStart b < P.blockEnd b := by
  have h := lt_blockCount_iff.mp hb
  have hv := P.maxV_pos
  rw [blockEnd_eq_min]
  omega

/-- A block that is not the last one ends where the next one starts. -/
theorem blockEnd_eq_blockStart_succ {b : Nat} (hb : b + 1 < P.blockCount) :
    P.blockEnd b = P.blockStart (b + 1) := by
  have h := lt_blockCount_iff.mp hb
  rw [blockEnd_eq_min]
  rw [blockStart_succ] at h ⊢
  omega

/-- The last block ends at the last row. -/
theorem blockEnd_last {b : Nat} (hlast : ¬ b + 1 < P.blockCount) :
    P.blockEnd b = P.aH := by
  rw [lt_blockCount_iff, blockStart_succ] at hlast
  rw [blockEnd_eq_min]
  omega

theorem blockEnd_eq_aH_iff {b : Nat} (hb : b < P.blockCount) :
    P.blockEnd b = P.aH ↔ b + 1 = P.blockCount := by
  constructor
  · intro he
    by_contra hne
    have hlt : b + 1 < P.blockCount := by omega
    have hs := lt_blockCount_iff.mp hlt
    rw [← blockEnd_eq_blockStart_succ hlt] at hs
    omega
  · intro he
    exact blockEnd_last (by omega)

/-- The end-of-block test of the readers recognises exactly the last row of the block. -/
theorem blockEnd_test {b r : Nat} (hs : P.blockStart b < r) (he : r ≤ P.blockEnd b) :
    (r % P.maxV = 0 ∨ r = P.aH) ↔ r = P.blockEnd b := by
  have hv := P.maxV_pos
  have hle := P.blockEnd_le b
  constructor
  · rintro (hmod | hlast)
    · obtain ⟨q, rfl⟩ := Nat.dvd_of_mod_eq_zero hmod
      rw [blockStart, Nat.mul_comm] at hs
      have hq : b < q := Nat.lt_of_mul_lt_mul_left hs
      have hmul : P.maxV * (b + 1) ≤ P.maxV * q := Nat.mul_le_mul_left _ hq
      rw [blockEnd, Nat.mul_comm (b + 1)] at he ⊢
      omega
    · omega
  · intro hr
    rw [blockEnd] at hr
    rcases Nat.le_total ((b + 1) * P.maxV) P.aH with h | h
    · left
      rw [hr, Nat.min_eq_left h, Nat.mul_mod_left]
    · right
      omega

theorem rowPtr_zero : P.rowPtr 0 = 0 := P.row_zero

/-- Row pointers do not decrease. -/
theorem rowPtr_mono {i j : Nat} (hij : i ≤ j) (hj : j ≤ P.aH) : P.rowPtr i ≤ P.rowPtr j := by
  induction j, hij using Nat.le_induction with
  | base => exact le_rfl
  | succ j _ ih => exact (ih (by omega)).trans (P.row_mono j (by omega))

theorem row_drop_succ {i : Nat} (hi : i < P.aH) :
    P.row.drop (i + 1) = P.rowPtr (i + 1) :: P.row.drop (i + 2) := by
  have h : i + 1 < P.row.length := by rw [P.row_length]; omega
  rw [List.drop_eq_getElem_cons h, rowPtr, List.getD_eq_getElem?_getD,
    List.getElem?_eq_getElem h, Option.getD_some]

/-- The parse of the row line from row `i` of block `b` on queues the counts of the
blocks from `b` on. The counters of the loop are where the source keeps them: rows
seen, rows of this block seen, and the pointer the block starts from. -/
theorem countLoop_eq {b i : Nat} (hs : P.blockStart b ≤ i) (hi : i < P.blockEnd b) :
    countLoop P.maxV P.aH i (i - P.blockStart b + lead b) (P.rowPtr (P.blockStart b))
        (P.row.drop (i + 1)) =
      ((List.range' b (P.blockCount - b)).map
          fun b => P.rowPtr (P.blockEnd b) - P.rowPtr (P.blockStart b),
        (List.range' b (P.blockCount - b)).map
          fun b => P.blockEnd b - P.blockStart b + lead b) := by
  have hle := P.blockEnd_le b
  induction hn : P.aH - i generalizing b i with
  | zero => omega
  | succ n ih =>
    have hb : b < P.blockCount := by rw [lt_blockCount_iff]; omega
    rw [row_drop_succ (by omega), countLoop]
    simp only [blockEnd_test (show P.blockStart b < i + 1 by omega) hi]
    have hrange : List.range' b (P.blockCount - b) =
        b :: List.range' (b + 1) (P.blockCount - (b + 1)) := by
      rw [show P.blockCount - b = P.blockCount - (b + 1) + 1 by omega, List.range'_succ]
    by_cases hend : i + 1 = P.blockEnd b
    · rw [if_pos hend, hrange]
      by_cases hnext : b + 1 < P.blockCount
      · have hbs := blockEnd_eq_blockStart_succ hnext
        have hlt := blockStart_lt_blockEnd hnext
        have hrest := ih (b := b + 1) (i := i + 1) (by omega) (by omega) (P.blockEnd_le _)
          (by omega)
        rw [hend, hbs, Nat.sub_self, show lead (b + 1) = 0 by simp [lead]] at hrest
        rw [hend, hbs, show i + 2 = P.blockStart (b + 1) + 1 by omega, hrest]
        simp only [List.map_cons, hbs, Prod.mk.injEq, List.cons.injEq, true_and, and_true]
        omega
      · have hlast := blockEnd_last hnext
        have hnil : P.row.drop (i + 2) = [] := by
          apply List.drop_eq_nil_of_le
          rw [P.row_length]
          omega
        rw [hnil, show P.blockCount - (b + 1) = 0 by omega]
        simp only [countLoop, List.range'_zero, List.map_cons, List.map_nil, hend,
          Prod.mk.injEq, List.cons.injEq, and_true, true_and]
        omega
    · rw [if_neg hend, show i - P.blockStart b + lead b + 1 =
        i + 1 - P.blockStart b + lead b by omega]
      exact ih (by omega) (by omega) hle (by omega)

theorem counts_eq : countLoop P.maxV P.aH 0 1 0 P.row.tail =
    ((List.range' 0 P.blockCount).map
        fun b => P.rowPtr (P.blockEnd b) - P.rowPtr (P.blockStart b),
      (List.range' 0 P.blockCount).map fun b => P.blockEnd b - P.blockStart b + lead b) := by
  have h := countLoop_eq (P := P) (b := 0) (i := 0) (by simp)
    (by simpa using blockStart_lt_blockEnd (P := P) blockCount_pos)
  simpa [lead, rowPtr_zero] using h

theorem edgeReqCount_eq : P.edgeReqCount = (List.range P.blockCount).map
    fun b => P.rowPtr (P.blockEnd b) - P.rowPtr (P.blockStart b) := by
  rw [edgeReqCount, counts_eq, List.range_eq_range']

theorem vertexReqCount_eq : P.vertexReqCount = (List.range P.blockCount).map
    fun b => P.blockEnd b - P.blockStart b + lead b := by
  rw [vertexReqCount, counts_eq, List.range_eq_range']

@[simp] theorem length_edgeReqCount : P.edgeReqCount.length = P.blockCount := by
  simp [edgeReqCount_eq]

@[simp] theorem length_vertexReqCount : P.vertexReqCount.length = P.blockCount := by
  simp [vertexReqCount_eq]

/-- `tot_axw_count` is the number of result lines if a `double` can hold that number. -/
theorem totAxwCount_eq_axwLines (h64 : P.axwLines < u64Size)
    (hrep : Rounding.Representable 53 P.axwLines) : P.totAxwCount = P.axwLines := by
  have hexact := (totAxwCount_eq_iff P.aH_pos P.cacheLineCount_pos P.blockCount_pos).mpr
    ⟨h64, hrep⟩
  rw [totAxwCount, length_edgeReqCount, hexact, Option.getD_some]
  rfl

theorem getD_edgeReqCount {b : Nat} (hb : b < P.blockCount) : P.edgeReqCount.getD b 0 =
    P.rowPtr (P.blockEnd b) - P.rowPtr (P.blockStart b) := by
  simp [edgeReqCount_eq, hb]

theorem getD_vertexReqCount {b : Nat} (hb : b < P.blockCount) : P.vertexReqCount.getD b 0 =
    P.blockEnd b - P.blockStart b + lead b := by
  simp [vertexReqCount_eq, hb]

theorem edgeReqCount_drop {b : Nat} (hb : b < P.blockCount) : P.edgeReqCount.drop b =
    (P.rowPtr (P.blockEnd b) - P.rowPtr (P.blockStart b)) :: P.edgeReqCount.drop (b + 1) := by
  rw [List.drop_eq_getElem_cons (by simpa using hb)]
  simp [edgeReqCount_eq]

theorem vertexReqCount_drop {b : Nat} (hb : b < P.blockCount) : P.vertexReqCount.drop b =
    (P.blockEnd b - P.blockStart b + lead b) :: P.vertexReqCount.drop (b + 1) := by
  rw [List.drop_eq_getElem_cons (by simpa using hb)]
  simp [vertexReqCount_eq]

/-- Block `b` of the column line starts at the pointer of the row before the block. -/
theorem offset_edgeReqCount {b : Nat} (hb : b < P.blockCount) :
    Blocks.offset P.edgeReqCount b = P.rowPtr (P.blockStart b) := by
  induction b with
  | zero => simp [rowPtr_zero]
  | succ b ih =>
    have hb' : b < P.blockCount := by omega
    have hlt := blockStart_lt_blockEnd hb'
    rw [Blocks.offset_succ (by simpa using hb'), ih hb', getD_edgeReqCount hb',
      ← blockEnd_eq_blockStart_succ hb]
    have hm := rowPtr_mono hlt.le (P.blockEnd_le b)
    omega

/-- Block `b` of the row line starts after the last row of the block before. -/
theorem offset_vertexReqCount {b : Nat} (hb : b < P.blockCount) :
    Blocks.offset P.vertexReqCount b + lead b = P.blockStart b + 1 := by
  induction b with
  | zero => simp [lead]
  | succ b ih =>
    have hb' : b < P.blockCount := by omega
    have hlt := blockStart_lt_blockEnd hb'
    have ih := ih hb'
    rw [Blocks.offset_succ (by simpa using hb'), getD_vertexReqCount hb',
      ← blockEnd_eq_blockStart_succ hb, show lead (b + 1) = 0 by simp [lead]]
    omega

/-- The counts of the row blocks add up to the row line. -/
theorem sum_vertexReqCount : P.vertexReqCount.sum = P.row.length := by
  have hpos := P.blockCount_pos
  obtain ⟨b, hb⟩ : ∃ b, b + 1 = P.blockCount := ⟨P.blockCount - 1, by omega⟩
  have hlt : b < P.vertexReqCount.length := by simp; omega
  have hoff := offset_vertexReqCount (P := P) (b := b) (by omega)
  have hs := blockStart_lt_blockEnd (P := P) (b := b) (by omega)
  have hend := (blockEnd_eq_aH_iff (P := P) (b := b) (by omega)).mpr hb
  have htot : Blocks.offset P.vertexReqCount (b + 1) = P.vertexReqCount.sum := by
    rw [Blocks.offset, List.take_of_length_le (by simp; omega)]
  rw [← htot, Blocks.offset_succ hlt, getD_vertexReqCount (by omega), P.row_length]
  omega

/-- The counts of the column blocks add up to the column line. -/
theorem sum_edgeReqCount : P.edgeReqCount.sum = P.col.length := by
  have hpos := P.blockCount_pos
  obtain ⟨b, hb⟩ : ∃ b, b + 1 = P.blockCount := ⟨P.blockCount - 1, by omega⟩
  have hlt : b < P.edgeReqCount.length := by simp; omega
  have hs := blockStart_lt_blockEnd (P := P) (b := b) (by omega)
  have hend := (blockEnd_eq_aH_iff (P := P) (b := b) (by omega)).mpr hb
  have hm := rowPtr_mono (P := P) hs.le (P.blockEnd_le b)
  have htot : Blocks.offset P.edgeReqCount (b + 1) = P.edgeReqCount.sum := by
    rw [Blocks.offset, List.take_of_length_le (by simp; omega)]
  rw [← htot, Blocks.offset_succ hlt, offset_edgeReqCount (by omega),
    getD_edgeReqCount (by omega), P.col_length, hend]
  rw [hend] at hm
  exact Nat.add_sub_cancel' hm

end Params

end GcnSim
