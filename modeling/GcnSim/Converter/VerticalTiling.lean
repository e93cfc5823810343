import GcnSim.Converter.Csr

/-!
# Vertical tiling

`vtmake` cuts the columns into `tile_num` ranges of `v_num` columns and writes one row
for every source row and every range: the rows of the first range, then those of the
second, and so on.
-/

namespace GcnSim

namespace VerticalTiling

/-- `v_num`, `ceil((float)v / tile_num)` taken exactly. -/
def vNum (v tileNum : Nat) : Nat := ceilDiv v tileNum

/-- The tile `index` of a column. -/
def tileIndex (v tileNum edge : Nat) : Nat :=
  let index := edge / vNum v tileNum
  if index = tileNum then index - 1 else index

/-- `new_csr[i + v*index].push_back(edge)`. -/
def place (v tileNum : Nat) (newCsr : List (List Nat)) (i edge : Nat) :
    Option (List (List Nat)) :=
  Buckets.push newCsr (i + v * tileIndex v tileNum edge) edge

/-- The CSR file that `vtmake` writes for the row line and the column line it reads. -/
def vtmake (v tileNum : Nat) (row col : List Nat) : Option CsrMatrix :=
  (Converter.forEachEdge (place v tileNum) v row col (List.replicate (v * tileNum) [])).map
    CsrMatrix.ofRows

/-- What it means that `out` is the vertical tiling of `m`. -/
structure Tiles (m : CsrMatrix) (tileNum : Nat) (out : CsrMatrix) : Prop where
  /-- Every write is to one of the output rows. -/
  inRange : ∀ e ∈ m.edges, e.1 + m.xH * tileIndex m.xH tileNum e.2 < m.xH * tileNum
  row_length : out.row.length = m.xH * tileNum + 1
  row_mono : out.row.Pairwise (· ≤ ·)
  row_last : out.row.getLastD 0 = m.col.length
  /-- Output row `i + v*t` has the edges of source row `i` in tile `t`, in their order. -/
  rowCols_eq : ∀ i < m.xH, ∀ t < tileNum, out.rowCols (i + m.xH * t) =
    (m.rowCols i).filter fun c => t * vNum m.xH tileNum ≤ c ∧ c < (t + 1) * vNum m.xH tileNum
  /-- The rows of one source row put together are a permutation of it. -/
  rows_perm : ∀ i < m.xH,
    ((List.range tileNum).flatMap fun t => out.rowCols (i + m.xH * t)).Perm (m.rowCols i)
  /-- A sorted source row is put together as it was. -/
  rows_eq : ∀ i < m.xH, (m.rowCols i).Pairwise (· ≤ ·) →
    ((List.range tileNum).flatMap fun t => out.rowCols (i + m.xH * t)) = m.rowCols i

variable {v tileNum : Nat}

theorem vNum_pos (hv : 1 ≤ v) (ht : 1 ≤ tileNum) : 0 < vNum v tileNum := ceilDiv_pos hv ht

/-- A column below `v` is in one of the tiles. -/
theorem div_vNum_lt (ht : 1 ≤ tileNum) {c : Nat} (hc : c < v) : c / vNum v tileNum < tileNum := by
  have hle : v ≤ vNum v tileNum * tileNum := (ceilDiv_le_iff ht).mp le_rfl
  exact Nat.div_lt_of_lt_mul (hc.trans_le hle)

/-- The test `index == tile_num` never succeeds. -/
theorem tileIndex_eq (ht : 1 ≤ tileNum) {c : Nat} (hc : c < v) :
    tileIndex v tileNum c = c / vNum v tileNum :=
  if_neg (div_vNum_lt ht hc).ne

/-- The output rows are numbered tile by tile. -/
theorem slot_lt {i t : Nat} (hi : i < v) (ht : t < tileNum) : i + v * t < v * tileNum := by
  calc i + v * t < v + v * t := Nat.add_lt_add_right hi _
    _ = v * (t + 1) := by ring
    _ ≤ v * tileNum := Nat.mul_le_mul_left v ht

/-- Two output rows are the same only for the same source row and the same tile. -/
theorem slot_inj {i j s t : Nat} (hi : i < v) (hj : j < v) :
    i + v * s = j + v * t ↔ i = j ∧ s = t := by
  constructor
  · intro h
    have hmod : (i + v * s) % v = (j + v * t) % v := by rw [h]
    rw [Nat.add_mul_mod_self_left, Nat.add_mul_mod_self_left, Nat.mod_eq_of_lt hi,
      Nat.mod_eq_of_lt hj] at hmod
    have hmul : v * s = v * t := by omega
    exact ⟨hmod, Nat.eq_of_mul_eq_mul_left (by omega) hmul⟩
  · rintro ⟨rfl, rfl⟩
    rfl

/-- The tile test in terms of the column range of the tile. -/
theorem div_eq_iff_range {c t n : Nat} (hn : 0 < n) :
    c / n = t ↔ t * n ≤ c ∧ c < (t + 1) * n := by
  rw [Nat.div_eq_iff hn, Nat.succ_mul]
  constructor
  · intro h
    omega
  · intro h
    omega

section Output

variable {m : CsrMatrix}

/-- The columns of a file with columns below `v`. -/
theorem lt_of_mem_edges (hcol : ∀ c ∈ m.col, c < m.xH) {e : Nat × Nat} (he : e ∈ m.edges) :
    e.1 < m.xH ∧ e.2 < m.xH := by
  obtain ⟨hi, hc⟩ := CsrMatrix.mem_edges.mp he
  exact ⟨hi, hcol _ (CsrMatrix.mem_col_of_mem_rowCols hc)⟩

/-- The output row an edge is written to. -/
def slot (v tileNum : Nat) (e : Nat × Nat) : Nat := e.1 + v * tileIndex v tileNum e.2

/-- Every write index is in range. -/
theorem slot_lt_of_mem (ht : 1 ≤ tileNum) (hcol : ∀ c ∈ m.col, c < m.xH) {e : Nat × Nat}
    (he : e ∈ m.edges) : slot m.xH tileNum e < m.xH * tileNum := by
  obtain ⟨hi, hc⟩ := lt_of_mem_edges hcol he
  rw [slot, tileIndex_eq ht hc]
  exact slot_lt hi (div_vNum_lt ht hc)

theorem slot_lt_length (ht : 1 ≤ tileNum) (hcol : ∀ c ∈ m.col, c < m.xH) :
    ∀ e ∈ m.edges, slot m.xH tileNum e <
      (List.replicate (m.xH * tileNum) ([] : List Nat)).length := by
  intro e he
  rw [List.length_replicate]
  exact slot_lt_of_mem ht hcol he

/-- The rows `new_csr` when every edge is pushed on its output row. -/
def written (m : CsrMatrix) (tileNum : Nat) : List (List Nat) :=
  Buckets.fill (slot m.xH tileNum) Prod.snd (List.replicate (m.xH * tileNum) []) m.edges

@[simp] theorem length_written : (written m tileNum).length = m.xH * tileNum := by
  simp [written]

/-- No write of `vtmake` is out of range. -/
theorem vtmake_eq (ht : 1 ≤ tileNum) (hcol : ∀ c ∈ m.col, c < m.xH) :
    vtmake m.xH tileNum m.row m.col = some (CsrMatrix.ofRows (written m tileNum)) := by
  rw [vtmake, Converter.forEachEdge_eq]
  exact congrArg (Option.map CsrMatrix.ofRows) (Buckets.foldlM_push (slot_lt_length ht hcol))

/-- The written rows hold as many columns as there are edges. -/
theorem length_flatten_written (ht : 1 ≤ tileNum) (hcol : ∀ c ∈ m.col, c < m.xH) :
    (written m tileNum).flatten.length = m.col.length := by
  rw [written, Buckets.length_flatten_fill (slot_lt_length ht hcol), CsrMatrix.length_edges]
  simp

/-- The edges written to the row of source row `i` and tile `t`. -/
theorem filter_slot (ht : 1 ≤ tileNum) (hcol : ∀ c ∈ m.col, c < m.xH) {i t : Nat}
    (hi : i < m.xH) :
    (m.edges.filter fun e => slot m.xH tileNum e = i + m.xH * t).map Prod.snd =
      (m.rowCols i).filter fun c => c / vNum m.xH tileNum = t := by
  refine CsrMatrix.map_snd_filter_slot hi ?_
  intro e he
  obtain ⟨he₁, he₂⟩ := lt_of_mem_edges hcol he
  rw [slot, tileIndex_eq ht he₂, slot_inj he₁ hi]

/-- The output row of source row `i` and tile `t`. -/
theorem rowCols_written (ht : 1 ≤ tileNum) (hcol : ∀ c ∈ m.col, c < m.xH) {i t : Nat}
    (hi : i < m.xH) (htt : t < tileNum) :
    (CsrMatrix.ofRows (written m tileNum)).rowCols (i + m.xH * t) =
      (m.rowCols i).filter fun c => c / vNum m.xH tileNum = t := by
  have hk := slot_lt hi htt
  rw [CsrMatrix.rowCols_ofRows (by simpa using hk), ← filter_slot ht hcol hi]
  exact Buckets.getElem_fill_replicate _ _

/-- The output rows of a source row are its columns grouped by tile. -/
theorem flatMap_written (ht : 1 ≤ tileNum) (hcol : ∀ c ∈ m.col, c < m.xH) {i : Nat}
    (hi : i < m.xH) :
    ((List.range tileNum).flatMap fun t =>
      (CsrMatrix.ofRows (written m tileNum)).rowCols (i + m.xH * t)) =
      Buckets.groups (· / vNum m.xH tileNum) (List.range tileNum) (m.rowCols i) := by
  apply List.flatMap_congr
  intro t htt
  exact rowCols_written ht hcol hi (List.mem_range.mp htt)

theorem tile_mem_range (ht : 1 ≤ tileNum) (hcol : ∀ c ∈ m.col, c < m.xH) (i : Nat) :
    ∀ c ∈ m.rowCols i, c / vNum m.xH tileNum ∈ List.range tileNum := by
  intro c hc
  exact List.mem_range.mpr (div_vNum_lt ht (hcol c (CsrMatrix.mem_col_of_mem_rowCols hc)))

end Output

/-- Vertical tiling loses and duplicates no edge, keeps every output row in order, and
sorted rows can be put together again. -/
theorem vtmake_tiles (m : CsrMatrix) (tileNum : Nat) (hv : 1 ≤ m.xH) (ht : 1 ≤ tileNum)
    (hcol : ∀ c ∈ m.col, c < m.xH) :
    ∃ out, vtmake m.xH tileNum m.row m.col = some out ∧ Tiles m tileNum out := by
  refine ⟨_, vtmake_eq ht hcol, ?_⟩
  constructor
  case inRange => exact fun e he => slot_lt_of_mem ht hcol he
  case row_length => simp [CsrMatrix.ofRows]
  case row_mono => exact CsrMatrix.row_mono _
  case row_last =>
    rw [← CsrMatrix.col_length]
    exact length_flatten_written ht hcol
  case rowCols_eq =>
    intro i hi t htt
    rw [rowCols_written ht hcol hi htt]
    simp only [div_eq_iff_range (vNum_pos hv ht)]
  case rows_perm =>
    intro i hi
    rw [flatMap_written ht hcol hi]
    exact Buckets.groups_perm List.pairwise_lt_range (tile_mem_range ht hcol i)
  case rows_eq =>
    intro i hi hsorted
    rw [flatMap_written ht hcol hi]
    apply Buckets.groups_eq_self List.pairwise_lt_range (tile_mem_range ht hcol i)
    exact hsorted.imp fun h => Nat.div_le_div_right h

/-- Three vertices in two tiles of two columns each. -/
def threeVertices : CsrMatrix where
  row := [0, 3, 3, 4]
  col := [2, 0, 1, 2]
  row_zero := rfl
  row_mono := by decide
  col_length := rfl

theorem vtmake_threeVertices :
    ∃ out, vtmake 3 2 [0, 3, 3, 4] [2, 0, 1, 2] = some out ∧ Tiles threeVertices 2 out :=
  vtmake_tiles threeVertices 2 (Nat.le_add_left 1 2) (Nat.le_add_left 1 1) (by decide)

example : (vtmake 3 2 [0, 3, 3, 4] [2, 0, 1, 2]).map (fun out => (out.row, out.col)) =
    some ([0, 2, 2, 2, 3, 3, 4], [0, 1, 2, 2]) := by
  decide

end VerticalTiling

end GcnSim
