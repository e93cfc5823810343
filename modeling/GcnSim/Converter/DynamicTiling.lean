import GcnSim.Converter.Scatter
import GcnSim.Converter.VerticalTiling
import Mathlib.Data.Rat.Floor
import Mathlib.Algebra.Order.Floor.Semifield

/-!
# Dynamic tiling

`vtmake_dynamic_vt_2` cuts the upper half of the rows into two tiles of columns and the lower
half into three: the left half of its columns is cut in two again. The output rows are found
by arithmetic in `float` and `double`, taken exactly here as it is for fewer than `2 ^ 24`
vertices, and truncated to an index. The rows of the five parts lie one behind the other, so that
no output row is used twice.
-/

namespace GcnSim

namespace DynamicTiling

/-- `v_num` for two tiles. -/
def vNum (v : Nat) : Nat := VerticalTiling.vNum v 2

/-- The number of output rows: the loop runs while `i < v * (tile_num+0.5)`. -/
def rowNum (v : Nat) : Nat := ⌈(v : ℚ) * (2 + 1 / 2)⌉₊

/-- `index` of the upper half. -/
def upperIndex (v edge : Nat) : Nat :=
  let index := edge / vNum v
  if index = 2 then index - 1 else index

/-- `index` of the lower half, a quotient of a `uint64_t` and a `float`. -/
def lowerIndex (v edge : Nat) : Nat :=
  let index := ⌊(edge : ℚ) / (vNum v / 2 : Nat)⌋₊
  if index = 2 then index - 1 else index

/-- The output row of an edge. -/
def slot (v : Nat) (e : Nat × Nat) : Nat :=
  if e.1 ≤ v / 2 then ⌊(e.1 : ℚ) + 3 / 2 * v * upperIndex v e.2⌋₊
  else if v / 2 ≤ e.2 then ⌊(e.1 : ℚ) + 3 / 2 * v⌋₊
  else e.1 + v / 2 * lowerIndex v e.2

/-- The rows of `new_csr` in `vtmake_dynamic_vt_2`, as a CSR. The file that is written is not
this one for odd `v`: its last two row pointers are glued. -/
def vtmakeDynamicVt2 (v : Nat) (row col : List Nat) : Option CsrMatrix :=
  Converter.scatter (slot v) (rowNum v) v row col

/-- The tile of a column: two tiles in the upper half of the rows, three in the lower. -/
def tile (v i c : Nat) : Nat :=
  if i ≤ v / 2 then c / vNum v
  else if c < vNum v / 2 then 0
  else if c < v / 2 then 1
  else 2

variable {v : Nat}

theorem lt_rowNum_iff {k : Nat} : k < rowNum v ↔ 2 * k < 5 * v := by
  rw [rowNum, Nat.lt_ceil]
  constructor
  · intro h
    have : (2 * k : ℚ) < 5 * v := by linarith
    exact_mod_cast this
  · intro h
    have : (2 * k : ℚ) < 5 * v := by exact_mod_cast h
    linarith

theorem vNum_eq : vNum v = (v + 1) / 2 := by
  rw [vNum, VerticalTiling.vNum, ceilDiv, Nat.add_sub_assoc (by decide)]

/-- An index found by arithmetic in `double`, truncated. -/
theorem floor_add {x : ℚ} {n d : Nat} (i : Nat) (hx : x = (n : ℚ) / d) :
    ⌊(i : ℚ) + x⌋₊ = i + n / d := by
  rw [hx, add_comm, Nat.floor_add_natCast (by positivity), Nat.floor_div_eq_div, add_comm]

/-- The offset of the right half, truncated. -/
theorem floor_offset (i : Nat) : ⌊(i : ℚ) + 3 / 2 * v⌋₊ = i + 3 * v / 2 :=
  floor_add i (by push_cast; ring)

/-- A column is in the left or in the right half. -/
theorem upperIndex_eq {c : Nat} (hc : c < v) : upperIndex v c = c / vNum v ∧ c / vNum v < 2 := by
  have hlt : c / vNum v < 2 := VerticalTiling.div_vNum_lt (Nat.le_succ 1) hc
  exact ⟨if_neg (Nat.ne_of_lt hlt), hlt⟩

/-- A column of the left half of the lower rows is in its first or in its second part; the
test `index == 2` is for the last column of a half that is not divisible. -/
theorem lowerIndex_eq {c : Nat} (hv : 3 ≤ v) (hc : c < v / 2) :
    lowerIndex v c = if c < vNum v / 2 then 0 else 1 := by
  have hpos : 0 < vNum v / 2 := by
    rw [vNum_eq]
    omega
  have hbound : c ≤ 2 * (vNum v / 2) := by
    rw [vNum_eq]
    omega
  rw [lowerIndex, Nat.floor_div_eq_div]
  by_cases hlt : c < vNum v / 2
  · rw [if_pos hlt, Nat.div_eq_of_lt hlt]
    rfl
  · rw [if_neg hlt]
    obtain hsecond | hlast := Nat.lt_or_eq_of_le hbound
    · rw [Nat.div_eq_of_lt_le (k := 1) (by omega) (by omega)]
      rfl
    · rw [hlast, Nat.mul_div_cancel _ hpos]
      rfl

/-- The start of the output rows of a tile, for the upper and for the lower source rows. -/
def tileStart (v i t : Nat) : Nat :=
  if i ≤ v / 2 then if t = 0 then 0 else 3 * v / 2
  else if t = 0 then 0 else if t = 1 then v / 2 else 3 * v / 2

theorem tile_le {i c : Nat} (hc : c < v) : tile v i c ≤ if i ≤ v / 2 then 1 else 2 := by
  have hupper := (upperIndex_eq hc).2
  rw [tile]
  split
  · omega
  · split
    · omega
    · split <;> omega

/-- An output row is the source row, moved to the rows of the tile. -/
theorem slot_eq {i c : Nat} (hi : i < v) (hc : c < v) :
    slot v (i, c) = i + tileStart v i (tile v i c) := by
  rw [slot, tileStart, tile]
  change (if i ≤ v / 2 then ⌊(i : ℚ) + 3 / 2 * v * upperIndex v c⌋₊
    else if v / 2 ≤ c then ⌊(i : ℚ) + 3 / 2 * v⌋₊ else i + v / 2 * lowerIndex v c) = _
  by_cases hupper : i ≤ v / 2
  · obtain ⟨hindex, hlt⟩ := upperIndex_eq hc
    simp only [if_pos hupper, hindex]
    obtain hzero | hone : c / vNum v = 0 ∨ c / vNum v = 1 := by omega
    · rw [hzero, if_pos rfl, Nat.cast_zero, mul_zero, add_zero, Nat.floor_natCast, Nat.add_zero]
    · rw [hone, if_neg (by decide), Nat.cast_one, mul_one, floor_offset]
  · have hhalf : vNum v / 2 ≤ v / 2 := by
      rw [vNum_eq]
      omega
    simp only [if_neg hupper]
    by_cases hright : v / 2 ≤ c
    · rw [if_pos hright, if_neg (by omega : ¬ c < vNum v / 2), if_neg (by omega : ¬ c < v / 2),
        floor_offset]
      rfl
    · rw [if_neg hright, lowerIndex_eq (by omega) (Nat.lt_of_not_le hright),
        if_pos (Nat.lt_of_not_le hright)]
      split <;> simp

/-- No output row is used for two source rows or for two tiles. -/
theorem slot_inj {i j c d : Nat} (hi : i < v) (hj : j < v) (hc : c < v) (hd : d < v) :
    slot v (i, c) = slot v (j, d) ↔ i = j ∧ tile v i c = tile v j d := by
  rw [slot_eq hi hc, slot_eq hj hd]
  have hs := tile_le (i := i) hc
  have ht := tile_le (i := j) hd
  generalize tile v i c = s at hs ⊢
  generalize tile v j d = t at ht ⊢
  constructor
  · intro h
    simp only [tileStart] at h
    split at hs <;> split at ht <;> split_ifs at h <;> omega
  · rintro ⟨rfl, rfl⟩
    rfl

/-- Every output row that is used exists. -/
theorem slot_lt {i c : Nat} (hi : i < v) (hc : c < v) : slot v (i, c) < rowNum v := by
  rw [slot_eq hi hc, lt_rowNum_iff, tileStart]
  split_ifs <;> omega

/-- What it means that `out` is the dynamic tiling of `m`. -/
structure Tiles (m out : CsrMatrix) : Prop where
  /-- Every write is to one of the output rows. -/
  inRange : ∀ e ∈ m.edges, slot m.xH e < ⌈(m.xH : ℚ) * (5 / 2)⌉₊
  xH_eq : out.xH = ⌈(m.xH : ℚ) * (5 / 2)⌉₊
  /-- An output row is used for one source row and one tile. -/
  slot_inj : ∀ i < m.xH, ∀ j < m.xH, ∀ c < m.xH, ∀ d < m.xH,
    slot m.xH (i, c) = slot m.xH (j, d) ↔ i = j ∧ tile m.xH i c = tile m.xH j d
  /-- It has the edges of its source row in its tile, in their order. -/
  rowCols_eq : ∀ e ∈ m.edges, out.rowCols (slot m.xH e) =
    (m.rowCols e.1).filter fun c => tile m.xH e.1 c = tile m.xH e.1 e.2
  /-- With the output rows named by their source rows, the edges are those of the source. -/
  edges_perm : ∃ source : Nat → Nat, (out.edges.map fun e => (source e.1, e.2)).Perm m.edges

/-- Dynamic tiling stays in bounds, keeps source rows and tiles apart and preserves the
edges. -/
theorem vtmakeDynamicVt2_tiles (m : CsrMatrix) (hcol : ∀ c ∈ m.col, c < m.xH) :
    ∃ out, vtmakeDynamicVt2 m.xH m.row m.col = some out ∧ Tiles m out := by
  have hrows : rowNum m.xH = ⌈(m.xH : ℚ) * (5 / 2)⌉₊ := by
    rw [rowNum]
    norm_num
  have hedge : ∀ e ∈ m.edges, e.1 < m.xH ∧ e.2 < m.xH := fun e he =>
    VerticalTiling.lt_of_mem_edges hcol he
  have hslot : ∀ e ∈ m.edges, ∀ e' ∈ m.edges, slot m.xH e = slot m.xH e' ↔
      e.1 = e'.1 ∧ tile m.xH e.1 e.2 = tile m.xH e'.1 e'.2 := fun e he e' he' =>
    slot_inj (hedge e he).1 (hedge e' he').1 (hedge e he).2 (hedge e' he').2
  have hlt : ∀ e ∈ m.edges, slot m.xH e < rowNum m.xH := fun e he =>
    slot_lt (hedge e he).1 (hedge e he).2
  obtain ⟨out, heq, hscatters⟩ := Converter.scatter_scatters hlt
  refine ⟨out, heq, ?_⟩
  constructor
  case inRange => exact hrows ▸ hlt
  case xH_eq => exact hrows ▸ hscatters.xH_eq
  case slot_inj => exact fun i hi j hj c hc d hd => DynamicTiling.slot_inj hi hj hc hd
  case rowCols_eq => exact fun e he => hscatters.rowCols_slot hslot he
  case edges_perm =>
    exact hscatters.edges_perm fun e he e' he' h => ((hslot e he e' he').mp h).1

/-- Six vertices: rows 4 and 5 have three tiles of columns. -/
def sixVertices : CsrMatrix where
  row := [0, 2, 2, 3, 4, 7, 8]
  col := [0, 5, 3, 1, 0, 2, 4, 1]
  row_zero := rfl
  row_mono := by decide
  col_length := rfl

theorem vtmakeDynamicVt2_sixVertices :
    ∃ out, vtmakeDynamicVt2 6 [0, 2, 2, 3, 4, 7, 8] [0, 5, 3, 1, 0, 2, 4, 1] = some out ∧
      Tiles sixVertices out :=
  vtmakeDynamicVt2_tiles sixVertices (by decide)

end DynamicTiling

end GcnSim
