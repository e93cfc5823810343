import GcnSim.Converter.DynamicTiling

/-!
# The other dynamic tilings

`vtmake_dynamic_vt_0` and `vtmake_dynamic_vt_1` cut another quarter of the matrix in two than
`vtmake_dynamic_vt_2`, and `vtmake_dynamic_vt_0_3` cuts the upper left and the lower right
quarter. Their parts do not lie one behind the other as they should: row `v / 2` counts as a
row of the upper half, so that a part of it has a row too many, and two offsets of the last
variant are too large. For each of them it is said which edges are sent to a row that does
not exist and which pairs of edges to the same row.
-/

namespace GcnSim

namespace DynamicTiling

variable {v : Nat}

/-- `index` of a half of the columns; `vtmake_dynamic_vt_2` finds it in the same way. -/
def halfIndex (v edge : Nat) : Nat := upperIndex v edge

/-- `index` of a quarter of the columns; `vtmake_dynamic_vt_2` finds it in the same way. -/
def quarterIndex (v edge : Nat) : Nat := lowerIndex v edge

theorem halfIndex_eq {c : Nat} (hc : c < v) :
    halfIndex v c = if c < (v + 1) / 2 then 0 else 1 := by
  obtain ⟨hindex, hlt⟩ := upperIndex_eq hc
  rw [vNum_eq] at hindex hlt
  rw [halfIndex, hindex]
  split
  · rename_i hleft
    exact Nat.div_eq_of_lt hleft
  · rename_i hright
    have hpos : 0 < c / ((v + 1) / 2) := Nat.div_pos (Nat.not_lt.mp hright) (by omega)
    omega

namespace Vt0

/-- The output row of an edge. The test for the right half compares `edge` with `2`. -/
def slot (v : Nat) (e : Nat × Nat) : Nat :=
  if e.1 ≤ v / 2 then
    if 2 ≤ e.2 then ⌊(e.1 : ℚ) + 3 / 2 * v⌋₊
    else ⌊(e.1 : ℚ) + 1 / 2 * v * quarterIndex v e.2⌋₊
  else ⌊(1 / 2 * v : ℚ) + e.1 + (v * halfIndex v e.2 : Nat)⌋₊

/-- The two edges that share a row, where a quarter of the columns is one column only. -/
def Clash (v : Nat) (e e' : Nat × Nat) : Prop := v ≤ 6 ∧ e = (0, 1) ∧ e' = (v / 2, 0)

instance (v : Nat) (e e' : Nat × Nat) : Decidable (Clash v e e') :=
  inferInstanceAs (Decidable (_ ∧ _))

/-- Of the first two columns only column `1` can be in another quarter than the first. -/
theorem quarterIndex_eq {c : Nat} (hv : 4 ≤ v) (hc : c < 2) :
    quarterIndex v c = if c = 1 ∧ v ≤ 6 then 1 else 0 := by
  rw [quarterIndex, lowerIndex, Nat.floor_div_eq_div, vNum_eq]
  by_cases hfirst : c = 1 ∧ v ≤ 6
  · have hone : (v + 1) / 2 / 2 = 1 := by omega
    rw [if_pos hfirst, hone, hfirst.1]
    rfl
  · have hlt : c < (v + 1) / 2 / 2 := by omega
    rw [if_neg hfirst, Nat.div_eq_of_lt hlt]
    rfl

theorem slot_eq {i c : Nat} (hv : 4 ≤ v) (hc : c < v) : slot v (i, c) =
    if i ≤ v / 2 then if 2 ≤ c then i + 3 * v / 2 else if c = 1 ∧ v ≤ 6 then i + v / 2 else i
    else if c < (v + 1) / 2 then i + v / 2 else i + 3 * v / 2 := by
  change (if i ≤ v / 2 then if 2 ≤ c then ⌊(i : ℚ) + 3 / 2 * v⌋₊
      else ⌊(i : ℚ) + 1 / 2 * v * quarterIndex v c⌋₊
    else ⌊(1 / 2 * v : ℚ) + i + (v * halfIndex v c : Nat)⌋₊) = _
  split
  · split
    · exact floor_offset i
    · rename_i hsmall
      rw [quarterIndex_eq hv (Nat.not_le.mp hsmall)]
      split
      · rw [Nat.cast_one, mul_one]
        exact floor_add i (by push_cast; ring)
      · rw [Nat.cast_zero, mul_zero, add_zero, Nat.floor_natCast]
  · rw [halfIndex_eq hc, add_comm (1 / 2 * v : ℚ), add_assoc]
    split
    · exact floor_add i (by push_cast; ring)
    · exact floor_add i (by push_cast; ring)

/-- Every output row that is used exists. -/
theorem slot_lt {i c : Nat} (hv : 4 ≤ v) (hi : i < v) (hc : c < v) :
    slot v (i, c) < rowNum v := by
  rw [slot_eq hv hc, lt_rowNum_iff]
  split_ifs <;> omega

/-- The pairs of edges of two source rows that share an output row. -/
theorem slot_eq_slot_iff {i c j d : Nat} (hv : 4 ≤ v) (hi : i < v) (hc : c < v) (hj : j < v)
    (hd : d < v) : slot v (i, c) = slot v (j, d) ∧ i ≠ j ↔
      Clash v (i, c) (j, d) ∨ Clash v (j, d) (i, c) := by
  rw [slot_eq hv hc, slot_eq hv hd]
  simp only [Clash, Prod.mk.injEq]
  split_ifs <;> omega

end Vt0

/-- The rows of `new_csr` in `vtmake_dynamic_vt_0`, as a CSR; the file has the last two row
pointers glued for odd `v`. -/
def vtmakeDynamicVt0 (v : Nat) (row col : List Nat) : Option CsrMatrix :=
  Converter.scatter (Vt0.slot v) (rowNum v) v row col

namespace Vt1

/-- `index` of the upper half, from the right half of the columns on. The difference is one of
`double`s, so it may be negative before it is truncated; the index of a column of the left
half is not used. -/
def upperIndex (v edge : Nat) : Nat :=
  let index := ⌊(edge : ℚ) / (vNum v / 2 : Nat) - 2⌋₊
  if index = 2 then index - 1 else index

/-- The output row of an edge. -/
def slot (v : Nat) (e : Nat × Nat) : Nat :=
  if e.1 ≤ v / 2 then
    if v / 2 ≤ e.2 then ⌊((e.1 + v : Nat) : ℚ) + 1 / 2 * v * upperIndex v e.2⌋₊
    else e.1
  else ⌊(e.1 : ℚ) + v * (3 / 2) * halfIndex v e.2⌋₊

/-- The edges that are sent to a row that does not exist: with six vertices, the last column
is in a part of its own. -/
def Outside (v : Nat) (e : Nat × Nat) : Prop := v = 6 ∧ e.1 ≤ 3 ∧ e.2 = 5

/-- The pairs of edges that share a row: the last row of the third quarter of the columns is
the first one of the fourth quarter. -/
def Clash (v : Nat) (e e' : Nat × Nat) : Prop :=
  (e.1 = v / 2 ∧ v / 2 ≤ e.2 ∧ e.2 < 3 * ((v + 1) / 4)) ∧ e'.1 = 0 ∧ 3 * ((v + 1) / 4) ≤ e'.2

instance (v : Nat) (e : Nat × Nat) : Decidable (Outside v e) := inferInstanceAs (Decidable (_ ∧ _))

instance (v : Nat) (e e' : Nat × Nat) : Decidable (Clash v e e') :=
  inferInstanceAs (Decidable (_ ∧ _))

theorem upperIndex_eq {c : Nat} (hv : 4 ≤ v) (hc : c < v) : upperIndex v c =
    if c < 3 * ((v + 1) / 4) then 0 else if v = 6 ∧ c = 5 then 3 else 1 := by
  have hquarter : vNum v / 2 = (v + 1) / 4 := by
    rw [vNum_eq]
    omega
  have hpos : 0 < (v + 1) / 4 := by omega
  rw [upperIndex, hquarter, Nat.floor_sub_ofNat, Nat.floor_div_eq_div]
  by_cases hthird : c < 3 * ((v + 1) / 4)
  · have hquot : c / ((v + 1) / 4) < 3 := Nat.div_lt_of_lt_mul (by omega)
    rw [if_pos hthird, Nat.sub_eq_zero_of_le (Nat.le_of_lt_succ hquot)]
    rfl
  · rw [if_neg hthird]
    by_cases hlast : v = 6 ∧ c = 5
    · obtain ⟨rfl, rfl⟩ := hlast
      rfl
    · -- The columns behind the last quarter, at most two, have index 2.
      have hbound : c < 5 * ((v + 1) / 4) := by omega
      have hlow : 3 ≤ c / ((v + 1) / 4) := (Nat.le_div_iff_mul_le hpos).mpr (by omega)
      have hhigh : c / ((v + 1) / 4) < 5 := Nat.div_lt_of_lt_mul (by omega)
      obtain hquot | hquot : c / ((v + 1) / 4) = 3 ∨ c / ((v + 1) / 4) = 4 := by omega
      · rw [if_neg hlast, hquot]
        rfl
      · rw [if_neg hlast, hquot]
        rfl

theorem slot_eq {i c : Nat} (hv : 4 ≤ v) (hc : c < v) : slot v (i, c) =
    if i ≤ v / 2 then
      if c < v / 2 then i
      else if c < 3 * ((v + 1) / 4) then i + v
      else if v = 6 ∧ c = 5 then i + 15 else i + v + v / 2
    else if c < (v + 1) / 2 then i else i + 3 * v / 2 := by
  change (if i ≤ v / 2 then
      if v / 2 ≤ c then ⌊((i + v : Nat) : ℚ) + 1 / 2 * v * upperIndex v c⌋₊ else i
    else ⌊(i : ℚ) + v * (3 / 2) * halfIndex v c⌋₊) = _
  split
  · by_cases hleft : c < v / 2
    · rw [if_neg (Nat.not_le.mpr hleft), if_pos hleft]
    · rw [if_pos (Nat.not_lt.mp hleft), if_neg hleft, upperIndex_eq hv hc]
      split
      · rw [Nat.cast_zero, mul_zero, add_zero, Nat.floor_natCast]
      · split
        · rename_i hlast
          rw [hlast.1]
          exact floor_add (n := 9) (d := 1) (i + 6) (by push_cast; ring)
        · exact floor_add (i + v) (by push_cast; ring)
  · rw [halfIndex_eq hc]
    split
    · rw [Nat.cast_zero, mul_zero, add_zero, Nat.floor_natCast]
    · exact floor_add i (by push_cast; ring)

/-- The edges that are sent to a row that does not exist. -/
theorem rowNum_le_slot_iff {i c : Nat} (hv : 4 ≤ v) (hi : i < v) (hc : c < v) :
    rowNum v ≤ slot v (i, c) ↔ Outside v (i, c) := by
  rw [← Nat.not_lt, lt_rowNum_iff, slot_eq hv hc]
  simp only [Outside]
  split_ifs <;> omega

/-- The pairs of edges of two source rows that share an output row. -/
theorem slot_eq_slot_iff {i c j d : Nat} (hv : 4 ≤ v) (hi : i < v) (hc : c < v) (hj : j < v)
    (hd : d < v) : slot v (i, c) = slot v (j, d) ∧ i ≠ j ↔
      Clash v (i, c) (j, d) ∨ Clash v (j, d) (i, c) := by
  rw [slot_eq hv hc, slot_eq hv hd]
  simp only [Clash]
  split_ifs <;> omega

end Vt1

/-- The rows of `new_csr` in `vtmake_dynamic_vt_1`, as a CSR; the file has the last two row
pointers glued for odd `v`. -/
def vtmakeDynamicVt1 (v : Nat) (row col : List Nat) : Option CsrMatrix :=
  Converter.scatter (Vt1.slot v) (rowNum v) v row col

theorem vtmakeDynamicVt0_iff_clash (m : CsrMatrix) (hv : 4 ≤ m.xH) (hcol : ∀ c ∈ m.col, c < m.xH) :
    (∃ out, vtmakeDynamicVt0 m.xH m.row m.col = some out ∧
      Converter.KeepsApart m (Vt0.slot m.xH) (rowNum m.xH) Prod.fst out) ↔
    ∀ e ∈ m.edges, ∀ e' ∈ m.edges, ¬ Vt0.Clash m.xH e e' := by
  have hedge : ∀ e ∈ m.edges, e.1 < m.xH ∧ e.2 < m.xH := fun e he =>
    VerticalTiling.lt_of_mem_edges hcol he
  have hiff : (∃ out, vtmakeDynamicVt0 m.xH m.row m.col = some out ∧
      Converter.KeepsApart m (Vt0.slot m.xH) (rowNum m.xH) Prod.fst out) ↔
      (∀ e ∈ m.edges, ¬ False) ∧ ∀ e ∈ m.edges, ∀ e' ∈ m.edges, ¬ Vt0.Clash m.xH e e' :=
    Converter.scatter_keepsApart_iff (fun _ _ h => h)
      (fun e he => iff_of_false (Nat.not_le.mpr (Vt0.slot_lt hv (hedge e he).1 (hedge e he).2)) id)
      (fun e he e' he' => Vt0.slot_eq_slot_iff hv (hedge e he).1 (hedge e he).2 (hedge e' he').1
        (hedge e' he').2)
  exact hiff.trans (and_iff_right fun _ _ => id)

theorem vtmakeDynamicVt1_iff_clash (m : CsrMatrix) (hv : 4 ≤ m.xH) (hcol : ∀ c ∈ m.col, c < m.xH) :
    (∃ out, vtmakeDynamicVt1 m.xH m.row m.col = some out ∧
      Converter.KeepsApart m (Vt1.slot m.xH) (rowNum m.xH) Prod.fst out) ↔
    (∀ e ∈ m.edges, ¬ Vt1.Outside m.xH e) ∧
      ∀ e ∈ m.edges, ∀ e' ∈ m.edges, ¬ Vt1.Clash m.xH e e' := by
  have hedge : ∀ e ∈ m.edges, e.1 < m.xH ∧ e.2 < m.xH := fun e he =>
    VerticalTiling.lt_of_mem_edges hcol he
  exact Converter.scatter_keepsApart_iff (fun _ _ h => h)
    (fun e he => Vt1.rowNum_le_slot_iff hv (hedge e he).1 (hedge e he).2)
    (fun e he e' he' => Vt1.slot_eq_slot_iff hv (hedge e he).1 (hedge e he).2 (hedge e' he').1
      (hedge e' he').2)

/-- The first two variants stay in bounds, keep source rows apart and preserve the edges exactly
if no edges clash and, for the second one, no edge is sent to a row that does not exist. -/
theorem vtmakeDynamicVt01_keepsApart_iff (m : CsrMatrix) (hv : 4 ≤ m.xH)
    (hcol : ∀ c ∈ m.col, c < m.xH) :
    ((∃ out, vtmakeDynamicVt0 m.xH m.row m.col = some out ∧
        Converter.KeepsApart m (Vt0.slot m.xH) (rowNum m.xH) Prod.fst out) ↔
      ∀ e ∈ m.edges, ∀ e' ∈ m.edges, ¬ Vt0.Clash m.xH e e') ∧
    ((∃ out, vtmakeDynamicVt1 m.xH m.row m.col = some out ∧
        Converter.KeepsApart m (Vt1.slot m.xH) (rowNum m.xH) Prod.fst out) ↔
      (∀ e ∈ m.edges, ¬ Vt1.Outside m.xH e) ∧
        ∀ e ∈ m.edges, ∀ e' ∈ m.edges, ¬ Vt1.Clash m.xH e e') :=
  ⟨vtmakeDynamicVt0_iff_clash m hv hcol, vtmakeDynamicVt1_iff_clash m hv hcol⟩

/-- Five vertices; row 2 has no edge in the third quarter of the columns, and of the last two
rows only row 3 has an edge in the last quarter. -/
def fiveVertices : CsrMatrix where
  row := [0, 2, 4, 5, 6, 7]
  col := [0, 1, 2, 4, 3, 4, 1]
  row_zero := rfl
  row_mono := by decide
  col_length := rfl

theorem vtmakeDynamicVt01_fiveVertices :
    (∃ out, vtmakeDynamicVt0 5 [0, 2, 4, 5, 6, 7] [0, 1, 2, 4, 3, 4, 1] = some out ∧
      Converter.KeepsApart fiveVertices (Vt0.slot 5) (rowNum 5) Prod.fst out) ∧
    ∃ out, vtmakeDynamicVt1 5 [0, 2, 4, 5, 6, 7] [0, 1, 2, 4, 3, 4, 1] = some out ∧
      Converter.KeepsApart fiveVertices (Vt1.slot 5) (rowNum 5) Prod.fst out := by
  have h := vtmakeDynamicVt01_keepsApart_iff fiveVertices (by decide) (by decide)
  exact ⟨h.1.mpr (by decide), h.2.mpr (by decide)⟩

/-- Four vertices, with two edges in row 0 and two in row 2. -/
def fourVertices : CsrMatrix where
  row := [0, 2, 2, 4, 4]
  col := [1, 3, 0, 2]
  row_zero := rfl
  row_mono := by decide
  col_length := rfl

/-- Rows 0 and 2 share an output row in both variants: row 2 is the first one of the second
range and the last one of the first range. -/
theorem vtmakeDynamicVt01_fourVertices_shared :
    (¬ ∃ out, vtmakeDynamicVt0 4 [0, 2, 2, 4, 4] [1, 3, 0, 2] = some out ∧
      Converter.KeepsApart fourVertices (Vt0.slot 4) (rowNum 4) Prod.fst out) ∧
    ¬ ∃ out, vtmakeDynamicVt1 4 [0, 2, 2, 4, 4] [1, 3, 0, 2] = some out ∧
      Converter.KeepsApart fourVertices (Vt1.slot 4) (rowNum 4) Prod.fst out := by
  have h0 := vtmakeDynamicVt0_iff_clash fourVertices (by decide) (by decide)
  have h1 := vtmakeDynamicVt1_iff_clash fourVertices (by decide) (by decide)
  exact ⟨h0.not.mpr (by decide), h1.not.mpr (by decide)⟩

namespace Vt03

/-- The number of output rows. -/
def rowNum (v : Nat) : Nat := v * 3

/-- The output row of an edge. -/
def slot (v : Nat) (e : Nat × Nat) : Nat :=
  if e.1 < v / 2 then
    if e.2 < v / 4 then e.1
    else if e.2 < v / 2 then e.1 + v / 2
    else ⌊(e.1 : ℚ) + v * (3 / 2)⌋₊
  else if v / 2 ≤ e.1 ∧ e.1 < v * 3 / 4 then
    if e.2 < v / 2 then e.1 + v / 2
    else if e.2 < v * 3 / 4 then ⌊(e.1 : ℚ) + v * (3 / 2)⌋₊
    else e.1 + v * 2
  else if e.2 < v / 2 then e.1 + v / 2
  else if e.2 < v * 3 / 4 then ⌊(e.1 : ℚ) + v * (7 / 4)⌋₊
  else ⌊(e.1 : ℚ) + v * (9 / 4)⌋₊

/-- The tile of a column: the upper half of the rows cuts the left half of the columns in two,
the lower half of the rows the right half. -/
def tile (v i c : Nat) : Nat :=
  if i < v / 2 then if c < v / 4 then 0 else if c < v / 2 then 1 else 2
  else if c < v / 2 then 0 else if c < v * 3 / 4 then 1 else 2

/-- The edges that are sent to a row that does not exist: those of the last quarter of the rows
and of the columns, apart from a first row that the division leaves room for. -/
def Outside (v : Nat) (e : Nat × Nat) : Prop :=
  v * 3 / 4 ≤ e.1 ∧ v * 3 / 4 ≤ e.2 ∧ (e.1 = v * 3 / 4 → v % 4 = 0)

/-- The pairs of edges that share a row: one in the last columns of the third quarter of the
rows, the other one in the third quarter of the columns, a quarter of the rows below. -/
def Clash (v : Nat) (e e' : Nat × Nat) : Prop :=
  (v / 2 ≤ e.1 ∧ e.1 < v * 3 / 4 ∧ v * 3 / 4 ≤ e.2) ∧
    e'.1 = e.1 + (v + 3) / 4 ∧ v / 2 ≤ e'.2 ∧ e'.2 < v * 3 / 4

instance (v : Nat) (e : Nat × Nat) : Decidable (Outside v e) := inferInstanceAs (Decidable (_ ∧ _))

instance (v : Nat) (e e' : Nat × Nat) : Decidable (Clash v e e') :=
  inferInstanceAs (Decidable (_ ∧ _))

/-- The nine parts of the matrix, by bands of rows from above and tiles of columns from the
left, with the place of a part in the output, its tile and the offset of its rows. Two parts
are at the same place. -/
inductive Part (v i c : Nat) : Nat → Nat → Nat → Prop
  | upper0 : i < v / 2 → c < v / 4 → Part v i c 0 0 0
  | upper1 : i < v / 2 → v / 4 ≤ c → c < v / 2 → Part v i c 1 1 (v / 2)
  | upper2 : i < v / 2 → v / 2 ≤ c → Part v i c 4 2 (v * 3 / 2)
  | middle0 : v / 2 ≤ i → i < v * 3 / 4 → c < v / 2 → Part v i c 2 0 (v / 2)
  | middle1 : v / 2 ≤ i → i < v * 3 / 4 → v / 2 ≤ c → c < v * 3 / 4 →
      Part v i c 5 1 (v * 3 / 2)
  | middle2 : v / 2 ≤ i → i < v * 3 / 4 → v * 3 / 4 ≤ c → Part v i c 6 2 (v * 2)
  | lower0 : v * 3 / 4 ≤ i → c < v / 2 → Part v i c 3 0 (v / 2)
  | lower1 : v * 3 / 4 ≤ i → v / 2 ≤ c → c < v * 3 / 4 → Part v i c 6 1 (v * 7 / 4)
  | lower2 : v * 3 / 4 ≤ i → v * 3 / 4 ≤ c → Part v i c 7 2 (v * 9 / 4)

/-- The first row of a place. -/
def placeStart (v : Nat) : Nat → Nat
  | 0 => 0
  | 1 => v / 2
  | 2 => v / 2 + v / 2
  | 3 => v * 3 / 4 + v / 2
  | 4 => v * 3 / 2
  | 5 => v / 2 + v * 3 / 2
  | 6 => v * 3 / 4 + v * 7 / 4
  | 7 => v * 3 / 4 + v * 9 / 4
  | _ => v + v * 9 / 4

/-- An edge is sent to the row of its part. -/
theorem exists_part (v i c : Nat) :
    ∃ p offset, Part v i c p (tile v i c) offset ∧ slot v (i, c) = i + offset := by
  have hhalf : ⌊(i : ℚ) + v * (3 / 2)⌋₊ = i + v * 3 / 2 := floor_add i (by push_cast; ring)
  have hthird : ⌊(i : ℚ) + v * (7 / 4)⌋₊ = i + v * 7 / 4 := floor_add i (by push_cast; ring)
  have hfourth : ⌊(i : ℚ) + v * (9 / 4)⌋₊ = i + v * 9 / 4 := floor_add i (by push_cast; ring)
  simp only [slot, tile, hhalf, hthird, hfourth]
  by_cases hupper : i < v / 2
  · simp only [if_pos hupper]
    by_cases hfirst : c < v / 4
    · rw [if_pos hfirst, if_pos hfirst]
      exact ⟨0, 0, .upper0 hupper hfirst, rfl⟩
    · rw [if_neg hfirst, if_neg hfirst]
      by_cases hleft : c < v / 2
      · rw [if_pos hleft, if_pos hleft]
        exact ⟨1, _, .upper1 hupper (Nat.not_lt.mp hfirst) hleft, rfl⟩
      · rw [if_neg hleft, if_neg hleft]
        exact ⟨4, _, .upper2 hupper (Nat.not_lt.mp hleft), rfl⟩
  · have hlow := Nat.not_lt.mp hupper
    simp only [if_neg hupper]
    by_cases hleft : c < v / 2
    · simp only [if_pos hleft, ite_self]
      by_cases hmiddle : i < v * 3 / 4
      · exact ⟨2, _, .middle0 hlow hmiddle hleft, rfl⟩
      · exact ⟨3, _, .lower0 (Nat.not_lt.mp hmiddle) hleft, rfl⟩
    · have hright := Nat.not_lt.mp hleft
      simp only [if_neg hleft, hlow, true_and]
      by_cases hmiddle : i < v * 3 / 4
      · simp only [if_pos hmiddle]
        by_cases hthree : c < v * 3 / 4
        · rw [if_pos hthree, if_pos hthree]
          exact ⟨5, _, .middle1 hlow hmiddle hright hthree, rfl⟩
        · rw [if_neg hthree, if_neg hthree]
          exact ⟨6, _, .middle2 hlow hmiddle (Nat.not_lt.mp hthree), rfl⟩
      · simp only [if_neg hmiddle]
        by_cases hthree : c < v * 3 / 4
        · rw [if_pos hthree, if_pos hthree]
          exact ⟨6, _, .lower1 (Nat.not_lt.mp hmiddle) hright hthree, rfl⟩
        · rw [if_neg hthree, if_neg hthree]
          exact ⟨7, _, .lower2 (Nat.not_lt.mp hmiddle) (Nat.not_lt.mp hthree), rfl⟩

/-- The places lie one behind the other. -/
theorem placeStart_mono (hv : 4 ≤ v) : Monotone (placeStart v) := by
  apply monotone_nat_of_le_succ
  intro p
  match p with
  | 0 | 1 | 2 | 3 | 4 | 5 | 6 | 7 =>
    simp only [placeStart]
    omega
  | p + 8 => exact Nat.le_refl _

/-- The rows of a part are at its place. -/
theorem Part.bounds {i c p t offset : Nat} (hi : i < v) (h : Part v i c p t offset) :
    placeStart v p ≤ i + offset ∧ i + offset < placeStart v (p + 1) := by
  cases h <;> simp only [placeStart] <;> omega

/-- Parts that share an output row are at the same place. -/
theorem Part.place_eq {i c p t s j d q t' s' : Nat} (hv : 4 ≤ v) (hi : i < v) (hj : j < v)
    (h : Part v i c p t s) (h' : Part v j d q t' s') (heq : i + s = j + s') : p = q := by
  obtain ⟨hlow, hhigh⟩ := h.bounds hi
  obtain ⟨hlow', hhigh'⟩ := h'.bounds hj
  obtain hlt | hpq | hlt := Nat.lt_trichotomy p q
  · have hle : placeStart v (p + 1) ≤ placeStart v q := placeStart_mono hv hlt
    omega
  · exact hpq
  · have hle : placeStart v (q + 1) ≤ placeStart v p := placeStart_mono hv hlt
    omega

/-- Without rounding, the last part would start with row `3 * v`. -/
theorem last_start (v : Nat) :
    v * 3 / 4 + v * 9 / 4 + (if v % 4 = 0 then 0 else 1) = v * 3 := by
  obtain hr | hr | hr | hr : v % 4 = 0 ∨ v % 4 = 1 ∨ v % 4 = 2 ∨ v % 4 = 3 := by omega
  all_goals
    rw [hr]
    simp only [ite_true, reduceCtorEq, ite_false]
    omega

/-- The edges that are sent to a row that does not exist. -/
theorem rowNum_le_slot_iff {i c : Nat} (hv : 4 ≤ v) (hi : i < v) :
    rowNum v ≤ slot v (i, c) ↔ Outside v (i, c) := by
  obtain ⟨p, s, hpart, hslot⟩ := exists_part v i c
  have hlast := last_start v
  rw [hslot, rowNum]
  simp only [Outside]
  generalize tile v i c = t at hpart
  cases hpart with
  | lower2 hrow hcol => split at hlast <;> omega
  | upper0 | upper1 | upper2 | middle0 | middle1 | middle2 | lower0 | lower1 => omega

/-- The two parts at the same place are a quarter of the rows apart. -/
theorem quarter_apart (v : Nat) : v * 2 = v * 7 / 4 + (v + 3) / 4 := by
  obtain hr | hr | hr | hr : v % 4 = 0 ∨ v % 4 = 1 ∨ v % 4 = 2 ∨ v % 4 = 3 := by omega
  all_goals omega

/-- A clash is between edges of two tiles that share an output row. -/
theorem Clash.slot_eq_slot {i c j d : Nat} (h : Clash v (i, c) (j, d)) :
    slot v (i, c) = slot v (j, d) ∧ tile v i c ≠ tile v j d := by
  simp only [Clash] at h
  obtain ⟨⟨hrow, hlt, hcol⟩, hrow', hcol', hlt'⟩ := h
  obtain ⟨p, s, hpart, hslot⟩ := exists_part v i c
  obtain ⟨q, s', hpart', hslot'⟩ := exists_part v j d
  have hmiddle : s = v * 2 ∧ tile v i c = 2 := by
    generalize tile v i c = t at hpart
    cases hpart <;> omega
  have hlower : s' = v * 7 / 4 ∧ tile v j d = 1 := by
    generalize tile v j d = t at hpart'
    cases hpart' <;> omega
  have hapart := quarter_apart v
  rw [hslot, hslot', hmiddle.1, hmiddle.2, hlower.1, hlower.2]
  exact ⟨by omega, by decide⟩

/-- The pairs of edges of two source rows or two tiles that share an output row. -/
theorem slot_eq_slot_iff {i c j d : Nat} (hv : 4 ≤ v) (hi : i < v) (hj : j < v) :
    slot v (i, c) = slot v (j, d) ∧ (i, tile v i c) ≠ (j, tile v j d) ↔
      Clash v (i, c) (j, d) ∨ Clash v (j, d) (i, c) := by
  constructor
  · rintro ⟨heq, hne⟩
    obtain ⟨p, s, hpart, hslot⟩ := exists_part v i c
    obtain ⟨q, s', hpart', hslot'⟩ := exists_part v j d
    have hapart := quarter_apart v
    rw [hslot, hslot'] at heq
    rw [ne_eq, Prod.mk.injEq] at hne
    obtain rfl := hpart.place_eq hv hi hj hpart' heq
    simp only [Clash]
    generalize tile v i c = t at hpart hne
    generalize tile v j d = t' at hpart' hne
    -- The place leaves one part for the second edge, or two.
    cases hpart <;> cases hpart' <;> omega
  · rintro (h | h)
    · obtain ⟨heq, htile⟩ := h.slot_eq_slot
      exact ⟨heq, fun hkey => htile (Prod.mk.inj hkey).2⟩
    · obtain ⟨heq, htile⟩ := h.slot_eq_slot
      exact ⟨heq.symm, fun hkey => htile (Prod.mk.inj hkey).2.symm⟩

end Vt03

/-- The rows of `new_csr` in `vtmake_dynamic_vt_0_3`, as a CSR. -/
def vtmakeDynamicVt03 (v : Nat) (row col : List Nat) : Option CsrMatrix :=
  Converter.scatter (Vt03.slot v) (Vt03.rowNum v) v row col

/-- The last variant stays in bounds, keeps source rows and tiles apart and preserves the edges
exactly if no edge of the last quarter is sent past the end and no edges clash. -/
theorem vtmakeDynamicVt03_keepsApart_iff (m : CsrMatrix) (hv : 4 ≤ m.xH) :
    (∃ out, vtmakeDynamicVt03 m.xH m.row m.col = some out ∧
      Converter.KeepsApart m (Vt03.slot m.xH) (m.xH * 3)
        (fun e => (e.1, Vt03.tile m.xH e.1 e.2)) out) ↔
    (∀ e ∈ m.edges, ¬ Vt03.Outside m.xH e) ∧
      ∀ e ∈ m.edges, ∀ e' ∈ m.edges, ¬ Vt03.Clash m.xH e e' := by
  have hrow : ∀ e ∈ m.edges, e.1 < m.xH := fun e he => (CsrMatrix.mem_edges.mp he).1
  exact Converter.scatter_keepsApart_iff (fun _ _ h => (Prod.mk.inj h).1)
    (fun e he => Vt03.rowNum_le_slot_iff hv (hrow e he))
    (fun e he e' he' => Vt03.slot_eq_slot_iff hv (hrow e he) (hrow e' he'))

/-- With five vertices there is room for the last part of row 3. -/
theorem vtmakeDynamicVt03_fiveVertices :
    ∃ out, vtmakeDynamicVt03 5 [0, 2, 4, 5, 6, 7] [0, 1, 2, 4, 3, 4, 1] = some out ∧
      Converter.KeepsApart fiveVertices (Vt03.slot 5) 15
        (fun e => (e.1, Vt03.tile 5 e.1 e.2)) out :=
  (vtmakeDynamicVt03_keepsApart_iff fiveVertices (by decide)).mpr (by decide)

/-- Four vertices with one edge, in the last row and the last column. -/
def cornerEdge : CsrMatrix where
  row := [0, 0, 0, 0, 1]
  col := [3]
  row_zero := rfl
  row_mono := by decide
  col_length := rfl

/-- Four vertices with an edge from 2 to 3 and one from 3 to 2. -/
def backAndForth : CsrMatrix where
  row := [0, 0, 0, 1, 2]
  col := [3, 2]
  row_zero := rfl
  row_mono := by decide
  col_length := rfl

/-- The first one is sent to row 12 of 12 rows; the two others share row 10. -/
theorem vtmakeDynamicVt03_fourVertices_not :
    (¬ ∃ out, vtmakeDynamicVt03 4 [0, 0, 0, 0, 1] [3] = some out ∧
      Converter.KeepsApart cornerEdge (Vt03.slot 4) 12
        (fun e => (e.1, Vt03.tile 4 e.1 e.2)) out) ∧
    ¬ ∃ out, vtmakeDynamicVt03 4 [0, 0, 0, 1, 2] [3, 2] = some out ∧
      Converter.KeepsApart backAndForth (Vt03.slot 4) 12
        (fun e => (e.1, Vt03.tile 4 e.1 e.2)) out := by
  constructor
  · rintro ⟨out, -, h⟩
    have hlt := h.inRange (3, 3) (by decide)
    have hle : Vt03.rowNum 4 ≤ Vt03.slot 4 (3, 3) :=
      (Vt03.rowNum_le_slot_iff (by decide) (by decide)).mpr (by decide)
    exact Nat.not_lt.mpr hle hlt
  · rintro ⟨out, -, h⟩
    have hclash : Vt03.Clash 4 (2, 3) (3, 2) := by decide
    have hkey := h.apart (2, 3) (by decide) (3, 2) (by decide) hclash.slot_eq_slot.1
    exact absurd (Prod.mk.inj hkey).1 (by decide)

end DynamicTiling

end GcnSim
