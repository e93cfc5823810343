import GcnSim.Core.Distributer
import GcnSim.Lib.Buckets
import GcnSim.Lib.Blocks

/-!
# CSR files as the converters read and write them

Every converter reads the row line and then runs over the source rows: row `i` has
`row[i+1] - row[i]` edges, whose columns are the next ones of the column line. What
it writes is again a CSR file, from its rows `new_csr`.
-/

namespace GcnSim

namespace CsrMatrix

/-- The row pointer of row `i`. -/
def rowPtr (m : CsrMatrix) (i : Nat) : Nat := m.row.getD i 0

/-- The columns of row `i`. -/
def rowCols (m : CsrMatrix) (i : Nat) : List Nat :=
  (m.col.drop (m.rowPtr i)).take (m.rowPtr (i + 1) - m.rowPtr i)

/-- The edges in the order of the file, each with its source row. -/
def edges (m : CsrMatrix) : List (Nat × Nat) :=
  (List.range m.xH).flatMap fun i => (m.rowCols i).map (i, ·)

/-- The file written for the rows `new_csr`: a `0`, the running total `v_acm` after every
row, and the columns of the rows. -/
def ofRows (newCsr : List (List Nat)) : CsrMatrix where
  row := 0 :: Buckets.ends 0 newCsr
  col := newCsr.flatten
  row_zero := rfl
  row_mono := Buckets.pairwise_ends 0 newCsr
  col_length := by rw [Buckets.getLastD_ends, Nat.zero_add]

variable {m : CsrMatrix}

theorem row_length : m.row.length = m.xH + 1 := by
  have h := m.row_zero
  cases hrow : m.row with
  | nil => simp [hrow] at h
  | cons x xs => simp [xH, hrow]

theorem rowPtr_zero : m.rowPtr 0 = 0 := by
  have h := m.row_zero
  cases hrow : m.row with
  | nil => simp [hrow] at h
  | cons x xs => simpa [rowPtr, hrow] using h

theorem getElem?_row {i : Nat} (hi : i ≤ m.xH) : m.row[i]? = some (m.rowPtr i) := by
  have h : i < m.row.length := by
    rw [row_length]
    omega
  simp [rowPtr, h]

/-- Row pointers do not decrease. -/
theorem rowPtr_le {i j : Nat} (hij : i ≤ j) (hj : j ≤ m.xH) : m.rowPtr i ≤ m.rowPtr j := by
  rcases Nat.eq_or_lt_of_le hij with rfl | hlt
  · exact le_rfl
  · have hlen : j < m.row.length := by
      rw [row_length]
      omega
    have h := List.pairwise_iff_getElem.mp m.row_mono i j (by omega) hlen hlt
    simpa [rowPtr, hlen, show i < m.row.length by omega] using h

/-- The column line is as long as the last row pointer says. -/
theorem length_col : m.col.length = m.rowPtr m.xH := by
  have h : m.row.getLastD 0 = m.rowPtr m.xH := by
    rw [List.getLastD_eq_getLast?, List.getLast?_eq_getElem?, row_length, Nat.add_sub_cancel,
      getElem?_row le_rfl, Option.getD_some]
  rw [m.col_length, h]

theorem mem_col_of_mem_rowCols {i c : Nat} (h : c ∈ m.rowCols i) : c ∈ m.col :=
  List.mem_of_mem_drop (List.mem_of_mem_take h)

theorem mem_edges {e : Nat × Nat} : e ∈ m.edges ↔ e.1 < m.xH ∧ e.2 ∈ m.rowCols e.1 := by
  simp only [edges, List.mem_flatMap, List.mem_range, List.mem_map]
  constructor
  · rintro ⟨i, hi, c, hc, rfl⟩
    exact ⟨hi, hc⟩
  · rintro ⟨hi, hc⟩
    exact ⟨e.1, hi, e.2, hc, rfl⟩

/-- The edges of a source row are its columns. -/
theorem filter_edges {i : Nat} (hi : i < m.xH) :
    (m.edges.filter fun e => e.1 = i) = (m.rowCols i).map (i, ·) := by
  have hkey : ∀ k, ∀ e ∈ (m.rowCols k).map (k, ·), e.1 = k := by
    intro k e he
    obtain ⟨c, -, rfl⟩ := List.mem_map.mp he
    rfl
  rw [edges, Blocks.filter_flatMap_range hkey, if_pos hi]

/-- The edges of an output row that has the columns of one tile of a source row. -/
theorem map_snd_filter_slot {slot : Nat × Nat → Nat} {tile : Nat → Nat} {i k t : Nat}
    (hi : i < m.xH) (hslot : ∀ e ∈ m.edges, slot e = k ↔ e.1 = i ∧ tile e.2 = t) :
    (m.edges.filter fun e => slot e = k).map Prod.snd =
      (m.rowCols i).filter fun c => tile c = t := by
  have hsplit : (m.edges.filter fun e => slot e = k) =
      (m.edges.filter fun e => e.1 = i).filter fun e => tile e.2 = t := by
    rw [List.filter_filter]
    apply List.filter_congr
    intro e he
    rw [Bool.eq_iff_iff, decide_eq_true_eq, hslot e he, Bool.and_eq_true, decide_eq_true_eq,
      decide_eq_true_eq, and_comm]
  rw [hsplit, filter_edges hi, List.filter_map, List.map_map]
  exact List.map_id _

/-- There are no columns after the last row. -/
theorem rowCols_of_le {i : Nat} (hi : m.xH ≤ i) : m.rowCols i = [] := by
  have hlen : m.row.length ≤ i + 1 := by
    rw [row_length]
    omega
  have hzero : m.rowPtr (i + 1) = 0 := by
    simp [rowPtr, hlen]
  rw [rowCols, hzero, Nat.zero_sub, List.take_zero]

theorem map_snd_filter_edges (i : Nat) :
    (m.edges.filter fun e => e.1 = i).map Prod.snd = m.rowCols i := by
  by_cases hi : i < m.xH
  · rw [filter_edges hi, List.map_map]
    exact List.map_id _
  · have hnil : (m.edges.filter fun e => e.1 = i) = [] := by
      rw [List.filter_eq_nil_iff]
      intro e he hei
      rw [decide_eq_true_eq] at hei
      exact hi (hei ▸ (mem_edges.mp he).1)
    rw [hnil, rowCols_of_le (Nat.not_lt.mp hi), List.map_nil]

theorem flatMap_rowCols {n : Nat} (hn : n ≤ m.xH) :
    (List.range n).flatMap m.rowCols = m.col.take (m.rowPtr n) := by
  induction n with
  | zero => simp [rowPtr_zero]
  | succ n ih =>
    have hle : m.rowPtr n ≤ m.rowPtr (n + 1) := rowPtr_le (Nat.le_succ n) hn
    rw [List.range_succ, List.flatMap_append, ih (by omega), ← Nat.add_sub_cancel' hle,
      List.take_add]
    simp [rowCols]

/-- The columns of the edges are the column line. -/
theorem map_snd_edges : m.edges.map Prod.snd = m.col := by
  have h := flatMap_rowCols (m := m) le_rfl
  rw [← length_col, List.take_length] at h
  rw [edges, List.map_flatMap, ← h]
  simp [Function.comp_def]

theorem length_edges : m.edges.length = m.col.length := by
  rw [← map_snd_edges, List.length_map]

/-- The written file has one row pointer more than rows. -/
theorem xH_ofRows (newCsr : List (List Nat)) : (ofRows newCsr).xH = newCsr.length := by
  simp [xH, ofRows]

theorem rowPtr_ofRows {newCsr : List (List Nat)} {k : Nat} (hk : k ≤ newCsr.length) :
    (ofRows newCsr).rowPtr k = (newCsr.take k).flatten.length := by
  have hlen : k < (0 :: Buckets.ends 0 newCsr).length := by
    simp only [List.length_cons, Buckets.length_ends]
    omega
  rw [rowPtr, ofRows, List.getD_eq_getElem?_getD, List.getElem?_eq_getElem hlen,
    Option.getD_some, Buckets.getElem_ends, Nat.zero_add]

/-- The written rows can be read back. -/
theorem rowCols_ofRows {newCsr : List (List Nat)} {k : Nat} (hk : k < newCsr.length) :
    (ofRows newCsr).rowCols k = newCsr[k] := by
  rw [rowCols, rowPtr_ofRows hk, rowPtr_ofRows hk.le]
  exact Buckets.slice_ends hk

end CsrMatrix

namespace Converter

variable {σ : Type*}

/-- One turn of the loop over the source rows: `body` is run for every edge of row `i`,
whose columns are the next ones of the column line `tt`. A row pointer or a column that is
not there is not read by any of the converters for a CSR file, and ends the model. -/
def rowTurn (body : σ → Nat → Nat → Option σ) (row : List Nat) (st : List Nat × σ) (i : Nat) :
    Option (List Nat × σ) :=
  match row[i]?, row[i + 1]? with
  | some p, some q =>
    let vCnt := u64Sub q p
    if st.1.length < vCnt then none
    else ((st.1.take vCnt).foldlM (fun s edge => body s i edge) st.2).map (st.1.drop vCnt, ·)
  | _, _ => none

/-- The loops over the `v` source rows and over the edges of each. -/
def forEachEdge (body : σ → Nat → Nat → Option σ) (v : Nat) (row col : List Nat) (s : σ) :
    Option σ :=
  ((List.range v).foldlM (rowTurn body row) (col, s)).map Prod.snd

/-- The first rows of a CSR file are read edge by edge, and the columns of the others are
left. -/
theorem foldlM_rowTurn (m : CsrMatrix) (body : σ → Nat → Nat → Option σ) (s : σ) {n : Nat}
    (hn : n ≤ m.xH) :
    (List.range n).foldlM (rowTurn body m.row) (m.col, s) =
      (((List.range n).flatMap fun i => (m.rowCols i).map (i, ·)).foldlM
        (fun s e => body s e.1 e.2) s).map (m.col.drop (m.rowPtr n), ·) := by
  induction n with
  | zero => simp [CsrMatrix.rowPtr_zero]
  | succ n ih =>
    have hle : m.rowPtr n ≤ m.rowPtr (n + 1) := CsrMatrix.rowPtr_le (Nat.le_succ n) hn
    have hlast := CsrMatrix.rowPtr_le (m := m) hn le_rfl
    have henough : ¬ (m.col.drop (m.rowPtr n)).length < m.rowPtr (n + 1) - m.rowPtr n := by
      rw [List.length_drop, CsrMatrix.length_col]
      omega
    rw [List.range_succ, List.foldlM_append, ih (by omega), List.flatMap_append,
      List.foldlM_append]
    cases ((List.range n).flatMap fun i => (m.rowCols i).map (i, ·)).foldlM
        (fun s e => body s e.1 e.2) s with
    | none => rfl
    | some s' =>
      simp only [Option.map_some, Option.bind_eq_bind, Option.bind_some, List.foldlM_cons,
        List.foldlM_nil, rowTurn, CsrMatrix.getElem?_row (Nat.le_of_succ_le hn),
        CsrMatrix.getElem?_row hn, u64Sub_of_le hle, if_neg henough, List.drop_drop,
        Nat.add_sub_cancel' hle, List.flatMap_cons, List.flatMap_nil, List.append_nil,
        List.foldlM_map]
      simp [CsrMatrix.rowCols]

/-- The loops run the body once for every edge, in the order of the file. -/
theorem forEachEdge_eq (m : CsrMatrix) (body : σ → Nat → Nat → Option σ) (s : σ) :
    forEachEdge body m.xH m.row m.col s = m.edges.foldlM (fun s e => body s e.1 e.2) s := by
  rw [forEachEdge, foldlM_rowTurn m body s le_rfl, CsrMatrix.edges, Option.map_map]
  exact congrFun Option.map_id _

end Converter

end GcnSim
