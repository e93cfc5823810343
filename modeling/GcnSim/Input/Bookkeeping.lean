import GcnSim.Input.RoundTrip

/-!
# The counts of the data reader

`ReadData` parses the row line, which fills the count queues of the blocks, copies them,
parses the column line and computes `tot_axw_count`. The counts are right for every graph.
`tot_axw_count` is computed in `double`, so it is right only if it has at most 53
significant bits.
-/

namespace GcnSim

namespace CsrText

/-- What `ReadData` leaves behind. -/
structure Data where
  adjrowindex : List Nat
  adjcolindex : List Nat
  edgeReqCount : List Nat
  vertexReqCount : List Nat
  edgeReqCountCnt : List Nat
  vertexReqCountCnt : List Nat
  totAxwCount : Nat
  deriving DecidableEq, Repr

/-- `ReadData` on the two lines of the adjacency. The `_cnt` queues are copied between the
two parses. -/
def readData (aH wW maxV cacheLineCount : Nat) (rowLine colLine : List Char) : Option Data :=
  match getUint64Val true maxV aH rowLine ⟨[], []⟩ with
  | none => none
  | some (adjrowindex, q) =>
    match getUint64Val false maxV aH colLine q with
    | none => none
    | some (adjcolindex, q') =>
      (totAxwCount aH cacheLineCount wW q'.edgeReqCount.length).map fun tot =>
        { adjrowindex := adjrowindex
          adjcolindex := adjcolindex
          edgeReqCount := q'.edgeReqCount
          vertexReqCount := q'.vertexReqCount
          edgeReqCountCnt := q.edgeReqCount
          vertexReqCountCnt := q.vertexReqCount
          totAxwCount := tot }

/-- The counts are those of the blocks of `max_v` rows. -/
structure Bookkeeping (m : Csr) (wW maxV cacheLineCount : Nat) (d : Data) : Prop where
  edge_length : d.edgeReqCount.length = ceilDiv m.aH maxV
  vertex_length : d.vertexReqCount.length = ceilDiv m.aH maxV
  edge : ∀ b < ceilDiv m.aH maxV, d.edgeReqCount[b]? =
    some (m.row.getD (min ((b + 1) * maxV) m.aH) 0 - m.row.getD (b * maxV) 0)
  vertex : ∀ b < ceilDiv m.aH maxV, d.vertexReqCount[b]? =
    some (min ((b + 1) * maxV) m.aH - b * maxV + if b = 0 then 1 else 0)
  edge_sum : d.edgeReqCount.sum = m.row.getD m.aH 0
  vertex_sum : d.vertexReqCount.sum = m.aH + 1
  /-- The parse of the column line pushes nothing. -/
  unchanged : d.edgeReqCount = d.edgeReqCountCnt ∧ d.vertexReqCount = d.vertexReqCountCnt
  tot : d.totAxwCount = ceilDiv m.aH cacheLineCount * wW * ceilDiv m.aH maxV

/-- The parse of a line that is not the row line leaves the count queues alone. -/
theorem getUint64Val_false (maxV aH : Nat) (line : List Char) (q : Counts) :
    getUint64Val false maxV aH line q =
      (getUint64Val false maxV aH line ⟨[], []⟩).map fun r => (r.1, q) := by
  rw [getUint64Val, getUint64Val]
  split
  · rfl
  · split
    · simp
    · rfl

section Counts

variable {m : Csr} {maxV : Nat}

/-- The adjacency with blocks of `max_v` rows. -/
def blocks (m : Csr) {maxV : Nat} (hmaxV : 0 < maxV) : Params :=
  { m with
    cacheLineCount := 1
    maxV := maxV
    wW := 1
    cacheLineCount_pos := Nat.one_pos
    maxV_pos := hmaxV
    wW_pos := Nat.one_pos }

theorem row_eq_cons (m : Csr) : m.row = 0 :: m.row.tail := by
  have hlen := m.row_length
  have hzero := m.row_zero
  cases hrow : m.row with
  | nil => simp [hrow] at hlen
  | cons x xs =>
    rw [hrow, List.getD_cons_zero] at hzero
    rw [hzero, List.tail_cons]

/-- The parse of the row line fills the queues with the counts of the blocks. -/
theorem getUint64Val_row (hmaxV : 0 < maxV) {rowLine : List Char} (hline : IsLineOf m.row rowLine)
    (h64 : ∀ x ∈ m.row, x < u64Size) :
    getUint64Val true maxV m.aH rowLine ⟨[], []⟩ =
      some (m.row, ⟨(blocks m hmaxV).edgeReqCount, (blocks m hmaxV).vertexReqCount⟩) := by
  rw [row_eq_cons m] at hline
  have hzero : toU64 (Rounding.round 24 0) = some 0 := rfl
  rw [getUint64Val_isLineOf hline fun y hy => h64 y (List.mem_of_mem_tail hy), hzero,
    Option.map_some, ← row_eq_cons m]
  rfl

/-- `ReadData` keeps the books exactly if `tot_axw_count` is the exact product. -/
theorem readData_bookkeeping_iff {wW cacheLineCount : Nat} (hmaxV : 0 < maxV)
    {rowLine colLine : List Char} (hline : IsLineOf m.row rowLine)
    (h64 : ∀ x ∈ m.row, x < u64Size)
    (hcol : (getUint64Val false maxV m.aH colLine ⟨[], []⟩).isSome) :
    (∃ d, readData m.aH wW maxV cacheLineCount rowLine colLine = some d ∧
      Bookkeeping m wW maxV cacheLineCount d) ↔
      totAxwCount m.aH cacheLineCount wW (ceilDiv m.aH maxV) =
        some (ceilDiv m.aH cacheLineCount * wW * ceilDiv m.aH maxV) := by
  obtain ⟨⟨adjcol, q⟩, hcol⟩ := Option.isSome_iff_exists.mp hcol
  have hlen : (blocks m hmaxV).edgeReqCount.length = ceilDiv m.aH maxV :=
    Params.length_edgeReqCount
  rw [readData, getUint64Val_row hmaxV hline h64]
  simp only [getUint64Val_false, hcol, Option.map_some, hlen]
  constructor
  · rintro ⟨d, hd, hbooks⟩
    obtain ⟨tot, htot, rfl⟩ := Option.map_eq_some_iff.mp hd
    rw [htot, ← hbooks.tot]
  · intro htot
    rw [htot, Option.map_some]
    refine ⟨_, rfl, ?_⟩
    constructor
    case edge_length => exact Params.length_edgeReqCount
    case vertex_length => exact Params.length_vertexReqCount
    case edge =>
      intro b hb
      have hb' : b < (blocks m hmaxV).blockCount := hb
      have hget := Params.edgeReqCount_eq (P := blocks m hmaxV)
      dsimp only
      rw [hget, List.getElem?_map, List.getElem?_range hb']
      rfl
    case vertex =>
      intro b hb
      have hb' : b < (blocks m hmaxV).blockCount := hb
      have hget := Params.vertexReqCount_eq (P := blocks m hmaxV)
      dsimp only
      rw [hget, List.getElem?_map, List.getElem?_range hb']
      rfl
    case edge_sum => exact Params.sum_edgeReqCount.trans m.col_length
    case vertex_sum => exact Params.sum_vertexReqCount.trans m.row_length
    case unchanged => exact ⟨rfl, rfl⟩
    case tot => rfl

end Counts

/-- The counts of `ReadData` are those of the blocks, and `tot_axw_count` is the number of
lines to write, exactly if that number is below `2 ^ 64` and has at most 53 significant
bits. -/
theorem readData_books_iff (m : Csr) (wW maxV cacheLineCount : Nat) (hmaxV : 1 ≤ maxV)
    (hclc : 1 ≤ cacheLineCount) (rowLine colLine : List Char) (hline : IsLineOf m.row rowLine)
    (h64 : ∀ x ∈ m.row, x < u64Size)
    (hcol : (getUint64Val false maxV m.aH colLine ⟨[], []⟩).isSome) :
    (∃ d, readData m.aH wW maxV cacheLineCount rowLine colLine = some d ∧
      Bookkeeping m wW maxV cacheLineCount d) ↔
      ceilDiv m.aH cacheLineCount * wW * ceilDiv m.aH maxV < u64Size ∧
        Rounding.Representable 53 (ceilDiv m.aH cacheLineCount * wW * ceilDiv m.aH maxV) := by
  rw [readData_bookkeeping_iff hmaxV hline h64 hcol]
  exact totAxwCount_eq_iff m.aH_pos hclc (ceilDiv_pos m.aH_pos hmaxV)

/-- One row with one edge. -/
def oneEdge : Csr where
  aH := 1
  row := [0, 1]
  col := [0]
  aH_pos := Nat.one_pos
  row_length := rfl
  row_zero := rfl
  row_mono := by decide
  col_length := rfl

theorem readData_books_oneEdge :
    (∃ d, readData 1 3 2 4 (separated [0, 1]) (separated [0]) = some d ∧
      Bookkeeping oneEdge 3 2 4 d) ↔
      ceilDiv 1 4 * 3 * ceilDiv 1 2 < u64Size ∧
        Rounding.Representable 53 (ceilDiv 1 4 * 3 * ceilDiv 1 2) :=
  readData_books_iff oneEdge 3 2 4 (Nat.le_add_left 1 1) (Nat.le_add_left 1 3) _ _ (.inl rfl)
    (by decide) (by decide +kernel)

theorem getD_firstRow {k i : Nat} (hi : i < k) : (0 :: List.replicate k 1).getD (i + 1) 0 = 1 := by
  rw [List.getD_cons_succ, List.getD_eq_getElem?_getD, List.getElem?_replicate, if_pos hi,
    Option.getD_some]

/-- A graph of `n + 1` vertices with a single edge, in the first row. -/
def firstRowEdge (n : Nat) : Csr where
  aH := n + 1
  row := 0 :: List.replicate (n + 1) 1
  col := [0]
  aH_pos := Nat.succ_pos n
  row_length := by rw [List.length_cons, List.length_replicate]
  row_zero := rfl
  row_mono := by
    intro i hi
    cases i with
    | zero => exact Nat.zero_le _
    | succ i => rw [getD_firstRow hi, getD_firstRow (Nat.lt_of_succ_lt hi)]
  col_length := by rw [getD_firstRow (Nat.lt_succ_self n), List.length_singleton]

/-- For `2 ^ 20 + 1` vertices and `w_w = 8193` the number of lines to write is odd and above
`2 ^ 53`, so `tot_axw_count` is another number. -/
theorem readData_firstRowEdge_not_books :
    ¬ ∃ d, readData (firstRowEdge 1048576).aH 8193 1 1 (separated (firstRowEdge 1048576).row)
        (separated [0]) = some d ∧ Bookkeeping (firstRowEdge 1048576) 8193 1 1 d := by
  intro h
  have h64 : ∀ x ∈ (firstRowEdge 1048576).row, x < u64Size := by
    intro x hx
    rcases List.mem_cons.mp hx with rfl | hx
    · decide
    · rw [List.eq_of_mem_replicate hx]
      decide
  have htot := (readData_bookkeeping_iff Nat.one_pos (.inl rfl) h64 (by decide +kernel)).mp h
  have hsize : 0 < ceilDiv (firstRowEdge 1048576).aH 1 :=
    ceilDiv_pos (firstRowEdge 1048576).aH_pos Nat.one_pos
  have hrep := ((totAxwCount_eq_iff (firstRowEdge 1048576).aH_pos Nat.one_pos hsize).mp htot).2
  have hlt := hrep.lt_of_odd (by decide +kernel)
  revert hlt
  decide +kernel

end CsrText

end GcnSim
