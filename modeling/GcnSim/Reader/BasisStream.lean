import GcnSim.Reader.BasisEdge
import Mathlib.Data.Nat.ModEq

/-!
# The stream of the basis edge reader

However the columns are cut into lines and however the calls interleave, the reader hands
out the same items: row by row, column by column, fold by fold. It is either between two
rows, or inside the folds of a column of a row, and `ev` holds the columns of the row up to
that one.
-/

namespace GcnSim

namespace BasisStream

variable (C : BasisConfig)

/-- The item of a fold of column `j` of a row. -/
def item (row : Nat) (cols : List Nat) (j fold : Nat) : RowItem where
  colindex := cols.getD j 0
  address := BasisEdgeReader.lineAddress C (cols.getD j 0) fold
  preWFold := fold
  rowindex := row
  preWFoldStart := 0
  preRepeat := 0
  isEnd := j + 1 = cols.length

/-- The items of the first `j` columns of a row. -/
def rowItems (row : Nat) (cols : List Nat) (j : Nat) : List RowItem :=
  (List.range j).flatMap fun j => (List.range C.wFold).map (item C row cols j)

/-- The items of the first `n` rows. -/
def stream (rows : List (List Nat)) (n : Nat) : List RowItem :=
  (List.range n).flatMap fun k =>
    rowItems C (C.rowStart + k) (rows.getD k []) (rows.getD k []).length

/-- The number of columns of the first `n` rows. -/
def colNum (rows : List (List Nat)) (n : Nat) : Nat := (rows.take n).flatten.length

variable {C} {rows : List (List Nat)}

theorem stream_succ (n : Nat) : stream C rows (n + 1) =
    stream C rows n ++ rowItems C (C.rowStart + n) (rows.getD n []) (rows.getD n []).length := by
  simp [stream, List.range_succ]

theorem rowItems_succ (row : Nat) (cols : List Nat) (j : Nat) : rowItems C row cols (j + 1) =
    rowItems C row cols j ++ (List.range C.wFold).map (item C row cols j) := by
  simp [rowItems, List.range_succ]

theorem rowItems_prefix_of_le (row : Nat) (cols : List Nat) {j k : Nat} (h : j ≤ k) :
    rowItems C row cols j <+: rowItems C row cols k := by
  induction k, h using Nat.le_induction with
  | base => exact List.prefix_rfl
  | succ k _ ih =>
    rw [rowItems_succ]
    exact ih.trans (List.prefix_append _ _)

theorem stream_prefix_of_le {n k : Nat} (h : n ≤ k) : stream C rows n <+: stream C rows k := by
  induction k, h using Nat.le_induction with
  | base => exact List.prefix_rfl
  | succ k _ ih =>
    rw [stream_succ]
    exact ih.trans (List.prefix_append _ _)

theorem colNum_succ {n : Nat} (hn : n < rows.length) :
    colNum rows (n + 1) = colNum rows n + (rows.getD n []).length := by
  rw [colNum, List.take_succ_eq_append_getElem hn, List.flatten_append, List.length_append]
  simp [colNum, hn]

/-- The columns from row `n` on start with that row. -/
theorem drop_colNum {n : Nat} (hn : n < rows.length) :
    rows.flatten.drop (colNum rows n) =
      rows.getD n [] ++ rows.flatten.drop (colNum rows (n + 1)) := by
  have hsplit : rows.flatten = (rows.take n).flatten ++ (rows.drop n).flatten := by
    rw [← List.flatten_append, List.take_append_drop]
  have hsplit' : rows.flatten = (rows.take (n + 1)).flatten ++ (rows.drop (n + 1)).flatten := by
    rw [← List.flatten_append, List.take_append_drop]
  have h₁ : rows.flatten.drop (colNum rows n) = (rows.drop n).flatten := by
    conv_lhs => rw [hsplit]
    exact List.drop_left
  have h₂ : rows.flatten.drop (colNum rows (n + 1)) = (rows.drop (n + 1)).flatten := by
    conv_lhs => rw [hsplit']
    exact List.drop_left
  rw [h₁, h₂, List.drop_eq_getElem_cons hn, List.flatten_cons]
  simp [hn]

/-- The row pointer of row `n` is the next one when `n` rows are given. -/
theorem drop_ends {n : Nat} (hn : n < rows.length) :
    (Buckets.ends 0 rows).drop n = colNum rows (n + 1) :: (Buckets.ends 0 rows).drop (n + 1) := by
  have hlen : n < (Buckets.ends 0 rows).length := by simpa using hn
  have hget : (Buckets.ends 0 rows)[n] = colNum rows (n + 1) := by
    have h : n + 1 < (0 :: Buckets.ends 0 rows).length := by simpa using hn
    have := Buckets.getElem_ends h
    simpa [colNum] using this
  rw [List.drop_eq_getElem_cons hlen, hget]

variable (C rows)

/-- What holds while `given` row pointers are given. -/
structure Common (given : Nat) (s : BasisSystem) : Prop where
  given_le : given ≤ rows.length
  ptrs : s.ptrs = (Buckets.ends 0 rows).drop given
  curV : s.reader.curV = colNum rows given
  preRow : s.reader.preRow = C.rowStart + given - 1
  noUndefined : s.undefinedRead = false

/-- The reader is between two rows. After the last row of the unit it does not ask for a
row pointer again. -/
structure Idle (given : Nat) (s : BasisSystem) : Prop extends Common C rows given s where
  remain : s.reader.remainColNum = 0
  fold : s.reader.preWFold = 0
  ev : s.reader.ev = []
  columns : s.reader.eq ++ s.cols = rows.flatten.drop (colNum rows given)
  nonempty : s.reader.qEmpty = false → s.reader.eq ≠ []
  canReceive : s.reader.canReceive = true ∨ given = rows.length ∧ s.reader.qEmpty = true
  emitted : s.emitted = stream C rows given

/-- The reader is at fold `fold` of column `j` of row `g`. -/
structure Busy (g j fold : Nat) (s : BasisSystem) : Prop extends Common C rows (g + 1) s where
  j_lt : j < (rows.getD g []).length
  fold_lt : fold < C.wFold
  fold_eq : s.reader.preWFold = fold
  remain : s.reader.remainColNum = (rows.getD g []).length - j
  archive : s.reader.colNumArchive = (rows.getD g []).length
  canReceive : s.reader.canReceive = false
  ev : s.reader.ev = (rows.getD g []).take (if fold = 0 then j else j + 1)
  columns : s.reader.eq ++ s.cols = rows.flatten.drop (colNum rows g + s.reader.ev.length)
  nonempty : s.reader.qEmpty = false → s.reader.eq ≠ [] ∨ 0 < fold
  emitted : s.emitted = stream C rows g ++ rowItems C (C.rowStart + g) (rows.getD g []) j ++
    ((List.range fold).map (item C (C.rowStart + g) (rows.getD g []) j))

/-- The reader is between two rows or inside one. -/
def Inv (s : BasisSystem) : Prop :=
  (∃ given, Idle C rows given s) ∨ ∃ g j fold, Busy C rows g j fold s

variable {C rows}

/-- Nothing is left after the last row. -/
theorem drop_colNum_length : rows.flatten.drop (colNum rows rows.length) = [] := by
  rw [colNum, List.take_length, List.drop_length]

/-- A line of columns arrives. -/
theorem Inv.chunk {s : BasisSystem} (h : Inv C rows s) (n : Nat) : Inv C rows (s.chunk n) := by
  rw [BasisSystem.chunk]
  split
  · rename_i hn
    have hcols : ∀ {l}, s.reader.eq ++ s.cols = l →
        (s.reader.eq ++ s.cols.take n) ++ s.cols.drop n = l := by
      rintro l rfl
      rw [List.append_assoc, List.take_append_drop]
    have hne : s.reader.eq ++ s.cols.take n ≠ [] := by
      intro hnil
      have hlen := congrArg List.length hnil
      rw [List.length_append, List.length_take, List.length_nil] at hlen
      omega
    rcases h with ⟨given, h⟩ | ⟨g, j, fold, h⟩
    · have hreceive : s.reader.canReceive = true := by
        rcases h.canReceive with hreceive | ⟨hgiven, -⟩
        · exact hreceive
        · have hnil := h.columns
          rw [hgiven, drop_colNum_length, List.append_eq_nil_iff] at hnil
          rw [hnil.2, List.length_nil] at hn
          omega
      exact .inl ⟨given, ⟨⟨h.given_le, h.ptrs, h.curV, h.preRow, h.noUndefined⟩, h.remain, h.fold,
        h.ev, hcols h.columns, fun _ => hne, .inl hreceive, h.emitted⟩⟩
    · exact .inr ⟨g, j, fold, ⟨⟨h.given_le, h.ptrs, h.curV, h.preRow, h.noUndefined⟩, h.j_lt,
        h.fold_lt, h.fold_eq, h.remain, h.archive, h.canReceive, h.ev, hcols h.columns,
        fun _ => .inl hne, h.emitted⟩⟩
  · exact h

section NextRow

variable {given : Nat} {s : BasisSystem} (h : Idle C rows given s) (hlt : given < rows.length)

include h hlt

/-- The next row pointer gives the number of columns of the next row. -/
theorem Idle.remain_next : u64Sub (colNum rows (given + 1)) s.reader.curV =
    (rows.getD given []).length := by
  rw [h.curV, colNum_succ hlt, u64Sub_of_le (Nat.le_add_right _ _), Nat.add_sub_cancel_left]

theorem Idle.common_next : Common C rows (given + 1)
    { s with
      reader := s.reader.receiveVertex C (colNum rows (given + 1))
      ptrs := (Buckets.ends 0 rows).drop (given + 1) } := by
  refine ⟨hlt, rfl, rfl, ?_, h.noUndefined⟩
  simp only [BasisEdgeReader.receiveVertex, h.preRow]
  omega

/-- A row without columns is over at once. -/
theorem Idle.next_empty (hzero : (rows.getD given []).length = 0) : Idle C rows (given + 1)
    { s with
      reader := s.reader.receiveVertex C (colNum rows (given + 1))
      ptrs := (Buckets.ends 0 rows).drop (given + 1) } := by
  refine ⟨h.common_next hlt, ?_, h.fold, h.ev, ?_, h.nonempty, .inl ?_, ?_⟩
  · exact (h.remain_next hlt).trans hzero
  · rw [colNum_succ hlt, hzero, Nat.add_zero]
    exact h.columns
  · simp only [BasisEdgeReader.receiveVertex, h.remain_next hlt, hzero, decide_true]
  · rw [stream_succ, hzero]
    exact h.emitted.trans (List.append_nil _).symm

/-- A row with columns starts at its first one. -/
theorem Idle.next_busy (hne : (rows.getD given []).length ≠ 0) : Busy C rows given 0 0
    { s with
      reader := s.reader.receiveVertex C (colNum rows (given + 1))
      ptrs := (Buckets.ends 0 rows).drop (given + 1) } := by
  have hremain := h.remain_next hlt
  refine ⟨h.common_next hlt, Nat.pos_of_ne_zero hne, C.wFold_pos, h.fold, hremain, hremain, ?_,
    h.ev, ?_, ?_, ?_⟩
  · simp only [BasisEdgeReader.receiveVertex, hremain, hne, decide_false]
  · have hev : (s.reader.receiveVertex C (colNum rows (given + 1))).ev = [] := h.ev
    dsimp only
    rw [hev, List.length_nil, Nat.add_zero]
    exact h.columns
  · exact fun hq => .inl (h.nonempty hq)
  · rw [h.emitted]
    simp [rowItems]

end NextRow

/-- A row pointer is given. -/
theorem Inv.vertex {s : BasisSystem} (h : Inv C rows s) : Inv C rows (s.vertex C) := by
  rcases h with ⟨given, h⟩ | ⟨g, j, fold, h⟩
  · rw [BasisSystem.vertex]
    split
    · rename_i p ptrs hreceive hptrs
      have hlt : given < rows.length := by
        by_contra hge
        rw [h.ptrs, List.drop_eq_nil_of_le (by simp; omega)] at hptrs
        cases hptrs
      have hnext := h.ptrs.symm.trans hptrs
      rw [drop_ends hlt] at hnext
      obtain ⟨rfl, rfl⟩ := List.cons.inj hnext
      by_cases hzero : (rows.getD given []).length = 0
      · exact .inl ⟨given + 1, h.next_empty hlt hzero⟩
      · exact .inr ⟨given, 0, 0, h.next_busy hlt hzero⟩
    · exact .inl ⟨given, h⟩
  · have hsame : s.vertex C = s := by
      rw [BasisSystem.vertex, h.canReceive]
    rw [hsame]
    exact .inr ⟨g, j, fold, h⟩

/-- The columns that are left inside row `g` start with column `j`. -/
theorem drop_colNum_add {g j : Nat} (hg : g < rows.length) (hj : j < (rows.getD g []).length) :
    rows.flatten.drop (colNum rows g + j) =
      (rows.getD g []).getD j 0 :: rows.flatten.drop (colNum rows g + (j + 1)) := by
  have hdrop : ∀ k ≤ (rows.getD g []).length, rows.flatten.drop (colNum rows g + k) =
      (rows.getD g []).drop k ++ rows.flatten.drop (colNum rows (g + 1)) := by
    intro k hk
    rw [← List.drop_drop, drop_colNum hg, List.drop_append_of_le_length hk]
  rw [hdrop j hj.le, hdrop (j + 1) hj, List.drop_eq_getElem_cons hj, List.cons_append]
  simp only [List.getD_eq_getElem?_getD (l := rows.getD g []), List.getElem?_eq_getElem hj,
    Option.getD_some]

theorem take_succ_getD {l : List Nat} {j : Nat} (hj : j < l.length) :
    l.take (j + 1) = l.take j ++ [l.getD j 0] := by
  rw [List.take_succ_eq_append_getElem hj, List.getD_eq_getElem?_getD,
    List.getElem?_eq_getElem hj, Option.getD_some]

theorem getElem?_take_succ {l : List Nat} {j : Nat} (hj : j < l.length) :
    (l.take (j + 1))[j]? = some (l.getD j 0) := by
  rw [List.getElem?_take_of_lt (Nat.lt_succ_self j), List.getD_eq_getElem?_getD,
    List.getElem?_eq_getElem hj, Option.getD_some]

theorem Busy.g_lt {g j fold : Nat} {s : BasisSystem} (h : Busy C rows g j fold s) :
    g < rows.length := h.given_le

/-- The reader with the column of an item in `ev`. -/
def fetched (r : BasisEdgeReader) (eq ev : List Nat) (reqNeed : Bool) : BasisEdgeReader :=
  { r with
    eq := eq
    ev := ev
    reqNeed := reqNeed }

/-- `TransferData` finds the column: in `eq` for its first fold, in `ev` for the others. -/
theorem Busy.fetch {g j fold : Nat} {s : BasisSystem} (h : Busy C rows g j fold s)
    (hq : s.reader.qEmpty = false) :
    ∃ eq, s.reader.fetch =
        some (fetched s.reader eq ((rows.getD g []).take (j + 1)) s.reader.reqNeed) ∧
      eq ++ s.cols = rows.flatten.drop (colNum rows g + (j + 1)) := by
  have hlen : ∀ k ≤ (rows.getD g []).length, ((rows.getD g []).take k).length = k := fun k hk =>
    List.length_take_of_le hk
  have hev := h.ev
  have hcols := h.columns
  rw [BasisEdgeReader.fetch]
  by_cases hfold : fold = 0
  · rw [if_pos hfold] at hev
    rw [hev, hlen j h.j_lt.le, drop_colNum_add h.g_lt h.j_lt] at hcols
    rw [if_pos (h.fold_eq.trans hfold)]
    rcases h.nonempty hq with hne | hpos
    · cases heq : s.reader.eq with
      | nil => exact absurd heq hne
      | cons c eq =>
        rw [heq, List.cons_append] at hcols
        obtain ⟨rfl, hrest⟩ := List.cons.inj hcols
        refine ⟨eq, ?_, hrest⟩
        dsimp only
        rw [hev, take_succ_getD h.j_lt]
        rfl
    · omega
  · rw [if_neg hfold] at hev
    rw [hev, hlen (j + 1) h.j_lt] at hcols
    rw [if_neg (by rwa [h.fold_eq]), ← hev]
    exact ⟨s.reader.eq, rfl, hcols⟩

theorem reopen_fetched (C : BasisConfig) (r : BasisEdgeReader) (eq ev : List Nat) (b : Bool) :
    ∃ reqNeed, (fetched r eq ev b).reopen C = fetched r eq ev reqNeed := by
  rw [BasisEdgeReader.reopen]
  split
  · exact ⟨true, rfl⟩
  · exact ⟨b, rfl⟩

/-- The item that is handed out is the one of the stream, and only the counters are left to
be moved on. -/
theorem Busy.transferData {g j fold : Nat} {s : BasisSystem} (h : Busy C rows g j fold s)
    (hq : s.reader.qEmpty = false) :
    ∃ eq reqNeed, s.reader.transferData C =
        some (item C (C.rowStart + g) (rows.getD g []) j fold,
          ((fetched s.reader eq ((rows.getD g []).take (j + 1)) reqNeed).advance C).checkEmpty) ∧
      eq ++ s.cols = rows.flatten.drop (colNum rows g + (j + 1)) := by
  obtain ⟨eq, hfetch, hcols⟩ := h.fetch hq
  obtain ⟨reqNeed, hreopen⟩ := reopen_fetched C s.reader eq ((rows.getD g []).take (j + 1))
    s.reader.reqNeed
  have hj := h.j_lt
  have hidx : u64Sub s.reader.colNumArchive s.reader.remainColNum = j := by
    rw [h.archive, h.remain, u64Sub_of_le (Nat.sub_le _ _)]
    omega
  have hrow : u64OfInt s.reader.preRow = C.rowStart + g := by
    rw [h.preRow, ← u64OfInt_natCast (C.rowStart + g)]
    congr 1
    omega
  have hend : (s.reader.remainColNum = 1) ↔ j + 1 = (rows.getD g []).length := by
    rw [h.remain]
    omega
  refine ⟨eq, reqNeed, ?_, hcols⟩
  rw [BasisEdgeReader.transferData, hfetch]
  dsimp only
  rw [hreopen]
  simp only [fetched, hidx, getElem?_take_succ hj, hrow, hend, h.fold_eq, item]

/-- The items of the row up to a fold, with the next one. -/
theorem range_succ_map (row : Nat) (cols : List Nat) (j fold : Nat) :
    (List.range (fold + 1)).map (item C row cols j) =
      (List.range fold).map (item C row cols j) ++ [item C row cols j fold] := by
  rw [List.range_succ, List.map_append, List.map_singleton]

/-- The folds of the column go on. -/
theorem Busy.advance_fold {g j fold : Nat} {s : BasisSystem} (h : Busy C rows g j fold s)
    (hfold : fold + 1 ≠ C.wFold) (eq ev : List Nat) (b : Bool) :
    ((fetched s.reader eq ev b).advance C).checkEmpty =
      { fetched s.reader eq ev b with preWFold := fold + 1 } := by
  have hadvance : (fetched s.reader eq ev b).advance C =
      { fetched s.reader eq ev b with preWFold := fold + 1 } := by
    simp only [BasisEdgeReader.advance, fetched, h.fold_eq, if_neg hfold, ite_self]
  rw [hadvance, BasisEdgeReader.checkEmpty, if_neg (fun hz => Nat.succ_ne_zero fold hz.1)]

/-- The column ends inside the row. -/
theorem Busy.advance_column {g j fold : Nat} {s : BasisSystem} (h : Busy C rows g j fold s)
    (hfold : fold + 1 = C.wFold) (hj : j + 1 ≠ (rows.getD g []).length) (eq ev : List Nat)
    (b : Bool) :
    ((fetched s.reader eq ev b).advance C).checkEmpty =
      { fetched s.reader eq ev b with
        preWFold := 0
        remainColNum := (rows.getD g []).length - (j + 1)
        qEmpty := if eq = [] then true else s.reader.qEmpty } := by
  have hlt := h.j_lt
  have hremain : s.reader.remainColNum ≠ 1 := by
    rw [h.remain]
    omega
  have hsub : u64Sub s.reader.remainColNum 1 = (rows.getD g []).length - (j + 1) := by
    rw [h.remain, u64Sub_of_le (by omega)]
    omega
  have hadvance : (fetched s.reader eq ev b).advance C =
      { fetched s.reader eq ev b with
        preWFold := 0
        remainColNum := (rows.getD g []).length - (j + 1) } := by
    simp only [BasisEdgeReader.advance, fetched, h.fold_eq, if_pos hfold, if_neg hremain, hsub]
  rw [hadvance, BasisEdgeReader.checkEmpty]
  by_cases heq : eq = []
  · simp only [fetched, heq, and_self, if_true]
  · simp only [fetched, heq, and_false, if_false]

/-- The row ends. -/
theorem Busy.advance_row {g j fold : Nat} {s : BasisSystem} (h : Busy C rows g j fold s)
    (hfold : fold + 1 = C.wFold) (hj : j + 1 = (rows.getD g []).length) (eq ev : List Nat)
    (b : Bool) :
    ((fetched s.reader eq ev b).advance C).checkEmpty =
      { fetched s.reader eq [] b with
        qSpace := s.reader.qSpace - ev.length
        preWFold := 0
        remainColNum := 0
        canReceive := if C.rowStart + g = C.rowEnd then false else true
        qEmpty := if eq = [] ∨ C.rowStart + g = C.rowEnd then true else s.reader.qEmpty } := by
  have hremain : s.reader.remainColNum = 1 := by
    rw [h.remain]
    omega
  have hrow : u64OfInt s.reader.preRow = C.rowStart + g := by
    rw [h.preRow, ← u64OfInt_natCast (C.rowStart + g)]
    congr 1
    omega
  have hadvance : (fetched s.reader eq ev b).advance C =
      { fetched s.reader eq [] b with
        qSpace := s.reader.qSpace - ev.length
        preWFold := 0
        remainColNum := 0
        canReceive := if C.rowStart + g = C.rowEnd then false else true
        qEmpty := if C.rowStart + g = C.rowEnd then true else s.reader.qEmpty } := by
    simp only [BasisEdgeReader.advance, BasisEdgeReader.endRow, fetched, h.fold_eq, if_pos hfold,
      hremain, if_true, hrow, h.canReceive, Nat.sub_self]
  rw [hadvance, BasisEdgeReader.checkEmpty]
  by_cases heq : eq = []
  · simp only [fetched, heq, and_self, true_or, if_true]
  · simp only [fetched, heq, and_false, false_or, if_false]

/-- The items so far with the next one. -/
theorem Busy.emitted_item {g j fold : Nat} {s : BasisSystem} (h : Busy C rows g j fold s) :
    s.emitted ++ [item C (C.rowStart + g) (rows.getD g []) j fold] =
      stream C rows g ++ rowItems C (C.rowStart + g) (rows.getD g []) j ++
        (List.range (fold + 1)).map (item C (C.rowStart + g) (rows.getD g []) j) := by
  rw [h.emitted, range_succ_map, List.append_assoc]

/-- The last fold of a column completes its items. -/
theorem Busy.emitted_column {g j fold : Nat} {s : BasisSystem} (h : Busy C rows g j fold s)
    (hfold : fold + 1 = C.wFold) :
    s.emitted ++ [item C (C.rowStart + g) (rows.getD g []) j fold] =
      stream C rows g ++ rowItems C (C.rowStart + g) (rows.getD g []) (j + 1) := by
  rw [h.emitted_item, hfold, rowItems_succ, List.append_assoc]

section Advance

variable {g j fold : Nat} {s : BasisSystem} (h : Busy C rows g j fold s) {eq : List Nat}
  (hcols : eq ++ s.cols = rows.flatten.drop (colNum rows g + (j + 1))) (reqNeed : Bool)

include h hcols

/-- After the last item of a row the reader is between two rows. -/
theorem Busy.next_row (hrows : C.rowStart + rows.length ≤ C.rowEnd + 1)
    (hfold : fold + 1 = C.wFold) (hj : j + 1 = (rows.getD g []).length) :
    Idle C rows (g + 1)
      { s with
        reader :=
          ((fetched s.reader eq ((rows.getD g []).take (j + 1)) reqNeed).advance C).checkEmpty
        emitted := s.emitted ++ [item C (C.rowStart + g) (rows.getD g []) j fold] } := by
  rw [h.advance_row hfold hj, h.emitted_column hfold]
  refine ⟨⟨h.given_le, h.ptrs, h.curV, h.preRow, h.noUndefined⟩, rfl, rfl, rfl, ?_, ?_, ?_, ?_⟩
  · rw [colNum_succ h.g_lt, ← hj]
    exact hcols
  · intro hne heq
    dsimp only [fetched] at hne heq
    rw [if_pos (.inl heq)] at hne
    cases hne
  · dsimp only [fetched]
    by_cases hlast : C.rowStart + g = C.rowEnd
    · rw [if_pos hlast, if_pos (.inr hlast)]
      have hle := h.given_le
      exact .inr ⟨by omega, rfl⟩
    · rw [if_neg hlast]
      exact .inl rfl
  · rw [stream_succ, hj]

/-- After the last fold of a column inside a row the next column is due. -/
theorem Busy.next_column (hfold : fold + 1 = C.wFold) (hj : j + 1 ≠ (rows.getD g []).length) :
    Busy C rows g (j + 1) 0
      { s with
        reader :=
          ((fetched s.reader eq ((rows.getD g []).take (j + 1)) reqNeed).advance C).checkEmpty
        emitted := s.emitted ++ [item C (C.rowStart + g) (rows.getD g []) j fold] } := by
  rw [h.advance_column hfold hj, h.emitted_column hfold]
  have hlt := h.j_lt
  refine ⟨⟨h.given_le, h.ptrs, h.curV, h.preRow, h.noUndefined⟩, by omega, C.wFold_pos, rfl, rfl,
    h.archive, h.canReceive, rfl, ?_, ?_, ?_⟩
  · dsimp only [fetched]
    rw [List.length_take_of_le h.j_lt]
    exact hcols
  · intro hne
    dsimp only [fetched] at hne ⊢
    left
    intro heq
    rw [if_pos heq] at hne
    cases hne
  · rw [List.range_zero, List.map_nil, List.append_nil]

/-- After another fold the next fold is due. -/
theorem Busy.next_fold (hfold : fold + 1 ≠ C.wFold) :
    Busy C rows g j (fold + 1)
      { s with
        reader :=
          ((fetched s.reader eq ((rows.getD g []).take (j + 1)) reqNeed).advance C).checkEmpty
        emitted := s.emitted ++ [item C (C.rowStart + g) (rows.getD g []) j fold] } := by
  rw [h.advance_fold hfold]
  have hlt := h.fold_lt
  refine ⟨⟨h.given_le, h.ptrs, h.curV, h.preRow, h.noUndefined⟩, h.j_lt, by omega, rfl, h.remain,
    h.archive, h.canReceive, rfl, ?_, ?_, h.emitted_item⟩
  · dsimp only [fetched]
    rw [List.length_take_of_le h.j_lt]
    exact hcols
  · exact fun _ => .inr (Nat.succ_pos fold)

end Advance

/-- `TransferData` keeps the invariant. -/
theorem Inv.transfer {s : BasisSystem} (hrows : C.rowStart + rows.length ≤ C.rowEnd + 1)
    (h : Inv C rows s) : Inv C rows (s.transfer C) := by
  rw [BasisSystem.transfer]
  split
  · rename_i hcall
    obtain ⟨hq, hreceive⟩ := hcall
    rcases h with ⟨given, h⟩ | ⟨g, j, fold, h⟩
    · -- Between two rows `TransferData` is not called.
      rcases h.canReceive with hc | ⟨-, hc⟩
      · rw [hc] at hreceive
        cases hreceive
      · rw [hc] at hq
        cases hq
    · obtain ⟨eq, reqNeed, hdata, hcols⟩ := h.transferData hq
      rw [hdata]
      by_cases hfold : fold + 1 = C.wFold
      · by_cases hj : j + 1 = (rows.getD g []).length
        · exact .inl ⟨g + 1, h.next_row hcols reqNeed hrows hfold hj⟩
        · exact .inr ⟨g, j + 1, 0, h.next_column hcols reqNeed hfold hj⟩
      · exact .inr ⟨g, j, fold + 1, h.next_fold hcols reqNeed hfold⟩
  · exact h

/-- The counters of the requests do not matter. -/
theorem Inv.requests {s : BasisSystem} (h : Inv C rows s) (qSpace : Int)
    (preReadCnt reqAddress : Nat) (reqNeed : Bool) :
    Inv C rows
      { s with
        reader := { s.reader with
          qSpace := qSpace
          preReadCnt := preReadCnt
          reqNeed := reqNeed
          reqAddress := reqAddress } } := by
  rcases h with ⟨given, h⟩ | ⟨g, j, fold, h⟩
  · exact .inl ⟨given, ⟨⟨h.given_le, h.ptrs, h.curV, h.preRow, h.noUndefined⟩, h.remain, h.fold,
      h.ev, h.columns, h.nonempty, h.canReceive, h.emitted⟩⟩
  · exact .inr ⟨g, j, fold, ⟨⟨h.given_le, h.ptrs, h.curV, h.preRow, h.noUndefined⟩, h.j_lt,
      h.fold_lt, h.fold_eq, h.remain, h.archive, h.canReceive, h.ev, h.columns, h.nonempty,
      h.emitted⟩⟩

/-- Every call keeps the invariant. -/
theorem Inv.step {s : BasisSystem} (hrows : C.rowStart + rows.length ≤ C.rowEnd + 1)
    (h : Inv C rows s) (op : BasisOp) : Inv C rows (s.step C op) := by
  cases op with
  | chunk n => exact h.chunk n
  | vertex => exact h.vertex
  | transfer => exact h.transfer hrows
  | request => exact h.requests _ _ _ _
  | turnOffFlag => exact h.requests _ _ _ _

/-- What was handed out is the start of the stream. -/
theorem Inv.emitted_prefix {s : BasisSystem} (h : Inv C rows s) :
    s.emitted <+: stream C rows rows.length := by
  rcases h with ⟨given, h⟩ | ⟨g, j, fold, h⟩
  · rw [h.emitted]
    exact stream_prefix_of_le h.given_le
  · have hfolds : (List.range fold).map (item C (C.rowStart + g) (rows.getD g []) j) <+:
        (List.range C.wFold).map (item C (C.rowStart + g) (rows.getD g []) j) := by
      apply List.IsPrefix.map
      rw [List.prefix_iff_eq_take, List.length_range, List.take_range,
        Nat.min_eq_left h.fold_lt.le]
    have hrow : rowItems C (C.rowStart + g) (rows.getD g []) j ++
        (List.range fold).map (item C (C.rowStart + g) (rows.getD g []) j) <+:
          rowItems C (C.rowStart + g) (rows.getD g []) (rows.getD g []).length := by
      refine List.IsPrefix.trans ?_ (rowItems_prefix_of_le _ _ h.j_lt)
      rw [rowItems_succ]
      exact (List.prefix_append_right_inj _).mpr hfolds
    refine List.IsPrefix.trans ?_ (stream_prefix_of_le h.given_le)
    rw [h.emitted, stream_succ, List.append_assoc]
    exact (List.prefix_append_right_inj _).mpr hrow

theorem Inv.noUndefined {s : BasisSystem} (h : Inv C rows s) : s.undefinedRead = false := by
  rcases h with ⟨_, h⟩ | ⟨_, _, _, h⟩
  · exact h.noUndefined
  · exact h.noUndefined

/-- The offset of an item's line in the feature region. -/
def lineOffset (C : BasisConfig) (d : RowItem) : Nat :=
  (d.colindex * C.wFold + d.preWFold.toNat) * C.cacheLineByte

/-- An item of the stream has the address of its line, and its fold is below `w_fold`. -/
theorem address_of_mem_stream {n : Nat} {d : RowItem} (hd : d ∈ stream C rows n) :
    d.address = (C.xwStart + lineOffset C d) % u64Size ∧
      ∃ f : Nat, f < C.wFold ∧ d.preWFold = f := by
  obtain ⟨k, -, hd⟩ := List.mem_flatMap.mp hd
  obtain ⟨j, -, hd⟩ := List.mem_flatMap.mp hd
  obtain ⟨f, hf, rfl⟩ := List.mem_map.mp hd
  exact ⟨rfl, f, List.mem_range.mp hf, rfl⟩

/-- Two lines of which the offsets do not wrap around have one address only if the column
and the fold are the same. -/
theorem address_eq_iff {n : Nat} {d₁ d₂ : RowItem} (hbyte : 0 < C.cacheLineByte)
    (h₁ : d₁ ∈ stream C rows n) (h₂ : d₂ ∈ stream C rows n)
    (hlt₁ : lineOffset C d₁ < u64Size) (hlt₂ : lineOffset C d₂ < u64Size) :
    d₁.address = d₂.address ↔ d₁.colindex = d₂.colindex ∧ d₁.preWFold = d₂.preWFold := by
  obtain ⟨ha₁, f₁, hf₁, he₁⟩ := address_of_mem_stream h₁
  obtain ⟨ha₂, f₂, hf₂, he₂⟩ := address_of_mem_stream h₂
  rw [lineOffset, he₁, Int.toNat_natCast] at ha₁ hlt₁
  rw [lineOffset, he₂, Int.toNat_natCast] at ha₂ hlt₂
  rw [ha₁, ha₂, he₁, he₂, Nat.cast_inj]
  constructor
  · intro h
    have hoffset : (d₁.colindex * C.wFold + f₁) * C.cacheLineByte =
        (d₂.colindex * C.wFold + f₂) * C.cacheLineByte :=
      Nat.ModEq.eq_of_lt_of_lt (Nat.ModEq.add_left_cancel' _ h) hlt₁ hlt₂
    have hline := Nat.eq_of_mul_eq_mul_right hbyte hoffset
    have hfold : f₁ = f₂ := by
      have hrem := congrArg (· % C.wFold) hline
      simpa only [Nat.mul_add_mod', Nat.mod_eq_of_lt hf₁, Nat.mod_eq_of_lt hf₂] using hrem
    rw [hfold] at hline
    exact ⟨Nat.eq_of_mul_eq_mul_right C.wFold_pos (Nat.add_right_cancel hline), hfold⟩
  · rintro ⟨hc, hf⟩
    rw [hc, hf]

/-- A unit that starts at row 0, with lines of 64 bytes. -/
def config (wFold rowEnd : Nat) (hwFold : 0 < wFold) : BasisConfig where
  wFold := wFold
  xwStart := 0
  cacheLineByte := 64
  cacheLineCount := 16
  reqStart := 0
  aColSize := 4
  rowStart := 0
  rowEnd := rowEnd
  wFold_pos := hwFold

end BasisStream

end GcnSim
