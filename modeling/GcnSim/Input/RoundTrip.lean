import GcnSim.Input.Text
import Mathlib.Data.List.TakeWhile

/-!
# Reading a CSR file back

All numbers of a written file are read back, except that the first column goes through a
`float`: it is read back only if it has at most 24 significant bits.
-/

namespace GcnSim

namespace CsrText

theorem not_mem_decimal {c : Char} (hc : c.isDigit = false) (n : Nat) : c ∉ decimal n := by
  intro h
  have hdigit : c.isDigit = true := Nat.isDigit_of_mem_toDigits (by decide) (by decide) h
  rw [hc] at hdigit
  cases hdigit

theorem decimal_ne_nil (n : Nat) : decimal n ≠ [] := Nat.toDigits_ne_nil

/-- A written number is the number of its token. -/
theorem number_decimal (n : Nat) : number (decimal n) = some n := by
  have hall : (decimal n).takeWhile Char.isDigit = decimal n := by
    rw [List.takeWhile_eq_self_iff]
    intro c hc
    exact Nat.isDigit_of_mem_toDigits (by decide) (by decide) hc
  rw [number, hall, if_neg (decimal_ne_nil n)]
  exact congrArg some (Nat.ofDigitChars_toDigits (by decide) (by decide))

theorem stoull_decimal {n : Nat} (h : n < u64Size) : stoull (decimal n) = some n := by
  rw [stoull, number_decimal, Option.bind_some, toU64, if_pos h]

theorem mapM_stoull {xs : List Nat} (h : ∀ x ∈ xs, x < u64Size) :
    (xs.map decimal).mapM stoull = some xs := by
  induction xs with
  | nil => rfl
  | cons x xs ih =>
    rw [List.forall_mem_cons] at h
    rw [List.map_cons, List.mapM_cons, stoull_decimal h.1, ih h.2]
    rfl

theorem separated_append_singleton (xs : List Nat) (x : Nat) :
    separated (xs ++ [x]) = terminated xs ++ decimal x := by
  simp [separated]

theorem terminated_append_singleton (xs : List Nat) (x : Nat) :
    terminated (xs ++ [x]) = terminated xs ++ decimal x ++ [' '] := by
  simp [terminated]

/-- A trailing space after separated numbers terminates the last of them. -/
theorem separated_append_space {xs : List Nat} (h : xs ≠ []) :
    separated xs ++ [' '] = terminated xs := by
  rw [← List.dropLast_append_getLast h, separated_append_singleton, terminated_append_singleton]

/-- The tokens of numbers with a space after each. -/
theorem split_terminated (xs : List Nat) :
    Tokens.split ' ' [] (terminated xs) = xs.map decimal := by
  have h : ∀ w ∈ xs.map decimal, ' ' ∉ w := by
    intro w hw
    obtain ⟨x, -, rfl⟩ := List.mem_map.mp hw
    exact not_mem_decimal rfl x
  have hsplit := Tokens.split_terminated h []
  rw [List.append_nil, List.flatMap_map] at hsplit
  rw [terminated, hsplit]
  exact List.append_nil _

/-- The tokens of numbers with a space between them. -/
theorem split_separated {xs : List Nat} (h : xs ≠ []) :
    Tokens.split ' ' [] (separated xs) = xs.map decimal := by
  have hwords : ∀ w ∈ xs.dropLast.map decimal, ' ' ∉ w := by
    intro w hw
    obtain ⟨x, -, rfl⟩ := List.mem_map.mp hw
    exact not_mem_decimal rfl x
  have hsplit := Tokens.split_terminated hwords (decimal (xs.getLast h))
  rw [List.flatMap_map, Tokens.split_last (not_mem_decimal rfl _) (decimal_ne_nil _)] at hsplit
  conv_lhs => rw [← List.dropLast_append_getLast h, separated_append_singleton]
  conv_rhs => rw [← List.dropLast_append_getLast h, List.map_append]
  exact hsplit

/-- A line that holds the numbers, with or without a trailing space. -/
def IsLineOf (xs : List Nat) (line : List Char) : Prop :=
  line = separated xs ∨ line = terminated xs

theorem split_isLineOf {xs : List Nat} {line : List Char} (hxs : xs ≠ []) (h : IsLineOf xs line) :
    Tokens.split ' ' [] line = xs.map decimal := by
  rcases h with rfl | rfl
  · exact split_separated hxs
  · exact split_terminated xs

/-- What `GetUint64Val` makes of a line of numbers. -/
theorem getUint64Val_isLineOf {x : Nat} {xs : List Nat} {line : List Char}
    (h : IsLineOf (x :: xs) line) (hxs : ∀ y ∈ xs, y < u64Size) (isVertex : Bool) (maxV aH : Nat)
    (q : Counts) :
    getUint64Val isVertex maxV aH line q =
      (toU64 (Rounding.round 24 x)).map fun first =>
        let pushed := if isVertex then countLoop maxV aH 0 1 0 xs else ([], [])
        (first :: xs, ⟨q.edgeReqCount ++ pushed.1, q.vertexReqCount ++ pushed.2⟩) := by
  rw [getUint64Val, split_isLineOf (List.cons_ne_nil x xs) h, List.map_cons]
  simp only [stof, number_decimal, Option.map_some, Option.bind_some, mapM_stoull hxs]
  cases toU64 (Rounding.round 24 x) with
  | none => rfl
  | some first => rfl

/-- A line is read back exactly if its first number is a `float`. -/
theorem getUint64Val_eq_iff {x : Nat} {xs : List Nat} {line : List Char}
    (h : IsLineOf (x :: xs) line) (hxs : ∀ y ∈ x :: xs, y < u64Size) (isVertex : Bool)
    (maxV aH : Nat) (q : Counts) :
    ((getUint64Val isVertex maxV aH line q).map Prod.fst = some (x :: xs)) ↔
      Rounding.Representable 24 x := by
  rw [List.forall_mem_cons] at hxs
  rw [getUint64Val_isLineOf h hxs.2, Option.map_map, ← Rounding.round_eq_self_iff (by decide)]
  constructor
  · intro heq
    obtain ⟨first, hfirst, hcons⟩ := Option.map_eq_some_iff.mp heq
    rw [toU64] at hfirst
    split at hfirst
    · rw [Option.some.inj hfirst]
      exact (List.cons.inj hcons).1
    · cases hfirst
  · intro hround
    rw [hround, toU64, if_pos hxs.1]
    rfl

section Lines

theorem newline_not_mem_terminated (xs : List Nat) : '\n' ∉ terminated xs := by
  intro h
  obtain ⟨x, -, hx⟩ := List.mem_flatMap.mp h
  rcases List.mem_append.mp hx with hx | hx
  · exact not_mem_decimal rfl x hx
  · cases List.mem_singleton.mp hx

theorem newline_not_mem_separated {xs : List Nat} (h : xs ≠ []) : '\n' ∉ separated xs := by
  intro hmem
  apply newline_not_mem_terminated xs
  rw [← separated_append_space h]
  exact List.mem_append_left _ hmem

theorem ne_newline {line : List Char} (h : '\n' ∉ line) :
    ∀ c ∈ line, decide (c ≠ '\n') = true := by
  intro c hc
  rw [decide_eq_true_eq]
  rintro rfl
  exact h hc

/-- A line ends at its newline. -/
theorem getLine_append {line : List Char} (h : '\n' ∉ line) (rest : List Char) :
    getLine (line ++ '\n' :: rest) = (line, rest) := by
  rw [getLine, List.takeWhile_append_of_pos (ne_newline h),
    List.dropWhile_append_of_pos (ne_newline h)]
  simp

/-- The last line needs no newline. -/
theorem getLine_last {line : List Char} (h : '\n' ∉ line) : (getLine line).1 = line :=
  List.takeWhile_eq_self_iff.mpr (ne_newline h)

/-- The text is written by one of the converters for these row pointers and columns. -/
def Written (row col : List Nat) (text : List Char) : Prop :=
  (∃ lastRowEmpty, text = writeVt row col lastRowEmpty) ∨ text = writePy row col

/-- Both lines hold their numbers, whatever converter wrote them. -/
theorem Written.lines {row col : List Nat} {text : List Char} (h : Written row col text)
    (hrow : row ≠ []) (hcol : col ≠ []) :
    IsLineOf row (getLine text).1 ∧ IsLineOf col (getLine (getLine text).2).1 := by
  rcases h with ⟨lastRowEmpty, rfl⟩ | rfl
  · rw [writeVt, List.append_assoc, List.cons_append,
      getLine_append (newline_not_mem_separated hrow)]
    refine ⟨.inl rfl, ?_⟩
    cases lastRowEmpty with
    | false =>
      left
      exact congrArg Prod.fst (getLine_append (newline_not_mem_separated hcol) [])
    | true =>
      right
      rw [if_pos rfl, separated_append_space hcol]
      exact getLine_last (newline_not_mem_terminated col)
  · rw [writePy, getLine_append (newline_not_mem_terminated row)]
    exact ⟨.inr rfl, .inr (getLine_last (newline_not_mem_terminated col))⟩

end Lines

section Writer

theorem separated_append {xs ys : List Nat} (h : ys ≠ []) :
    separated (xs ++ ys) = terminated xs ++ separated ys := by
  rw [← List.dropLast_append_getLast h, ← List.append_assoc, separated_append_singleton,
    separated_append_singleton, terminated, terminated, List.flatMap_append, List.append_assoc,
    terminated]

theorem separated_cons (x : Nat) {xs : List Nat} (h : xs ≠ []) :
    separated (x :: xs) = decimal x ++ ' ' :: separated xs := by
  rw [← List.singleton_append, separated_append h]
  simp [terminated]

theorem separated_singleton (x : Nat) : separated [x] = decimal x := by
  simp [separated, terminated]

/-- The loop over the row pointers separates them. -/
theorem rowText_eq (vAcm : Nat) {rows : List (List Nat)} (h : rows ≠ []) :
    rowText vAcm rows = separated (Buckets.ends vAcm rows) ++ ['\n'] := by
  induction rows generalizing vAcm with
  | nil => exact absurd rfl h
  | cons r rows ih =>
    cases rows with
    | nil => rw [rowText, Buckets.ends, Buckets.ends, separated_singleton]
    | cons r' rows =>
      have hends : Buckets.ends (vAcm + r.length) (r' :: rows) ≠ [] := List.cons_ne_nil _ _
      change rowText vAcm (r :: r' :: rows) =
        separated ((vAcm + r.length) :: Buckets.ends (vAcm + r.length) (r' :: rows)) ++ ['\n']
      rw [rowText, ih _ (List.cons_ne_nil r' rows), separated_cons _ hends]
      · simp
      · exact List.cons_ne_nil r' rows

theorem lastRowText_eq {r : List Nat} (h : r ≠ []) : lastRowText r = separated r ++ ['\n'] := by
  induction r with
  | nil => exact absurd rfl h
  | cons c r ih =>
    cases r with
    | nil => rw [lastRowText, separated_singleton]
    | cons c' r =>
      rw [lastRowText, ih (List.cons_ne_nil c' r), separated_cons c (List.cons_ne_nil c' r)]
      · simp
      · exact List.cons_ne_nil c' r

/-- Rows without columns write nothing. -/
theorem colText_of_flatten_eq_nil {rows : List (List Nat)} (h : rows.flatten = []) :
    colText rows = [] := by
  induction rows with
  | nil => rfl
  | cons r rows ih =>
    rw [List.flatten_cons, List.append_eq_nil_iff] at h
    obtain ⟨rfl, hrows⟩ := h
    cases rows with
    | nil => rfl
    | cons r' rows =>
      rw [colText, ih hrows]
      · rfl
      · exact List.cons_ne_nil r' rows

/-- The loop over the columns separates them, and ends the line only in the last row. -/
theorem colText_eq {rows : List (List Nat)} (h : rows.flatten ≠ []) :
    ∃ lastRowEmpty : Bool, colText rows =
      separated rows.flatten ++ [if lastRowEmpty then ' ' else '\n'] := by
  induction rows with
  | nil => exact absurd rfl h
  | cons r rows ih =>
    cases rows with
    | nil =>
      refine ⟨false, ?_⟩
      rw [List.flatten_singleton] at h ⊢
      rw [colText, lastRowText_eq h]
      rfl
    | cons r' rows =>
      have hcol : colText (r :: r' :: rows) = terminated r ++ colText (r' :: rows) := by
        rw [colText]
        · rfl
        · exact List.cons_ne_nil r' rows
      rw [hcol, List.flatten_cons]
      by_cases hrest : (r' :: rows).flatten = []
      · refine ⟨true, ?_⟩
        rw [List.flatten_cons, hrest, List.append_nil] at h
        rw [hrest, colText_of_flatten_eq_nil hrest, List.append_nil, List.append_nil, if_pos rfl,
          separated_append_space h]
      · obtain ⟨lastRowEmpty, hlast⟩ := ih hrest
        exact ⟨lastRowEmpty, by rw [hlast, separated_append hrest, List.append_assoc]⟩

/-- The files of `vtmake` and of the tiling makers are in the format of this module. -/
theorem writeCsr_written {newCsr : List (List Nat)} (h : newCsr.flatten ≠ []) :
    Written (CsrMatrix.ofRows newCsr).row (CsrMatrix.ofRows newCsr).col (writeCsr newCsr) := by
  have hrows : newCsr ≠ [] := by
    rintro rfl
    exact h rfl
  have hends : Buckets.ends 0 newCsr ≠ [] := by
    intro hnil
    have hlen := congrArg List.length hnil
    rw [Buckets.length_ends, List.length_nil] at hlen
    exact hrows (List.length_eq_zero_iff.mp hlen)
  obtain ⟨lastRowEmpty, hcol⟩ := colText_eq h
  refine .inl ⟨lastRowEmpty, ?_⟩
  rw [writeCsr, writeVt, rowText_eq 0 hrows, hcol]
  simp only [CsrMatrix.ofRows, separated_cons 0 hends, List.append_assoc, List.cons_append,
    List.nil_append]

end Writer

/-- A file is read back as it was written exactly if the first column is a `float`. -/
theorem csrText_read_back_iff (row col : List Nat) (hrow : row.head? = some 0) (hcol : col ≠ [])
    (hrow64 : ∀ x ∈ row, x < u64Size) (hcol64 : ∀ x ∈ col, x < u64Size) (text : List Char)
    (htext : Written row col text) (maxV aH : Nat) (q : Counts) :
    ((getUint64Val true maxV aH (getLine text).1 q).map Prod.fst = some row ∧
      (getUint64Val false maxV aH (getLine (getLine text).2).1 q).map Prod.fst = some col) ↔
      Rounding.Representable 24 (col.headD 0) := by
  cases row with
  | nil => cases hrow
  | cons x row =>
    cases col with
    | nil => exact absurd rfl hcol
    | cons c col =>
      obtain ⟨hline, hline'⟩ := htext.lines (List.cons_ne_nil x row) hcol
      have hx : Rounding.Representable 24 x := by
        obtain rfl : x = 0 := by simpa using hrow
        exact Rounding.representable_of_lt (by decide)
      rw [getUint64Val_eq_iff hline hrow64, getUint64Val_eq_iff hline' hcol64, List.headD_cons]
      exact and_iff_right hx

theorem csrText_read_back_two_columns :
    ((getUint64Val true 4 1 (getLine (writePy [0, 2] [5, 16777217])).1 ⟨[], []⟩).map Prod.fst =
        some [0, 2] ∧
      (getUint64Val false 4 1 (getLine (getLine (writePy [0, 2] [5, 16777217])).2).1 ⟨[], []⟩).map
        Prod.fst = some [5, 16777217]) ↔ Rounding.Representable 24 5 :=
  csrText_read_back_iff [0, 2] [5, 16777217] rfl (List.cons_ne_nil _ _) (by decide) (by decide) _
    (.inr rfl) 4 1 ⟨[], []⟩

/-- The column `2 ^ 24 + 1` is read back as `2 ^ 24`. -/
theorem csrText_large_column_not_read_back :
    ¬ ((getUint64Val true 4 1 (getLine (writePy [0, 1] [16777217])).1 ⟨[], []⟩).map Prod.fst =
        some [0, 1] ∧
      (getUint64Val false 4 1 (getLine (getLine (writePy [0, 1] [16777217])).2).1 ⟨[], []⟩).map
        Prod.fst = some [16777217]) := by
  decide +kernel

end CsrText

end GcnSim
