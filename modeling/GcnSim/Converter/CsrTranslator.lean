import GcnSim.Cache.Replacement
import GcnSim.Input.RoundTrip

/-!
# The CSR translator

`csr_translator` counts the edges of every source in `rowindex`, collects their destinations in
`colindex`, adds up `rowindex` in place and sorts the rows. The loop that adds up looks back at
`rowindex[i-1]` under the test `v != 0` where it means `i != 0`: its first round reads
`rowindex[-1]`, and what it finds there is added to every row pointer. The variable `vertex` is
declared anew for every token, so that a destination is pushed on the row that is left over in
it.
-/

namespace GcnSim

open CsrText

/-- What undefined reads of the translator return: `rowindex[-1]`, and `vertex` behind the
first token of line `i`. -/
structure TranslatorJunk where
  rowBefore : Int
  vertex : Nat → Int

/-- The variables of the translator. `rowReads` are the indices at which `rowindex` was read. -/
structure CsrTranslator where
  rowindex : List Int
  colindex : List (List Nat)
  rowReads : List Int
  deriving DecidableEq, Repr

namespace CsrTranslator

/-- `stoi`, an exception from `2 ^ 31` on. -/
def stoi (temp : List Char) : Option Nat :=
  (number temp).bind fun n => if n < 2147483648 then some n else none

/-- The variables in front of the edges. -/
def start (v : Nat) : CsrTranslator := ⟨List.replicate v 0, List.replicate v [], []⟩

/-- `rowindex[vertex]++`. -/
def countRow (vertex : Nat) (t : CsrTranslator) : CsrTranslator :=
  { t with
    rowindex := t.rowindex.modify vertex fun n => int32 (n + 1)
    rowReads := t.rowReads ++ [(vertex : Int)] }

/-- `colindex[vertex].push_back`. -/
def pushCol (vertex : Int) (t : CsrTranslator) (col : Nat) : CsrTranslator :=
  if 0 ≤ vertex then { t with colindex := t.colindex.modify vertex.toNat (· ++ [col]) } else t

/-- One line of the edge list; `vertex` is what is left over behind its first token. -/
def readLine (vertex : Int) (line : List Char) (t : CsrTranslator) : Option CsrTranslator :=
  match Tokens.split ' ' [] line with
  | [] => some t
  | tmp :: tmps =>
    match stoi tmp, tmps.mapM stoi with
    | some first, some cols => some (cols.foldl (pushCol vertex) (t.countRow first))
    | _, _ => none

/-- The next `e` lines of the file, from line `i` on. -/
def readLines (junk : TranslatorJunk) : (e i : Nat) → List Char → CsrTranslator →
    Option CsrTranslator
  | 0, _, _, t => some t
  | e + 1, i, text, t =>
    (readLine (junk.vertex i) (getLine text).1 t).bind
      (readLines junk e (i + 1) (getLine text).2)

/-- One round of the loop that adds up. -/
def accumulateRow (junk : TranslatorJunk) (v : Nat) (t : CsrTranslator) (i : Nat) :
    CsrTranslator :=
  let t := if v ≠ 0 then
      let before := if i = 0 then junk.rowBefore else t.rowindex.getD (i - 1) 0
      { t with
        rowindex := t.rowindex.modify i fun n => int32 (n + before)
        rowReads := t.rowReads ++ [(i : Int), (i : Int) - 1] }
    else t
  { t with colindex := t.colindex.modify i fun cols => cols.mergeSort (· ≤ ·) }

/-- The first `n` rounds of the loop that adds up. -/
def accumulate (junk : TranslatorJunk) (v n : Nat) (t : CsrTranslator) : CsrTranslator :=
  (List.range n).foldl (accumulateRow junk v) t

/-- An `int` as `operator<<` writes it. -/
def intText (n : Int) : List Char := if 0 ≤ n then decimal n.toNat else '-' :: decimal n.natAbs

/-- The row pointers, with a space after each but the last. -/
def rowText : List Int → List Char
  | [] => []
  | [n] => intText n ++ ['\n']
  | n :: ns => intText n ++ ' ' :: rowText ns

/-- The columns, with a space after each but the last one of the last row. -/
def colText : List (List Nat) → List Char
  | [] => []
  | [r] => separated r
  | r :: rows => terminated r ++ colText rows

/-- The output file, with the reads of `rowindex`. -/
def output (v : Nat) (t : CsrTranslator) : CsrTranslator × List Char :=
  ({ t with rowReads := t.rowReads ++ (List.range v).map Nat.cast },
    decimal 0 ++ ' ' :: rowText t.rowindex ++ colText t.colindex)

/-- `main` on the text of the input file: the variables at the end and the output file. `none`
is an exception. -/
def main (junk : TranslatorJunk) (text : List Char) : Option (CsrTranslator × List Char) :=
  match stoi (getLine text).1, stoi (getLine (getLine text).2).1 with
  | some v, some e =>
    (readLines junk e 0 (getLine (getLine text).2).2 (start v)).map fun t =>
      (t.accumulate junk v v).output v
  | _, _ => none

/-- The input file for `v` vertices and a list of edges. -/
def inputText (v : Nat) (edges : List (Nat × Nat)) : List Char :=
  decimal v ++ '\n' :: decimal edges.length ++ '\n' ::
    edges.flatMap fun e => decimal e.1 ++ ' ' :: decimal e.2 ++ ['\n']

/-- The number of edges from a vertex. -/
def outDegree (edges : List (Nat × Nat)) (u : Nat) : Nat := edges.countP fun e => e.1 = u

/-- The sum of the degrees up to a vertex. -/
def prefixSum (edges : List (Nat × Nat)) (u : Nat) : Nat :=
  ((List.range (u + 1)).map (outDegree edges)).sum

/-- The destinations of a vertex, in the order of the edges. -/
def dests (edges : List (Nat × Nat)) (u : Nat) : List Nat :=
  (edges.filter fun e => e.1 = u).map Prod.snd

/-- The first line has the prefix sums of the degrees. -/
def RowLine (v : Nat) (edges : List (Nat × Nat)) (out : List Char) : Prop :=
  Tokens.split ' ' [] (getLine out).1 =
    (0 :: (List.range v).map (prefixSum edges)).map decimal

/-- The second line has the sorted destinations of the vertices. -/
def ColLine (v : Nat) (edges : List (Nat × Nat)) (out : List Char) : Prop :=
  Tokens.split ' ' [] (getLine (getLine out).2).1 =
    ((List.range v).flatMap fun u => (dests edges u).mergeSort (· ≤ ·)).map decimal

/-- The translator read `rowindex` at valid indices only and wrote the CSR of the edges. -/
structure Translates (v : Nat) (edges : List (Nat × Nat)) (r : CsrTranslator × List Char) :
    Prop where
  reads : ∀ k ∈ r.1.rowReads, 0 ≤ k ∧ k < v
  rowLine : RowLine v edges r.2
  colLine : ColLine v edges r.2

end CsrTranslator

/-- The variable `vertex` of a line keeps the number of its first token. -/
def TranslatorJunk.KeepsVertex (junk : TranslatorJunk) (edges : List (Nat × Nat)) : Prop :=
  ∀ i e, edges[i]? = some e → junk.vertex i = e.1

namespace CsrTranslator

section Input

theorem stoi_decimal {n : Nat} (h : n < 2147483648) : stoi (decimal n) = some n := by
  rw [stoi, number_decimal, Option.bind_some, if_pos h]

/-- The effect of the line of an edge. -/
def readEdge (junk : TranslatorJunk) (t : CsrTranslator) (e : (Nat × Nat) × Nat) :
    CsrTranslator :=
  pushCol (junk.vertex e.2) (t.countRow e.1.1) e.1.2

theorem readLine_edge (vertex : Int) {e : Nat × Nat} (hsource : e.1 < 2147483648)
    (hdest : e.2 < 2147483648) (t : CsrTranslator) :
    readLine vertex (decimal e.1 ++ ' ' :: decimal e.2) t =
      some (pushCol vertex (t.countRow e.1) e.2) := by
  have hsplit : Tokens.split ' ' [] (decimal e.1 ++ ' ' :: decimal e.2) =
      [decimal e.1, decimal e.2] := by
    have h := split_separated (List.cons_ne_nil e.1 [e.2])
    rwa [separated_cons e.1 (List.cons_ne_nil e.2 []), separated_singleton] at h
  have hmap : [decimal e.2].mapM stoi = some [e.2] := by
    rw [List.mapM_cons, stoi_decimal hdest]
    rfl
  simp only [readLine, hsplit, stoi_decimal hsource, hmap, List.foldl_cons, List.foldl_nil]

/-- The lines of the edges are read one by one. -/
theorem readLines_edges (junk : TranslatorJunk) {edges : List (Nat × Nat)}
    (h : ∀ e ∈ edges, e.1 < 2147483648 ∧ e.2 < 2147483648) (i : Nat) (t : CsrTranslator) :
    readLines junk edges.length i
        (edges.flatMap fun e => decimal e.1 ++ ' ' :: decimal e.2 ++ ['\n']) t =
      some ((edges.zipIdx i).foldl (readEdge junk) t) := by
  induction edges generalizing i t with
  | nil => rfl
  | cons e edges ih =>
    rw [List.forall_mem_cons] at h
    have hline : '\n' ∉ decimal e.1 ++ ' ' :: decimal e.2 := by
      intro hmem
      rcases List.mem_append.mp hmem with hmem | hmem
      · exact not_mem_decimal rfl _ hmem
      · rcases List.mem_cons.mp hmem with hmem | hmem
        · cases hmem
        · exact not_mem_decimal rfl _ hmem
    rw [List.flatMap_cons, List.append_assoc, List.singleton_append, List.length_cons, readLines,
      getLine_append hline, readLine_edge _ h.1.1 h.1.2, Option.bind_some, ih h.2,
      List.zipIdx_cons, List.foldl_cons, readEdge]

/-- The translator runs on every edge list. -/
theorem main_eq (junk : TranslatorJunk) {v : Nat} {edges : List (Nat × Nat)}
    (hv : v < 2147483648) (he : edges.length < 2147483648)
    (hedges : ∀ e ∈ edges, e.1 < v ∧ e.2 < v) :
    main junk (inputText v edges) = some (output v
      ((edges.zipIdx.foldl (readEdge junk) (start v)).accumulate junk v v)) := by
  have hbound : ∀ e ∈ edges, e.1 < 2147483648 ∧ e.2 < 2147483648 := by
    intro e hmem
    obtain ⟨hsource, hdest⟩ := hedges e hmem
    exact ⟨hsource.trans hv, hdest.trans hv⟩
  have hfirst : getLine (inputText v edges) = (decimal v, decimal edges.length ++ '\n' ::
      edges.flatMap fun e => decimal e.1 ++ ' ' :: decimal e.2 ++ ['\n']) := by
    rw [inputText, List.append_assoc, List.cons_append, getLine_append (not_mem_decimal rfl v)]
  simp only [main, hfirst, getLine_append (not_mem_decimal rfl edges.length), stoi_decimal hv,
    stoi_decimal he, readLines_edges junk hbound 0 (start v), Option.map_some]

end Input

section Reads

variable {junk : TranslatorJunk} {v : Nat}

theorem accumulateRow_reads (hv : 0 < v) (t : CsrTranslator) (i : Nat) :
    (t.accumulateRow junk v i).rowReads = t.rowReads ++ [(i : Int), (i : Int) - 1] := by
  simp only [accumulateRow, if_pos hv.ne']

/-- The first round of the loop reads in front of `rowindex`. -/
theorem accumulate_reads (hv : 0 < v) (t : CsrTranslator) {n : Nat} (hn : 0 < n) :
    -1 ∈ (t.accumulate junk v n).rowReads := by
  induction n, hn using Nat.le_induction with
  | base => simp [accumulate, accumulateRow_reads hv]
  | succ n _ ih =>
    rw [accumulate, List.range_succ, List.foldl_append, List.foldl_cons, List.foldl_nil,
      accumulateRow_reads hv]
    exact List.mem_append_left _ ih

/-- So no output is one of a translator that reads at valid indices only. -/
theorem output_not_translates (hv : 0 < v) (t : CsrTranslator) (edges : List (Nat × Nat)) :
    ¬ Translates v edges (output v (t.accumulate junk v v)) := by
  intro h
  have hread := h.reads (-1) (List.mem_append_left _ (accumulate_reads hv t hv))
  exact absurd hread.1 (by decide)

end Reads

section Rows

variable {junk : TranslatorJunk} {v : Nat} {edges : List (Nat × Nat)}

theorem modify_map_range {α : Type} (f : Nat → α) (g : α → α) (u : Nat) :
    ((List.range v).map f).modify u g =
      (List.range v).map fun k => if k = u then g (f k) else f k := by
  apply List.ext_getElem
  · simp
  · intro k h₁ h₂
    simp only [List.getElem_modify, List.getElem_map, List.getElem_range, eq_comm (a := k)]

/-- One more entry is done. -/
theorem modify_map_lt {α : Type} {f g : Nat → α} {h : α → α} {n : Nat} (hn : h (g n) = f n) :
    ((List.range v).map fun u => if u < n then f u else g u).modify n h =
      (List.range v).map fun u => if u < n + 1 then f u else g u := by
  rw [modify_map_range]
  apply List.map_congr_left
  intro u _
  rcases Nat.lt_trichotomy u n with hlt | rfl | hgt
  · rw [if_neg hlt.ne, if_pos hlt, if_pos (by omega)]
  · rw [if_pos rfl, if_neg (Nat.lt_irrefl u), if_pos (Nat.lt_succ_self u), hn]
  · rw [if_neg hgt.ne', if_neg hgt.not_gt, if_neg (by omega)]

theorem outDegree_concat (e : Nat × Nat) (u : Nat) :
    outDegree (edges ++ [e]) u = outDegree edges u + if u = e.1 then 1 else 0 := by
  simp [outDegree, List.countP_append, List.countP_cons, eq_comm]

theorem dests_concat (e : Nat × Nat) (u : Nat) :
    dests (edges ++ [e]) u = dests edges u ++ if u = e.1 then [e.2] else [] := by
  by_cases he : e.1 = u
  · simp [dests, he]
  · simp [dests, he, Ne.symm he]

/-- The edges are counted and collected by their source. -/
theorem readEdges_rows (hkeeps : junk.KeepsVertex edges) (he : edges.length < 2147483648) :
    (edges.zipIdx.foldl (readEdge junk) (start v)).rowindex =
        (List.range v).map (fun u => (outDegree edges u : Int)) ∧
      (edges.zipIdx.foldl (readEdge junk) (start v)).colindex =
        (List.range v).map (dests edges) := by
  induction edges using List.reverseRecOn with
  | nil =>
    have hdests : dests [] = fun _ => [] := rfl
    simp [start, outDegree, hdests]
  | append_singleton edges e ih =>
    rw [List.length_append, List.length_singleton] at he
    have hprev : junk.KeepsVertex edges := by
      intro i e' hi
      have hlt : i < edges.length := List.getElem?_eq_some_iff.mp hi |>.1
      exact hkeeps i e' (by rw [List.getElem?_append_left hlt, hi])
    have hvertex : junk.vertex edges.length = e.1 := hkeeps _ e List.getElem?_concat_length
    obtain ⟨hrow, hcol⟩ := ih hprev (by omega)
    have hcount : ∀ u, outDegree edges u ≤ edges.length := fun u => List.countP_le_length
    rw [List.zipIdx_append, List.foldl_append, Nat.zero_add, List.zipIdx_singleton,
      List.foldl_cons, List.foldl_nil]
    generalize edges.zipIdx.foldl (readEdge junk) (start v) = t at hrow hcol ⊢
    simp only [readEdge, hvertex, pushCol, Int.natCast_nonneg, if_true, Int.toNat_natCast,
      countRow, hrow, hcol, modify_map_range]
    constructor
    · apply List.map_congr_left
      intro u _
      rw [outDegree_concat]
      split
      · rw [← Nat.cast_succ]
        exact int32_of_lt (by have := hcount u; omega)
      · simp
    · apply List.map_congr_left
      intro u _
      rw [dests_concat]
      split <;> simp

theorem prefixSum_zero : prefixSum edges 0 = outDegree edges 0 := by
  simp [prefixSum]

theorem prefixSum_succ (u : Nat) :
    prefixSum edges (u + 1) = prefixSum edges u + outDegree edges (u + 1) := by
  rw [prefixSum, List.range_succ, List.map_append, List.sum_append, prefixSum, List.map_singleton,
    List.sum_singleton]

/-- The prefix sums count edges. -/
theorem prefixSum_le (u : Nat) : prefixSum edges u ≤ edges.length := by
  have hcount : prefixSum edges u = edges.countP fun e => e.1 ≤ u := by
    induction u with
    | zero => simp [prefixSum_zero, outDegree]
    | succ u ih =>
      rw [prefixSum_succ, ih, outDegree]
      clear ih
      induction edges with
      | nil => rfl
      | cons e edges ih =>
        simp only [List.countP_cons, decide_eq_true_eq]
        split <;> split <;> split <;> omega
  rw [hcount]
  exact List.countP_le_length

/-- What `rowindex[-1]` holds is added to every prefix sum. -/
theorem accumulate_rows (t : CsrTranslator)
    (hrow : t.rowindex = (List.range v).map fun u => (outDegree edges u : Int))
    (hcol : t.colindex = (List.range v).map (dests edges)) {n : Nat} (hn : n ≤ v) :
    (t.accumulate junk v n).rowindex = (List.range v).map (fun u => if u < n then
        int32 (junk.rowBefore + prefixSum edges u) else (outDegree edges u : Int)) ∧
      (t.accumulate junk v n).colindex = (List.range v).map (fun u => if u < n then
        (dests edges u).mergeSort (· ≤ ·) else dests edges u) := by
  induction n with
  | zero => simp [accumulate, hrow, hcol]
  | succ n ih =>
    obtain ⟨ihrow, ihcol⟩ := ih (by omega)
    have hv : v ≠ 0 := by omega
    have hsplit : t.accumulate junk v (n + 1) =
        (t.accumulate junk v n).accumulateRow junk v n := by
      rw [accumulate, List.range_succ, List.foldl_append, List.foldl_cons, List.foldl_nil,
        accumulate]
    -- The entry in front of row `n` is added up already, if there is one.
    have hbefore : int32 ((outDegree edges n : Int) + (if n = 0 then junk.rowBefore else
        ((List.range v).map fun u => if u < n then int32 (junk.rowBefore + prefixSum edges u)
          else (outDegree edges u : Int)).getD (n - 1) 0)) =
        int32 (junk.rowBefore + prefixSum edges n) := by
      cases n with
      | zero => rw [if_pos rfl, prefixSum_zero, add_comm]
      | succ n =>
        rw [if_neg (Nat.succ_ne_zero n), Nat.add_sub_cancel, prefixSum_succ,
          List.getD_eq_getElem?_getD, List.getElem?_map, List.getElem?_range (by omega)]
        simp only [Option.map_some, Option.getD_some, Nat.lt_succ_self, if_true, int32]
        omega
    rw [hsplit]
    simp only [accumulateRow, if_pos hv, ihrow, ihcol]
    exact ⟨modify_map_lt hbefore, modify_map_lt rfl⟩

end Rows

section Output

theorem not_mem_intText {c : Char} (hdigit : c.isDigit = false) (hminus : c ≠ '-') (n : Int) :
    c ∉ intText n := by
  unfold intText
  split
  · exact not_mem_decimal hdigit _
  · rw [List.mem_cons, not_or]
    exact ⟨hminus, not_mem_decimal hdigit _⟩

theorem intText_ne_nil (n : Int) : intText n ≠ [] := by
  unfold intText
  split
  · exact decimal_ne_nil _
  · exact List.cons_ne_nil _ _

/-- An `int` is written as a natural number only if it is this number. -/
theorem intText_eq_decimal_iff {n : Int} {m : Nat} : intText n = decimal m ↔ n = m := by
  unfold intText
  split
  next hnonneg =>
    rw [← Int.toNat_of_nonneg hnonneg, Nat.cast_inj, Int.toNat_natCast]
    refine ⟨fun h => ?_, congrArg decimal⟩
    have hnumber := congrArg number h
    rwa [number_decimal, number_decimal, Option.some.injEq] at hnumber
  next hneg =>
    refine iff_of_false (fun h => ?_) (by omega)
    have hmem : '-' ∈ decimal m := by
      rw [← h]
      exact List.mem_cons_self
    exact not_mem_decimal rfl m hmem

/-- The tokens of the row pointers. -/
theorem rowText_eq {rows : List Int} (h : rows ≠ []) :
    ∃ line, rowText rows = line ++ ['\n'] ∧ '\n' ∉ line ∧
      Tokens.split ' ' [] line = rows.map intText := by
  induction rows with
  | nil => exact absurd rfl h
  | cons n rows ih =>
    have hline := not_mem_intText (c := '\n') rfl (by decide) n
    have hspace := not_mem_intText (c := ' ') rfl (by decide) n
    cases rows with
    | nil => exact ⟨intText n, rfl, hline, Tokens.split_last hspace (intText_ne_nil n)⟩
    | cons n' rows =>
      obtain ⟨line, htext, hnewline, hsplit⟩ := ih (List.cons_ne_nil _ _)
      refine ⟨intText n ++ ' ' :: line, ?_, ?_, ?_⟩
      · rw [rowText, htext, List.append_assoc, List.cons_append]
        exact List.cons_ne_nil _ _
      · rw [List.mem_append, List.mem_cons, not_or, not_or]
        exact ⟨hline, by decide, hnewline⟩
      · rw [Tokens.split_append hspace, List.nil_append, Tokens.split, if_pos rfl, hsplit]
        rfl

/-- The tokens of the columns. -/
theorem colText_eq (rows : List (List Nat)) :
    '\n' ∉ colText rows ∧ Tokens.split ' ' [] (colText rows) = rows.flatten.map decimal := by
  induction rows with
  | nil => exact ⟨List.not_mem_nil, rfl⟩
  | cons r rows ih =>
    cases rows with
    | nil =>
      rw [colText, List.flatten_cons, List.flatten_nil, List.append_nil]
      by_cases hr : r = []
      · subst hr
        exact ⟨List.not_mem_nil, rfl⟩
      · exact ⟨newline_not_mem_separated hr, split_separated hr⟩
    | cons r' rows =>
      have hwords : ∀ w ∈ r.map decimal, ' ' ∉ w := by
        intro w hw
        obtain ⟨x, -, rfl⟩ := List.mem_map.mp hw
        exact not_mem_decimal rfl x
      have hsplit := Tokens.split_terminated hwords (colText (r' :: rows))
      rw [List.flatMap_map, ih.2] at hsplit
      refine ⟨?_, ?_⟩
      · rw [colText, List.mem_append, not_or]
        exact ⟨newline_not_mem_terminated r, ih.1⟩
        exact List.cons_ne_nil _ _
      · rw [colText, List.flatten_cons, List.map_append]
        exact hsplit
        exact List.cons_ne_nil _ _

/-- The tokens of the two lines of the output. -/
theorem output_lines (v : Nat) {t : CsrTranslator} (h : t.rowindex ≠ []) :
    Tokens.split ' ' [] (getLine (t.output v).2).1 =
        decimal 0 :: t.rowindex.map intText ∧
      Tokens.split ' ' [] (getLine (getLine (t.output v).2).2).1 =
        t.colindex.flatten.map decimal := by
  obtain ⟨line, htext, hnewline, hsplit⟩ := rowText_eq h
  obtain ⟨hcolLine, hcolSplit⟩ := colText_eq t.colindex
  have hrowLine : '\n' ∉ decimal 0 ++ ' ' :: line := by
    rw [List.mem_append, List.mem_cons, not_or, not_or]
    exact ⟨not_mem_decimal rfl 0, by decide, hnewline⟩
  have hout : (t.output v).2 = decimal 0 ++ ' ' :: line ++ '\n' :: colText t.colindex := by
    simp only [output, htext, List.append_assoc, List.cons_append]
    rfl
  rw [hout, getLine_append hrowLine]
  refine ⟨?_, ?_⟩
  · rw [Tokens.split_append (not_mem_decimal rfl 0), List.nil_append, Tokens.split, if_pos rfl,
      hsplit]
  · rw [getLine_last hcolLine]
    exact hcolSplit

end Output

section Main

variable {junk : TranslatorJunk} {v : Nat} {edges : List (Nat × Nat)}

/-- The row pointers are right exactly if there is a zero in front of `rowindex`. -/
theorem shifted_iff (hv : 1 ≤ v) (he : edges.length < 2147483648) :
    (((List.range v).map fun u => int32 (junk.rowBefore + prefixSum edges u)).map intText =
      ((List.range v).map (prefixSum edges)).map decimal) ↔ int32 junk.rowBefore = 0 := by
  have hshift : ∀ u, int32 (junk.rowBefore + prefixSum edges u) = prefixSum edges u ↔
      int32 junk.rowBefore = 0 := by
    intro u
    have hle : prefixSum edges u ≤ edges.length := prefixSum_le u
    simp only [int32]
    omega
  rw [List.map_map, List.map_map]
  constructor
  · intro h
    have hfirst := List.map_inj_left.mp h 0 (List.mem_range.mpr hv)
    exact (hshift 0).mp (intText_eq_decimal_iff.mp hfirst)
  · intro h
    refine List.map_congr_left fun u _ => ?_
    exact intText_eq_decimal_iff.mpr ((hshift u).mpr h)

/-- On every edge list the translator reads in front of `rowindex`. If `vertex` keeps its value,
it writes the sorted destinations, and row pointers that are shifted by what it read: they are
right exactly if it read a zero. -/
theorem main_not_translates (v : Nat) (edges : List (Nat × Nat)) (junk : TranslatorJunk)
    (hv : 1 ≤ v) (hvInt : v < 2147483648) (heInt : edges.length < 2147483648)
    (hedges : ∀ e ∈ edges, e.1 < v ∧ e.2 < v) :
    ∃ r, main junk (inputText v edges) = some r ∧ ¬ Translates v edges r ∧
      (junk.KeepsVertex edges →
        (RowLine v edges r.2 ↔ int32 junk.rowBefore = 0) ∧ ColLine v edges r.2) := by
  refine ⟨_, main_eq junk hvInt heInt hedges, output_not_translates hv _ edges, ?_⟩
  intro hkeeps
  obtain ⟨hrow, hcol⟩ := readEdges_rows (v := v) hkeeps heInt
  generalize edges.zipIdx.foldl (readEdge junk) (start v) = t at hrow hcol ⊢
  obtain ⟨hsums, hsorted⟩ := @accumulate_rows junk v edges t hrow hcol v le_rfl
  have hall : ∀ {α : Type} (f g : Nat → α),
      ((List.range v).map fun u => if u < v then f u else g u) = (List.range v).map f := by
    intro α f g
    refine List.map_congr_left fun u hu => ?_
    rw [if_pos (List.mem_range.mp hu)]
  rw [hall] at hsums hsorted
  have hne : (t.accumulate junk v v).rowindex ≠ [] := by
    rw [hsums, Ne, List.map_eq_nil_iff, List.range_eq_nil]
    omega
  obtain ⟨hrowLine, hcolLine⟩ := output_lines v hne
  refine ⟨?_, ?_⟩
  · rw [RowLine, hrowLine, hsums, List.map_cons, List.cons_eq_cons, and_iff_right rfl]
    exact shifted_iff hv heInt
  · rw [ColLine, hcolLine, hsorted, List.flatMap_def]

/-- A zero in front of `rowindex`, and a `vertex` that keeps the sources 1, 0 and 1. -/
def zeroBefore : TranslatorJunk := ⟨0, fun i => if i = 1 then 0 else 1⟩

theorem main_not_translates_threeEdges :
    (∀ e ∈ [(1, 1), (0, 1), (1, 0)], e.1 < 2 ∧ e.2 < 2) ∧
    ∃ r, main zeroBefore (inputText 2 [(1, 1), (0, 1), (1, 0)]) = some r ∧
      ¬ Translates 2 [(1, 1), (0, 1), (1, 0)] r ∧
      (zeroBefore.KeepsVertex [(1, 1), (0, 1), (1, 0)] →
        (RowLine 2 [(1, 1), (0, 1), (1, 0)] r.2 ↔ int32 zeroBefore.rowBefore = 0) ∧
          ColLine 2 [(1, 1), (0, 1), (1, 0)] r.2) := by
  have hedges : ∀ e ∈ [(1, 1), (0, 1), (1, 0)], e.1 < 2 ∧ e.2 < 2 := by decide
  exact ⟨hedges, main_not_translates 2 _ zeroBefore (by decide) (by decide) (by decide) hedges⟩

/-- A one in front of `rowindex`, and a `vertex` that keeps the source 0. -/
def oneBefore : TranslatorJunk := ⟨1, fun _ => 0⟩

/-- One vertex with an edge to itself: `rowindex` is read at `-1`, and the last row pointer
is 2. -/
theorem oneEdge_not_translates :
    main oneBefore (inputText 1 [(0, 0)]) =
      some (⟨[2], [[0]], [0, 0, -1, 0]⟩, ['0', ' ', '2', '\n', '0']) ∧
    ¬ Translates 1 [(0, 0)] (⟨[2], [[0]], [0, 0, -1, 0]⟩, ['0', ' ', '2', '\n', '0']) := by
  refine ⟨by decide +kernel, fun h => ?_⟩
  have hread := h.reads (-1) (by decide)
  exact absurd hread.1 (by decide)

end Main

end CsrTranslator

end GcnSim
