import GcnSim.Lib.Buckets
import GcnSim.Lib.Blocks
import Mathlib.Data.Finmap
import Mathlib.Data.Finset.Sort

/-!
# From an edge list to a CSR file

`sorter.py` collects the destinations of every source in a dictionary of sets and writes
them sorted, one edge a line. `converter.py` reads these lines and appends to the row
array whenever the source changes: once for every source passed over, and at the end once
for the last source and once for every vertex that is left.
-/

namespace GcnSim

namespace EdgeList

/-- `adj_dict`, a dictionary from sources to sets of destinations. -/
abbrev AdjDict := Finmap fun _ : Nat => Finset Nat

/-- One line of the edge list in `sorter.py`. -/
def addEdge (adjDict : AdjDict) (e : Nat × Nat) : AdjDict :=
  match adjDict.lookup e.1 with
  | none => adjDict.insert e.1 {e.2}
  | some s => adjDict.insert e.1 (insert e.2 s)

/-- The lines that `sorter.py` writes. -/
def sorter (edges : List (Nat × Nat)) : List (Nat × Nat) :=
  let adjDict := edges.foldl addEdge ∅
  (adjDict.keys.sort (· ≤ ·)).flatMap fun key =>
    (((adjDict.lookup key).getD ∅).sort (· ≤ ·)).map (key, ·)

/-- The variables of `converter.py`. -/
structure State where
  row : List Nat
  col : List Nat
  rowIdentifier : Nat
  rowNum : Nat
  maxVal : Nat
  totalRow : Nat
  deriving DecidableEq, Repr

/-- The variables before the first line. -/
def start : State := ⟨[0], [], 0, 0, 0, 1⟩

/-- The update of `max_val` with one endpoint. -/
def raise (maxVal x : Nat) : Nat := if maxVal ≤ x then x else maxVal

/-- The body of the loop over the lines of the sorted list. -/
def readLine (s : State) (e : Nat × Nat) : State :=
  let maxVal := raise (raise s.maxVal e.1) e.2
  if e.1 = s.rowIdentifier then
    { s with
      col := s.col ++ [e.2]
      rowNum := s.rowNum + 1
      maxVal := maxVal }
  else
    let gap := if e.1 - s.rowIdentifier ≥ 2 then e.1 - s.rowIdentifier - 1 else 0
    { row := s.row ++ List.replicate gap s.rowNum ++ [s.rowNum]
      col := s.col ++ [e.2]
      rowIdentifier := e.1
      rowNum := s.rowNum + 1
      maxVal := maxVal
      totalRow := s.totalRow + gap + 1 }

/-- The two lines that `converter.py` writes: the row array, with the last row and the
padding, and the columns. -/
def converter (lines : List (Nat × Nat)) : List Nat × List Nat :=
  let s := lines.foldl readLine start
  (s.row ++ [s.rowNum] ++ List.replicate (s.maxVal - s.totalRow) s.rowNum, s.col)

/-- The set of destinations of a vertex. -/
def destSet (edges : List (Nat × Nat)) (u : Nat) : Finset Nat :=
  ((edges.filter fun e => e.1 = u).map Prod.snd).toFinset

/-- The destinations of a vertex, ascending and without duplicates. -/
def dests (edges : List (Nat × Nat)) (u : Nat) : List Nat := (destSet edges u).sort (· ≤ ·)

/-- The largest endpoint of any edge. -/
def maxEndpoint (edges : List (Nat × Nat)) : Nat := edges.foldr (fun e n => max (max e.1 e.2) n) 0

/-- The largest source of any edge. -/
def maxSource (edges : List (Nat × Nat)) : Nat := edges.foldr (fun e n => max e.1 n) 0

/-- The row array and the columns are a CSR file of the `n` vertices of the graph. -/
structure IsCsrOf (edges : List (Nat × Nat)) (out : List Nat × List Nat) : Prop where
  row_length : out.1.length = (1 + maxEndpoint edges) + 1
  row_zero : out.1[0]? = some 0
  slice : ∀ u < 1 + maxEndpoint edges, ∃ p q, out.1[u]? = some p ∧ out.1[u + 1]? = some q ∧
    (out.2.drop p).take (q - p) = dests edges u

theorem destSet_append_singleton (edges : List (Nat × Nat)) (e : Nat × Nat) (u : Nat) :
    destSet (edges ++ [e]) u =
      if e.1 = u then insert e.2 (destSet edges u) else destSet edges u := by
  rw [destSet, List.filter_append, List.map_append, List.toFinset_append]
  by_cases he : e.1 = u
  · simp [he, destSet, Finset.union_comm]
  · simp [he, destSet]

/-- What `sorter.py` has collected for a source. -/
theorem lookup_foldl_addEdge (edges : List (Nat × Nat)) (u : Nat) :
    (edges.foldl addEdge ∅).lookup u =
      if u ∈ edges.map Prod.fst then some (destSet edges u) else none := by
  induction edges using List.reverseRecOn generalizing u with
  | nil => rfl
  | append_singleton edges e ih =>
    rw [List.foldl_append, List.foldl_cons, List.foldl_nil, addEdge, ih,
      destSet_append_singleton]
    by_cases he : e.1 = u
    · subst he
      by_cases hmem : e.1 ∈ edges.map Prod.fst
      · simp [hmem]
      · have hnil : destSet edges e.1 = ∅ := by
          rw [destSet, List.filter_eq_nil_iff.mpr]
          · rfl
          · intro a ha hae
            rw [decide_eq_true_eq] at hae
            exact hmem (hae ▸ List.mem_map_of_mem ha)
        simp [hmem, hnil]
    · have hadd : ∀ d : AdjDict, ∀ s, (d.insert e.1 s).lookup u = d.lookup u := fun d s =>
        Finmap.lookup_insert_of_ne d (Ne.symm he)
      have hmem : u ∈ (edges ++ [e]).map Prod.fst ↔ u ∈ edges.map Prod.fst := by
        simp [Ne.symm he]
      split
      · rw [hadd, ih]
        simp only [hmem, if_neg he]
      · rw [hadd, ih]
        simp only [hmem, if_neg he]

theorem dests_eq_nil {edges : List (Nat × Nat)} {u : Nat} (h : u ∉ edges.map Prod.fst) :
    dests edges u = [] := by
  have hnil : (edges.filter fun e => e.1 = u) = [] := by
    rw [List.filter_eq_nil_iff]
    intro e he heu
    rw [decide_eq_true_eq] at heu
    exact h (heu ▸ List.mem_map_of_mem he)
  rw [dests, destSet, hnil, List.map_nil, List.toFinset_nil, Finset.sort_empty]

/-- The keys of the dictionary are the sources. -/
theorem mem_keys_iff (edges : List (Nat × Nat)) (u : Nat) :
    u ∈ (edges.foldl addEdge ∅).keys.sort (· ≤ ·) ↔ u ∈ edges.map Prod.fst := by
  rw [Finset.mem_sort, Finmap.mem_keys, ← Finmap.lookup_isSome, lookup_foldl_addEdge]
  split
  · rename_i h
    simp [h]
  · rename_i h
    simp [h]

theorem fst_of_mem_row (row : Nat → List Nat) (u : Nat) :
    ∀ e ∈ (row u).map (u, ·), e.1 = u := by
  intro e he
  obtain ⟨v, -, rfl⟩ := List.mem_map.mp he
  rfl

/-- `sorter.py` writes the destinations of one vertex after the other. -/
theorem sorter_eq {edges : List (Nat × Nat)} {n : Nat} (hn : ∀ e ∈ edges, e.1 < n) :
    sorter edges = (List.range n).flatMap fun u => (dests edges u).map (u, ·) := by
  have hkeys := Finset.sortedLT_sort (edges.foldl addEdge ∅).keys
  rw [sorter]
  apply Buckets.eq_of_filter_eq
    (Buckets.pairwise_flatMap_key (fst_of_mem_row _) hkeys.pairwise)
    (Buckets.pairwise_flatMap_key (fst_of_mem_row _) List.pairwise_lt_range)
  intro u
  rw [Buckets.filter_flatMap_key (fst_of_mem_row _) (hkeys.pairwise.imp fun h => h.ne),
    Buckets.filter_flatMap_key (fst_of_mem_row _) List.nodup_range, lookup_foldl_addEdge]
  by_cases hmem : u ∈ edges.map Prod.fst
  · have hu : u ∈ List.range n := by
      obtain ⟨e, he, rfl⟩ := List.mem_map.mp hmem
      exact List.mem_range.mpr (hn e he)
    rw [if_pos ((mem_keys_iff edges u).mpr hmem), if_pos hu, if_pos hmem]
    rfl
  · rw [if_neg fun h => hmem ((mem_keys_iff edges u).mp h), dests_eq_nil hmem, List.map_nil,
      ite_self]

theorem raise_eq (maxVal x : Nat) : raise maxVal x = max maxVal x := by
  rw [raise]
  split
  · omega
  · omega

theorem maxEndpoint_le_iff {lines : List (Nat × Nat)} {b : Nat} :
    maxEndpoint lines ≤ b ↔ ∀ e ∈ lines, e.1 ≤ b ∧ e.2 ≤ b := by
  induction lines with
  | nil => simp [maxEndpoint]
  | cons e lines ih =>
    change max (max e.1 e.2) (maxEndpoint lines) ≤ b ↔ _
    rw [List.forall_mem_cons, ← ih]
    omega

theorem maxSource_le_iff {lines : List (Nat × Nat)} {b : Nat} :
    maxSource lines ≤ b ↔ ∀ e ∈ lines, e.1 ≤ b := by
  induction lines with
  | nil => simp [maxSource]
  | cons e lines ih =>
    change max e.1 (maxSource lines) ≤ b ↔ _
    rw [List.forall_mem_cons, ← ih]
    omega

/-- No source is larger than the largest endpoint. -/
theorem maxSource_le_maxEndpoint (lines : List (Nat × Nat)) :
    maxSource lines ≤ maxEndpoint lines :=
  maxSource_le_iff.mpr fun e he => (maxEndpoint_le_iff.mp le_rfl e he).1

/-- The variables of `converter.py` after the lines `lines`, which are sorted by source. -/
structure Reads (lines : List (Nat × Nat)) (s : State) : Prop where
  row : s.row = (List.range (s.rowIdentifier + 1)).map fun u => lines.countP fun e => e.1 < u
  col : s.col = lines.map Prod.snd
  rowIdentifier : s.rowIdentifier = maxSource lines
  rowNum : s.rowNum = lines.length
  maxVal : s.maxVal = maxEndpoint lines
  totalRow : s.totalRow = s.rowIdentifier + 1

theorem Reads.start : Reads [] start := by
  constructor
  all_goals rfl

theorem maxEndpoint_append_singleton (lines : List (Nat × Nat)) (e : Nat × Nat) :
    maxEndpoint (lines ++ [e]) = max (max (maxEndpoint lines) e.1) e.2 := by
  apply eq_of_forall_ge_iff
  intro b
  rw [maxEndpoint_le_iff, List.forall_mem_append, ← maxEndpoint_le_iff, List.forall_mem_singleton]
  omega

theorem maxSource_append_singleton (lines : List (Nat × Nat)) (e : Nat × Nat) :
    maxSource (lines ++ [e]) = max (maxSource lines) e.1 := by
  apply eq_of_forall_ge_iff
  intro b
  rw [maxSource_le_iff, List.forall_mem_append, ← maxSource_le_iff, List.forall_mem_singleton]
  omega

/-- After the largest source all lines are counted. -/
theorem countP_eq_length {lines : List (Nat × Nat)} {u : Nat} (hu : maxSource lines < u) :
    (lines.countP fun e => e.1 < u) = lines.length := by
  rw [List.countP_eq_length]
  intro e he
  have := maxSource_le_iff.mp le_rfl e he
  rw [decide_eq_true_eq]
  omega

/-- The row array continued by the number of lines. -/
theorem map_countP_append_replicate {lines : List (Nat × Nat)} {n : Nat}
    (hn : maxSource lines < n) (k : Nat) :
    ((List.range n).map fun u => lines.countP fun e => e.1 < u) ++
      List.replicate k lines.length =
      (List.range (n + k)).map fun u => lines.countP fun e => e.1 < u := by
  rw [List.range_add, List.map_append, List.map_map]
  congr 1
  symm
  rw [List.eq_replicate_iff]
  refine ⟨by simp, ?_⟩
  intro b hb
  obtain ⟨u, -, rfl⟩ := List.mem_map.mp hb
  exact countP_eq_length (Nat.lt_of_lt_of_le hn (Nat.le_add_right n u))

/-- A line does not count for the vertices up to its source. -/
theorem map_countP_append_singleton (lines : List (Nat × Nat)) {e : Nat × Nat} {n : Nat}
    (hn : n ≤ e.1 + 1) :
    ((List.range n).map fun u => (lines ++ [e]).countP fun e => e.1 < u) =
      (List.range n).map fun u => lines.countP fun e => e.1 < u := by
  apply List.map_congr_left
  intro u hu
  rw [List.mem_range] at hu
  rw [List.countP_append, List.countP_singleton, if_neg (by simp; omega), Nat.add_zero]

/-- One more line is read. -/
theorem Reads.readLine {lines : List (Nat × Nat)} {s : State} (h : Reads lines s)
    {e : Nat × Nat} (he : ∀ e' ∈ lines, e'.1 ≤ e.1) : Reads (lines ++ [e]) (readLine s e) := by
  have hle : maxSource lines ≤ e.1 := maxSource_le_iff.mpr he
  have hmax := maxEndpoint_append_singleton lines e
  have hsource := maxSource_append_singleton lines e
  rw [EdgeList.readLine]
  split
  · rename_i hsame
    constructor
    case row =>
      dsimp only
      rw [h.row, map_countP_append_singleton lines (by omega)]
    case col => rw [h.col, List.map_append, List.map_singleton]
    case rowIdentifier =>
      dsimp only
      rw [hsource, ← h.rowIdentifier]
      omega
    case rowNum => rw [h.rowNum, List.length_append, List.length_singleton]
    case maxVal => rw [hmax, raise_eq, raise_eq, h.maxVal]
    case totalRow => exact h.totalRow
  · rename_i hnew
    have hlt : s.rowIdentifier < e.1 := by
      rw [h.rowIdentifier] at hnew ⊢
      omega
    have hgap : (if e.1 - s.rowIdentifier ≥ 2 then e.1 - s.rowIdentifier - 1 else 0) =
        e.1 - s.rowIdentifier - 1 := by
      split
      · rfl
      · omega
    rw [hgap]
    constructor
    case row =>
      dsimp only
      rw [map_countP_append_singleton lines le_rfl, List.append_assoc, ← List.replicate_succ',
        h.row, h.rowNum, map_countP_append_replicate (by rw [h.rowIdentifier]; omega)]
      congr 2
      omega
    case col => rw [h.col, List.map_append, List.map_singleton]
    case rowIdentifier =>
      dsimp only
      rw [hsource]
      omega
    case rowNum => rw [h.rowNum, List.length_append, List.length_singleton]
    case maxVal => rw [hmax, raise_eq, raise_eq, h.maxVal]
    case totalRow =>
      dsimp only
      rw [h.totalRow]
      omega

/-- Lines sorted by source are read one after the other. -/
theorem Reads.foldl {lines lines' : List (Nat × Nat)} {s : State} (h : Reads lines s)
    (hsorted : (lines ++ lines').Pairwise fun e e' => e.1 ≤ e'.1) :
    Reads (lines ++ lines') (lines'.foldl EdgeList.readLine s) := by
  induction lines' generalizing lines s with
  | nil => rwa [List.append_nil]
  | cons e lines' ih =>
    rw [List.append_cons] at hsorted ⊢
    have he : ∀ e' ∈ lines, e'.1 ≤ e.1 := by
      intro e' he'
      rw [List.append_assoc] at hsorted
      exact (List.pairwise_append.mp hsorted).2.2 e' he' e (by simp)
    exact ih (h.readLine he) hsorted

/-- The lines that `converter.py` writes for a sorted list. -/
theorem converter_eq {lines : List (Nat × Nat)}
    (hsorted : lines.Pairwise fun e e' => e.1 ≤ e'.1) :
    converter lines =
      ((List.range (maxSource lines + 2 + (maxEndpoint lines - (maxSource lines + 1)))).map
        fun u => lines.countP fun e => e.1 < u, lines.map Prod.snd) := by
  have h : Reads ([] ++ lines) (lines.foldl readLine start) := Reads.start.foldl hsorted
  rw [List.nil_append] at h
  rw [converter, h.row, h.col, h.rowNum, h.maxVal, h.totalRow, h.rowIdentifier,
    ← List.replicate_one, List.append_assoc, ← List.replicate_add,
    map_countP_append_replicate (Nat.lt_succ_self _)]
  congr 3
  omega

theorem mem_dests {edges : List (Nat × Nat)} {u v : Nat} :
    v ∈ dests edges u ↔ (u, v) ∈ edges := by
  simp [dests, destSet]

theorem lt_of_mem {edges : List (Nat × Nat)} : ∀ e ∈ edges, e.1 < 1 + maxEndpoint edges := by
  intro e he
  have h := (maxEndpoint_le_iff.mp le_rfl e he).1
  omega

/-- Sorting keeps the set of edges. -/
theorem mem_sorter {edges : List (Nat × Nat)} {e : Nat × Nat} : e ∈ sorter edges ↔ e ∈ edges := by
  rw [sorter_eq lt_of_mem, List.mem_flatMap]
  constructor
  · rintro ⟨u, -, he⟩
    obtain ⟨v, hv, rfl⟩ := List.mem_map.mp he
    exact mem_dests.mp hv
  · intro he
    exact ⟨e.1, List.mem_range.mpr (lt_of_mem e he), List.mem_map.mpr ⟨e.2, mem_dests.mpr he, rfl⟩⟩

theorem maxEndpoint_sorter (edges : List (Nat × Nat)) :
    maxEndpoint (sorter edges) = maxEndpoint edges := by
  apply eq_of_forall_ge_iff
  intro b
  simp only [maxEndpoint_le_iff, mem_sorter]

theorem maxSource_sorter (edges : List (Nat × Nat)) :
    maxSource (sorter edges) = maxSource edges := by
  apply eq_of_forall_ge_iff
  intro b
  simp only [maxSource_le_iff, mem_sorter]

/-- The lines of the vertices before `u`. -/
theorem countP_rows (row : Nat → List Nat) {u n : Nat} (hu : u ≤ n) :
    (((List.range n).flatMap fun v => (row v).map (v, ·)).countP fun e => e.1 < u) =
      ((List.range u).map row).flatten.length := by
  induction n, hu using Nat.le_induction with
  | base =>
    rw [List.countP_eq_length.mpr]
    · simp [List.length_flatMap, List.length_flatten, Function.comp_def]
    · intro e he
      obtain ⟨v, hv, he⟩ := List.mem_flatMap.mp he
      rw [List.mem_range] at hv
      rw [fst_of_mem_row row v e he, decide_eq_true_eq]
      exact hv
  | succ n hun ih =>
    rw [List.range_succ, List.flatMap_append, List.countP_append, ih]
    have hnone : (((row n).map (n, ·)).countP fun e => e.1 < u) = 0 := by
      rw [List.countP_eq_zero]
      intro e he
      rw [fst_of_mem_row row n e he, decide_eq_true_eq]
      omega
    simp only [List.flatMap_cons, List.flatMap_nil, List.append_nil, hnone, Nat.add_zero]

/-- What is written between two consecutive row pointers. -/
theorem slice_sorter (edges : List (Nat × Nat)) {u : Nat} (hu : u < 1 + maxEndpoint edges) :
    (((sorter edges).map Prod.snd).drop ((sorter edges).countP fun e => e.1 < u)).take
      (((sorter edges).countP fun e => e.1 < u + 1) - (sorter edges).countP fun e => e.1 < u) =
      dests edges u := by
  have hcol : (sorter edges).map Prod.snd =
      ((List.range (1 + maxEndpoint edges)).map (dests edges)).flatten := by
    rw [sorter_eq lt_of_mem, List.map_flatMap, List.flatMap]
    simp [Function.comp_def]
  have hcount : ∀ k ≤ 1 + maxEndpoint edges, ((sorter edges).countP fun e => e.1 < k) =
      (((List.range (1 + maxEndpoint edges)).map (dests edges)).take k).flatten.length := by
    intro k hk
    rw [sorter_eq lt_of_mem, countP_rows (dests edges) hk, ← List.map_take, List.take_range,
      Nat.min_eq_left hk]
  have hlen : u < ((List.range (1 + maxEndpoint edges)).map (dests edges)).length := by
    simpa using hu
  rw [hcol, hcount u hu.le, hcount (u + 1) hu, Buckets.slice_ends hlen, List.getElem_map,
    List.getElem_range]

/-- The file of a sorted edge list is a CSR file of the graph exactly if the last vertex
has an outgoing edge. -/
theorem converter_isCsrOf_iff (edges : List (Nat × Nat)) :
    IsCsrOf edges (converter (sorter edges)) ↔ maxSource edges = maxEndpoint edges := by
  have hsorted : (sorter edges).Pairwise fun e e' => e.1 ≤ e'.1 := by
    rw [sorter_eq lt_of_mem]
    exact Buckets.pairwise_flatMap_key (fst_of_mem_row _) List.pairwise_lt_range
  have hout := converter_eq hsorted
  rw [maxSource_sorter, maxEndpoint_sorter] at hout
  rw [hout]
  constructor
  · intro h
    have hlen := h.row_length
    have hle := maxSource_le_maxEndpoint edges
    rw [List.length_map, List.length_range] at hlen
    omega
  · intro h
    have hn : maxSource edges + 2 + (maxEndpoint edges - (maxSource edges + 1)) =
        1 + maxEndpoint edges + 1 := by omega
    rw [hn]
    constructor
    case row_length => rw [List.length_map, List.length_range]
    case row_zero => simp
    case slice =>
      intro u hu
      refine ⟨_, _, ?_, ?_, slice_sorter edges hu⟩
      · rw [List.getElem?_map, List.getElem?_range (by omega), Option.map_some]
      · rw [List.getElem?_map, List.getElem?_range (by omega), Option.map_some]

/-- A graph whose last vertex only has an incoming edge gets one row pointer too few. -/
theorem converter_one_edge_not_isCsrOf :
    ¬ IsCsrOf [(0, 1)] (converter (sorter [(0, 1)])) := by
  intro h
  have hlen := h.row_length
  revert hlen
  decide +kernel

/-- The lines of `test.txt` and of `test_csr.txt`. -/
example : converter [(0, 1), (0, 3), (1, 0), (1, 1), (3, 2), (4, 1), (4, 3)] =
    ([0, 2, 4, 4, 5, 7], [1, 3, 0, 1, 2, 1, 3]) := by
  decide

end EdgeList

end GcnSim
