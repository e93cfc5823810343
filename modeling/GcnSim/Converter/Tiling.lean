import GcnSim.Converter.Csr
import GcnSim.Converter.TilingTree

/-!
# Recursive tiling

An edge goes to the first leaf that contains it. The rows of the leaves, leaf after
leaf, are the rows of the written file. The three tiling makers differ only in their
leaves and in the order of them.
-/

namespace GcnSim

namespace Tiling

/-- A leaf with its rows `new_csr`. -/
structure Leaf where
  rect : Rect
  newCsr : List (List Nat)
  deriving DecidableEq, Repr

/-- The rows `newNode` makes. -/
def newLeaf (r : Rect) : Leaf := ⟨r, List.replicate r.rowNum []⟩

/-- The index of `targetNd`: the first leaf with the edge, or the last leaf if the search
fails. -/
def targetIdx (leaves : List Rect) (i edge : Nat) : Nat :=
  let nd := leaves.findIdx fun r => r.Contains i edge
  if nd < leaves.length then nd else leaves.length - 1

/-- `targetNd->new_csr[newIdx].push_back(to)`. -/
def Leaf.push (targetNd : Leaf) (i edge : Nat) : Option Leaf :=
  (Buckets.push targetNd.newCsr (u64Sub i targetNd.rect.fromStart) edge).map (⟨targetNd.rect, ·⟩)

/-- The body of the loop over the edges. -/
def place (leaves : List Leaf) (i edge : Nat) : Option (List Leaf) :=
  let k := targetIdx (leaves.map Leaf.rect) i edge
  match leaves[k]? with
  | some targetNd => (targetNd.push i edge).map (leaves.set k ·)
  | none => none

/-- The rows of all leaves. -/
def newCsr (leaves : List Leaf) : List (List Nat) := leaves.flatMap Leaf.newCsr

/-- Distribute the edges to the leaves and write them. -/
def writeTiles (leaves : List Rect) (vertexNum : Nat) (row col : List Nat) : Option CsrMatrix :=
  (Converter.forEachEdge place vertexNum row col (leaves.map newLeaf)).map
    fun ls => CsrMatrix.ofRows (newCsr ls)

/-- `recursive_tiling_maker`. -/
def recursiveTilingMaker (vertexNum : Nat) (config : AtSetting) (row col : List Nat) :
    Option CsrMatrix :=
  writeTiles (inorderLeaves vertexNum config) vertexNum row col

/-- `recursive_tiling_maker_reschedule`. -/
def recursiveTilingMakerReschedule (vertexNum : Nat) (config : AtSetting) (row col : List Nat) :
    Option CsrMatrix :=
  writeTiles (schedLeaves (inorderLeaves vertexNum config)) vertexNum row col

/-- `recursive_tiling_maker_uni_directed`. -/
def recursiveTilingMakerUniDirected (vertexNum : Nat) (numbers row col : List Nat) :
    Option CsrMatrix :=
  writeTiles (buildTreeUniDirected vertexNum numbers).leaves vertexNum row col

/-- The source row of every output row: row `k` of a leaf comes from row `fromStart + k`. -/
def sourceRows (leaves : List Rect) : List Nat :=
  leaves.flatMap fun r => (List.range r.rowNum).map (r.fromStart + ·)

/-- What it means that `out` is the tiling of `m` by the leaves. -/
structure TiledBy (m : CsrMatrix) (leaves : List Rect) (out : CsrMatrix) : Prop where
  /-- Every edge is in a leaf, and in the first such leaf its row is in range. -/
  placed : ∀ e ∈ m.edges, ∃ k : Fin leaves.length, leaves[k].Contains e.1 e.2 ∧
    (∀ j < k, ¬ leaves[j].Contains e.1 e.2) ∧ e.1 - leaves[k].fromStart < leaves[k].rowNum
  row_length : out.row.length = (sourceRows leaves).length + 1
  row_mono : out.row.Pairwise (· ≤ ·)
  row_last : out.row.getLastD 0 = out.col.length
  /-- Mapped back to their source rows, the written edges are those read. -/
  edges_perm : (out.edges.map fun e => ((sourceRows leaves).getD e.1 0, e.2)).Perm m.edges
  /-- The edges of an output row stand in the order of their source row. -/
  order : ∀ k < out.xH, (out.rowCols k).Sublist (m.rowCols ((sourceRows leaves).getD k 0))

/-- The search finds the first leaf with the edge. -/
theorem targetIdx_spec {leaves : List Rect} {i edge : Nat}
    (h : ∃ r ∈ leaves, r.Contains i edge) :
    ∃ k : Fin leaves.length, targetIdx leaves i edge = k ∧ leaves[k].Contains i edge ∧
      ∀ j < k, ¬ leaves[j].Contains i edge := by
  have hlt : (leaves.findIdx fun r => r.Contains i edge) < leaves.length := by
    rw [List.findIdx_lt_length]
    simpa using h
  refine ⟨⟨_, hlt⟩, if_pos hlt, ?_, ?_⟩
  · simpa using List.findIdx_getElem (w := hlt)
  · intro j hj
    simpa using List.not_of_lt_findIdx hj

theorem Rect.Contains.row_lt {r : Rect} {i edge : Nat} (h : r.Contains i edge) :
    i - r.fromStart < r.rowNum := by
  obtain ⟨⟨hs, he⟩, -⟩ := h
  rw [Rect.rowNum]
  omega

namespace Leaf

/-- The rows of a leaf with their source rows. -/
def rows (l : Leaf) : List (Nat × List Nat) := l.newCsr.mapIdx fun k r => (l.rect.fromStart + k, r)

@[simp] theorem length_rows (l : Leaf) : l.rows.length = l.newCsr.length := by
  simp [rows]

@[simp] theorem map_snd_rows (l : Leaf) : l.rows.map Prod.snd = l.newCsr := by
  apply List.ext_getElem
  · simp
  · intro k h₁ h₂
    simp [rows]

theorem map_fst_rows (l : Leaf) :
    l.rows.map Prod.fst = (List.range l.newCsr.length).map (l.rect.fromStart + ·) := by
  apply List.ext_getElem
  · simp
  · intro k h₁ h₂
    simp [rows]

end Leaf

/-- The edges of rows that carry their source row. -/
def rowEdges (p : Nat × List Nat) : List (Nat × Nat) := p.2.map (p.1, ·)

/-- Append an edge to a row. -/
def appendEdge (edge : Nat) (p : Nat × List Nat) : Nat × List Nat := (p.1, p.2 ++ [edge])

theorem rowEdges_appendEdge (edge : Nat) (p : Nat × List Nat) :
    rowEdges (appendEdge edge p) = rowEdges p ++ [(p.1, edge)] := by
  simp [rowEdges, appendEdge]

/-- A leaf with the edge takes it into the row of its source row. -/
theorem push_spec {l : Leaf} {i edge : Nat} (hlen : l.newCsr.length = l.rect.rowNum)
    (hc : l.rect.Contains i edge) :
    ∃ l', l.push i edge = some l' ∧ l'.rect = l.rect ∧ l'.newCsr.length = l.newCsr.length ∧
      ∃ k, ∃ hk : k < l.rows.length, l.rows[k].1 = i ∧
        l'.rows = l.rows.modify k (appendEdge edge) := by
  have hk := hc.row_lt
  have hs := hc.1.1
  rw [← hlen] at hk
  refine ⟨⟨l.rect, l.newCsr.modify (i - l.rect.fromStart) (· ++ [edge])⟩, ?_, rfl, by simp,
    i - l.rect.fromStart, by simpa using hk, ?_, ?_⟩
  · rw [Leaf.push, u64Sub_of_le hs, Buckets.push, if_pos hk, Option.map_some]
  · simp only [Leaf.rows, List.getElem_mapIdx]
    omega
  · apply List.ext_getElem
    · simp
    · intro j h₁ h₂
      simp only [Leaf.rows, List.getElem_mapIdx, List.getElem_modify]
      split
      · rfl
      · rfl

/-- The leaves after the edges `es` are distributed. -/
structure Distributed (leaves : List Rect) (es : List (Nat × Nat)) (ls : List Leaf) : Prop where
  rects : ls.map Leaf.rect = leaves
  rowNum : ∀ l ∈ ls, l.newCsr.length = l.rect.rowNum
  perm : ((ls.flatMap Leaf.rows).flatMap rowEdges).Perm es
  order : ∀ p ∈ ls.flatMap Leaf.rows, p.2.Sublist ((es.filter fun e => e.1 = p.1).map Prod.snd)

theorem Distributed.start (leaves : List Rect) :
    Distributed leaves [] (leaves.map newLeaf) := by
  have hnil : ∀ p ∈ (leaves.map newLeaf).flatMap Leaf.rows, p.2 = [] := by
    intro p hp
    obtain ⟨l, hl, hp⟩ := List.mem_flatMap.mp hp
    obtain ⟨r, -, rfl⟩ := List.mem_map.mp hl
    have hmem : p.2 ∈ (newLeaf r).rows.map Prod.snd := List.mem_map_of_mem hp
    rw [Leaf.map_snd_rows] at hmem
    exact List.eq_of_mem_replicate hmem
  constructor
  case rects =>
    rw [List.map_map]
    exact List.map_id _
  case rowNum =>
    intro l hl
    obtain ⟨r, -, rfl⟩ := List.mem_map.mp hl
    exact List.length_replicate
  case perm =>
    have hempty : ((leaves.map newLeaf).flatMap Leaf.rows).flatMap rowEdges = [] := by
      rw [List.flatMap_eq_nil_iff]
      intro p hp
      rw [rowEdges, hnil p hp, List.map_nil]
    rw [hempty]
  case order =>
    intro p hp
    rw [hnil p hp]
    exact List.nil_sublist _

/-- One more edge, which some leaf contains, is distributed. -/
theorem Distributed.place {leaves : List Rect} {es : List (Nat × Nat)} {ls : List Leaf}
    (h : Distributed leaves es ls) {i edge : Nat} (hex : ∃ r ∈ leaves, r.Contains i edge) :
    ∃ ls', place ls i edge = some ls' ∧ Distributed leaves (es ++ [(i, edge)]) ls' := by
  obtain ⟨⟨k, hk⟩, htarget, hc, -⟩ := targetIdx_spec hex
  have hkl : k < ls.length := by
    have hlen := congrArg List.length h.rects
    rw [List.length_map] at hlen
    omega
  have hrect : ls[k].rect = leaves[k] := by
    have hget := congrArg (fun rs => rs[k]?) h.rects
    simpa [hkl, hk] using hget
  have hmem : ls[k] ∈ ls := List.getElem_mem hkl
  obtain ⟨l', hpush, hrect', hlen', j, hj, hsrc, hrows⟩ :=
    push_spec (h.rowNum _ hmem) (hrect ▸ hc)
  have hset : ls.set k l' = ls.modify k fun _ => l' := List.set_eq_modify l' k ls
  refine ⟨ls.set k l', ?_, ?_, ?_, ?_, ?_⟩
  · simp only [Tiling.place, h.rects, htarget, List.getElem?_eq_getElem hkl, hpush, Option.map_some]
  · rw [List.map_set, hrect', hrect, h.rects]
    exact List.set_getElem_self hk
  · intro l hl
    rcases List.mem_or_eq_of_mem_set hl with hl | rfl
    · exact h.rowNum l hl
    · rw [hlen', hrect']
      exact h.rowNum _ hmem
  · have hleaf : (l'.rows.flatMap rowEdges).Perm (ls[k].rows.flatMap rowEdges ++ [(i, edge)]) := by
      rw [hrows]
      apply Buckets.flatMap_modify_perm hj
      rw [rowEdges_appendEdge, hsrc]
    rw [List.flatMap_assoc, hset]
    apply (Buckets.flatMap_modify_perm hkl hleaf).trans
    rw [← List.flatMap_assoc]
    exact h.perm.append_right _
  · have hold : ∀ p ∈ ls.flatMap Leaf.rows,
        p.2.Sublist (((es ++ [(i, edge)]).filter fun e => e.1 = p.1).map Prod.snd) := by
      intro p hp
      rw [List.filter_append, List.map_append]
      exact (h.order p hp).trans (List.sublist_append_left _ _)
    intro p hmem'
    obtain ⟨l, hl, hp⟩ := List.mem_flatMap.mp hmem'
    rcases List.mem_or_eq_of_mem_set hl with hl | rfl
    · exact hold p (List.mem_flatMap.mpr ⟨l, hl, hp⟩)
    · rw [hrows] at hp
      rcases Buckets.mem_modify hp with hp | ⟨hj, rfl⟩
      · exact hold p (List.mem_flatMap.mpr ⟨_, hmem, hp⟩)
      · have hrow := h.order _ (List.mem_flatMap.mpr ⟨_, hmem, List.getElem_mem hj⟩)
        simp only [appendEdge, hsrc, List.filter_append, List.map_append] at hrow ⊢
        apply hrow.append
        simp

/-- All edges are distributed if the leaves contain them all. -/
theorem Distributed.foldlM {leaves : List Rect} {es es' : List (Nat × Nat)} {ls : List Leaf}
    (h : Distributed leaves es ls) (hex : ∀ e ∈ es', ∃ r ∈ leaves, r.Contains e.1 e.2) :
    ∃ ls', es'.foldlM (fun ls e => Tiling.place ls e.1 e.2) ls = some ls' ∧
      Distributed leaves (es ++ es') ls' := by
  induction es' generalizing es ls with
  | nil => exact ⟨ls, rfl, by rwa [List.append_nil]⟩
  | cons e es' ih =>
    rw [List.forall_mem_cons] at hex
    obtain ⟨ls₁, hplace, h₁⟩ := h.place hex.1
    obtain ⟨ls', hfold, h'⟩ := ih h₁ hex.2
    refine ⟨ls', ?_, by simpa using h'⟩
    rw [List.foldlM_cons, hplace]
    exact hfold

theorem Distributed.sourceRows_eq {leaves : List Rect} {es : List (Nat × Nat)} {ls : List Leaf}
    (h : Distributed leaves es ls) :
    sourceRows leaves = (ls.flatMap Leaf.rows).map Prod.fst := by
  rw [sourceRows, ← h.rects, List.flatMap_map, List.map_flatMap]
  apply List.flatMap_congr
  intro l hl
  rw [Leaf.map_fst_rows, h.rowNum l hl]

theorem newCsr_eq (ls : List Leaf) : newCsr ls = (ls.flatMap Leaf.rows).map Prod.snd := by
  rw [newCsr, List.map_flatMap]
  apply List.flatMap_congr
  intro l _
  rw [Leaf.map_snd_rows]

/-- The edges of a file written from rows with their source rows. -/
theorem edges_ofRows (rows : List (Nat × List Nat)) :
    ((CsrMatrix.ofRows (rows.map Prod.snd)).edges.map
      fun e => ((rows.map Prod.fst).getD e.1 0, e.2)) = rows.flatMap rowEdges := by
  have hrows : rows = (List.range rows.length).map fun k => rows.getD k (0, []) := by
    apply List.ext_getElem
    · simp
    · intro k h₁ h₂
      simp [h₁]
  conv_rhs => rw [hrows, List.flatMap_map]
  rw [CsrMatrix.edges, CsrMatrix.xH_ofRows, List.length_map, List.map_flatMap]
  apply List.flatMap_congr
  intro k hk
  rw [List.mem_range] at hk
  rw [CsrMatrix.rowCols_ofRows (by simpa using hk)]
  simp [rowEdges, hk]

/-- Leaves that contain all edges tile the file. -/
theorem writeTiles_tiledBy (m : CsrMatrix) (leaves : List Rect)
    (hex : ∀ e ∈ m.edges, ∃ r ∈ leaves, r.Contains e.1 e.2) :
    ∃ out, writeTiles leaves m.xH m.row m.col = some out ∧ TiledBy m leaves out := by
  obtain ⟨ls, hfold, h⟩ := (Distributed.start leaves).foldlM hex
  rw [List.nil_append] at h
  refine ⟨CsrMatrix.ofRows (newCsr ls), ?_, ?_⟩
  · rw [writeTiles, Converter.forEachEdge_eq, hfold]
    rfl
  have hlen : (newCsr ls).length = (sourceRows leaves).length := by
    rw [newCsr_eq, h.sourceRows_eq, List.length_map, List.length_map]
  constructor
  case placed =>
    intro e he
    obtain ⟨k, -, hc, hfirst⟩ := targetIdx_spec (hex e he)
    exact ⟨k, hc, hfirst, hc.row_lt⟩
  case row_length =>
    rw [CsrMatrix.row_length, CsrMatrix.xH_ofRows, hlen]
  case row_mono => exact CsrMatrix.row_mono _
  case row_last => exact (CsrMatrix.col_length _).symm
  case edges_perm =>
    rw [newCsr_eq, h.sourceRows_eq, edges_ofRows]
    exact h.perm
  case order =>
    intro k hk
    rw [CsrMatrix.xH_ofRows] at hk
    have hk' : k < (ls.flatMap Leaf.rows).length := by
      rwa [newCsr_eq, List.length_map] at hk
    have hsub := h.order _ (List.getElem_mem hk')
    rw [CsrMatrix.map_snd_filter_edges] at hsub
    rw [CsrMatrix.rowCols_ofRows hk, h.sourceRows_eq]
    simpa [newCsr_eq, List.getElem?_eq_getElem hk'] using hsub

/-- The edges of a file with columns up to its number of rows are in the root. -/
theorem root_contains {m : CsrMatrix} (hcol : ∀ c ∈ m.col, c ≤ m.xH) {e : Nat × Nat}
    (he : e ∈ m.edges) : (root m.xH).Contains e.1 e.2 := by
  obtain ⟨hi, hc⟩ := CsrMatrix.mem_edges.mp he
  exact ⟨⟨Nat.zero_le _, hi.le⟩, Nat.zero_le _, hcol _ (CsrMatrix.mem_col_of_mem_rowCols hc)⟩

/-- The leaves of a tree that covers the adjacency contain all edges. -/
theorem exists_leaf {m : CsrMatrix} (hcol : ∀ c ∈ m.col, c ≤ m.xH) {tree : Node}
    (htree : tree.Covering) (hroot : tree.rect = root m.xH) :
    ∀ e ∈ m.edges, ∃ r ∈ tree.leaves, r.Contains e.1 e.2 := by
  intro e he
  apply htree.coveredBy e.1 e.2
  rw [hroot]
  exact root_contains hcol he

@[simp] theorem rect_buildTree (vertexNum : Nat) (config : AtSetting) :
    (buildTree vertexNum config).rect = root vertexNum := by
  rw [buildTree]
  split
  · rfl
  · rfl

@[simp] theorem rect_buildTreeUniDirected (vertexNum : Nat) (numbers : List Nat) :
    (buildTreeUniDirected vertexNum numbers).rect = root vertexNum := by
  rw [buildTreeUniDirected]
  split
  · rfl
  · rfl

theorem pairwise_idxSet (leaves : List Rect) : (idxSet leaves).Pairwise (· < ·) :=
  Finset.sortedLT_sort _ |>.pairwise

theorem toStart_mem_idxSet {leaves : List Rect} {r : Rect} (hr : r ∈ leaves) :
    r.toStart ∈ idxSet leaves := by
  rw [idxSet, Finset.mem_sort, List.mem_toFinset]
  exact List.mem_map_of_mem hr

/-- Rescheduling is the stable sort by the column start. -/
theorem schedLeaves_eq (leaves : List Rect) :
    schedLeaves leaves = leaves.mergeSort fun p q => p.toStart ≤ q.toStart :=
  Buckets.groups_eq_mergeSort (pairwise_idxSet leaves) fun _ => toStart_mem_idxSet

theorem schedLeaves_perm (leaves : List Rect) : (schedLeaves leaves).Perm leaves :=
  Buckets.groups_perm (pairwise_idxSet leaves) fun _ => toStart_mem_idxSet

/-- No tiling maker loses or duplicates an edge, whatever the config says. -/
theorem tiling_makers_tile (m : CsrMatrix) (config : AtSetting) (numbers : List Nat)
    (hcol : ∀ c ∈ m.col, c ≤ m.xH) :
    (∃ out, recursiveTilingMaker m.xH config m.row m.col = some out ∧
      TiledBy m (inorderLeaves m.xH config) out) ∧
    (∃ out, recursiveTilingMakerReschedule m.xH config m.row m.col = some out ∧
      TiledBy m (schedLeaves (inorderLeaves m.xH config)) out) ∧
    (∃ out, recursiveTilingMakerUniDirected m.xH numbers m.row m.col = some out ∧
      TiledBy m (buildTreeUniDirected m.xH numbers).leaves out) ∧
    schedLeaves (inorderLeaves m.xH config) =
      (inorderLeaves m.xH config).mergeSort fun p q => p.toStart ≤ q.toStart := by
  have hinorder := exists_leaf hcol (buildTree_covering m.xH config) (rect_buildTree m.xH config)
  refine ⟨writeTiles_tiledBy m _ hinorder, writeTiles_tiledBy m _ ?_, writeTiles_tiledBy m _ ?_,
    schedLeaves_eq _⟩
  · intro e he
    obtain ⟨r, hr, hc⟩ := hinorder e he
    exact ⟨r, (schedLeaves_perm _).mem_iff.mpr hr, hc⟩
  · exact exists_leaf hcol (buildTreeUniDirected_covering m.xH numbers)
      (rect_buildTreeUniDirected m.xH numbers)

/-- Two vertices with three edges. -/
def twoVertices : CsrMatrix where
  row := [0, 2, 3]
  col := [1, 0, 2]
  row_zero := rfl
  row_mono := by decide
  col_length := rfl

theorem tiling_makers_tile_twoVertices :
    (∃ out, recursiveTilingMaker 2 atSettingNonmun [0, 2, 3] [1, 0, 2] = some out ∧
      TiledBy twoVertices (inorderLeaves 2 atSettingNonmun) out) ∧
    (∃ out, recursiveTilingMakerReschedule 2 atSettingNonmun [0, 2, 3] [1, 0, 2] = some out ∧
      TiledBy twoVertices (schedLeaves (inorderLeaves 2 atSettingNonmun)) out) ∧
    (∃ out, recursiveTilingMakerUniDirected 2 atSettingNonmun.numbers [0, 2, 3] [1, 0, 2] =
        some out ∧
      TiledBy twoVertices (buildTreeUniDirected 2 atSettingNonmun.numbers).leaves out) ∧
    schedLeaves (inorderLeaves 2 atSettingNonmun) =
      (inorderLeaves 2 atSettingNonmun).mergeSort fun p q => p.toStart ≤ q.toStart :=
  tiling_makers_tile twoVertices atSettingNonmun atSettingNonmun.numbers (by decide)

end Tiling

end GcnSim
