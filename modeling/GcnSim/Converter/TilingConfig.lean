import GcnSim.Converter.Tiling

/-!
# The tiling tree and its config

The config describes a tree: a block of the first level is split if its flag is `1`,
and sub-block `read` of it is split if flag `read` on its line is `1`. Every edge is in
exactly one leaf of that tree. The source splits sub-block `firstDepth` for every `1` on
the line of block `firstDepth`, so it builds that tree only if no other flag is `1`.
-/

namespace GcnSim

namespace Tiling

/-- The line of the config for block `firstDepth`: a line is there for every block with
flag `1`. -/
def lineOf (numbers : List Nat) (firstDepth : Nat) : List Nat :=
  (numbers.drop (4 + 4 * (numbers.take firstDepth).count 1)).take 4

/-- A block of the first level as its line describes it. -/
def describedBlock (flags : List Nat) (nd : Node) : Node :=
  .mk nd.rect ((nd.rect.quarters.map newNode).mapIdx fun read nd =>
    if flags[read]? = some 1 then nd.pushQuarters else nd)

/-- The tree that the config describes. -/
def describedTree (vertexNum : Nat) (config : AtSetting) : Node :=
  if 1 ∈ config.numbers.take 4 then
    .mk (root vertexNum) (((root vertexNum).quarters.map newNode).mapIdx fun firstDepth nd =>
      if config.numbers[firstDepth]? = some 1 then
        describedBlock (lineOf config.numbers firstDepth) nd
      else nd)
  else newNode (root vertexNum)

/-- A block of the first level as the source builds it. -/
def builtBlock (firstDepth : Nat) (flags : List Nat) (nd : Node) : Node :=
  .mk nd.rect (readLine firstDepth flags (nd.rect.quarters.map newNode))

/-- The leaves are disjoint rectangles with the whole square as their union. -/
structure ExactTiling (vertexNum : Nat) (leaves : List Rect) : Prop where
  disjoint : leaves.Pairwise Rect.Disjoint
  union : ∀ i edge, (∃ r ∈ leaves, r.Contains i edge) ↔ i ≤ vertexNum ∧ edge ≤ vertexNum
  /-- Every edge is in exactly one leaf. -/
  unique : ∀ i ≤ vertexNum, ∀ edge ≤ vertexNum,
    ∃! k : Fin leaves.length, (leaves.get k).Contains i edge

/-- Every `1` on the line of a block stands at the position of the block. -/
def OwnFlagOnly (config : AtSetting) : Prop :=
  ∀ firstDepth < 4, config.numbers[firstDepth]? = some 1 →
    ∀ read < 4, (lineOf config.numbers firstDepth)[read]? = some 1 → read = firstDepth

theorem count_take_succ (numbers : List Nat) (n : Nat) :
    (numbers.take (n + 1)).count 1 =
      (numbers.take n).count 1 + if numbers[n]? = some 1 then 1 else 0 := by
  rw [List.take_add_one, List.count_append]
  cases numbers[n]? with
  | none => rfl
  | some x =>
    by_cases hx : x = 1
    · simp [hx]
    · simp [hx]

/-- The first `n` blocks of the first level as the source has built them. -/
theorem foldl_blockTurn (numbers : List Nat) (r : Rect) {n : Nat} (hn : n ≤ 4) :
    (List.range n).foldl (blockTurn (numbers.take 4)) (r.quarters.map newNode, numbers.drop 4) =
      ((r.quarters.map newNode).mapIdx fun firstDepth nd =>
        if firstDepth < n ∧ numbers[firstDepth]? = some 1 then
          builtBlock firstDepth (lineOf numbers firstDepth) nd
        else nd,
      numbers.drop (4 + 4 * (numbers.take n).count 1)) := by
  induction n with
  | zero =>
    rw [Buckets.mapIdx_eq_self fun k nd => if_neg (by omega)]
    rfl
  | succ n ih =>
    rw [List.range_succ, List.foldl_append, ih (by omega), List.foldl_cons, List.foldl_nil,
      blockTurn, List.getElem?_take_of_lt (by omega), count_take_succ]
    by_cases hflag : numbers[n]? = some 1
    · rw [if_pos hflag, if_pos hflag, List.drop_drop]
      refine Prod.ext ?_ rfl
      apply List.ext_getElem
      · simp
      · intro k h₁ h₂
        simp only [List.getElem_modify, List.getElem_mapIdx, List.getElem_map]
        by_cases hk : n = k
        · subst hk
          simp only [lt_irrefl, if_false, if_true, hflag, and_true, Nat.lt_succ_self]
          rfl
        · have hlt : k < n + 1 ↔ k < n := by omega
          simp only [hk, if_false, hlt]
    · have hlt : ∀ k, (k < n + 1 ∧ numbers[k]? = some 1) ↔ k < n ∧ numbers[k]? = some 1 := by
        intro k
        constructor
        · rintro ⟨hk, hone⟩
          refine ⟨?_, hone⟩
          rcases Nat.lt_succ_iff_lt_or_eq.mp hk with hk | rfl
          · exact hk
          · exact absurd hone hflag
        · rintro ⟨hk, hone⟩
          exact ⟨by omega, hone⟩
      rw [if_neg hflag, if_neg hflag]
      simp only [hlt, Nat.add_zero]

/-- The tree of the source, block by block. -/
theorem buildTree_eq (vertexNum : Nat) (config : AtSetting) :
    buildTree vertexNum config =
      if 1 ∈ config.numbers.take 4 then
        .mk (root vertexNum) (((root vertexNum).quarters.map newNode).mapIdx fun firstDepth nd =>
          if config.numbers[firstDepth]? = some 1 then
            builtBlock firstDepth (lineOf config.numbers firstDepth) nd
          else nd)
      else newNode (root vertexNum) := by
  rw [buildTree]
  split
  · rw [foldl_blockTurn _ _ le_rfl]
    congr 1
    apply List.ext_getElem
    · simp
    · intro k h₁ h₂
      have hk : k < 4 := by simpa [Rect.quarters] using h₁
      simp only [List.getElem_mapIdx, hk, true_and]
  · rfl

/-- A line leaves every sub-block but number `firstDepth` as it is. -/
theorem getElem?_readLine (firstDepth : Nat) (flags : List Nat) (nds : List Node) {k : Nat}
    (hk : k ≠ firstDepth) : (readLine firstDepth flags nds)[k]? = nds[k]? := by
  induction flags generalizing nds with
  | nil => rfl
  | cons temp flags ih =>
    rw [readLine_cons, ih]
    split
    · simp only [List.getElem?_modify, if_neg (Ne.symm hk), id_map']
    · rfl

/-- A line without a `1` splits nothing. -/
theorem readLine_of_not_mem (firstDepth : Nat) {flags : List Nat} (h : 1 ∉ flags)
    (nds : List Node) : readLine firstDepth flags nds = nds := by
  induction flags with
  | nil => rfl
  | cons temp flags ih =>
    rw [List.mem_cons, not_or] at h
    rw [readLine_cons, if_neg (Ne.symm h.1), ih h.2]

/-- If the only `1` of a line stands at the position of the block, its sub-blocks are split
as the line describes. -/
theorem readLine_eq {firstDepth : Nat} {flags : List Nat}
    (h : ∀ read, flags[read]? = some 1 → read = firstDepth) (nds : List Node) :
    readLine firstDepth flags nds =
      nds.mapIdx fun read nd => if flags[read]? = some 1 then nd.pushQuarters else nd := by
  by_cases hone : 1 ∈ flags
  · obtain ⟨before, after, rfl⟩ := List.append_of_mem hone
    have hd : before.length = firstDepth := by
      apply h
      simp
    have hbefore : 1 ∉ before := by
      intro hmem
      obtain ⟨k, hk, hget⟩ := List.mem_iff_getElem.mp hmem
      have := h k (by rw [List.getElem?_append_left hk, List.getElem?_eq_getElem hk, hget])
      omega
    have hafter : 1 ∉ after := by
      intro hmem
      obtain ⟨k, hk, hget⟩ := List.mem_iff_getElem.mp hmem
      have := h (before.length + (k + 1)) (by simp [hk, hget])
      omega
    have hline : readLine firstDepth (before ++ 1 :: after) nds =
        nds.modify firstDepth Node.pushQuarters := by
      rw [readLine, List.foldl_append]
      change readLine firstDepth (1 :: after) (readLine firstDepth before nds) = _
      rw [readLine_of_not_mem _ hbefore, readLine_cons, if_pos rfl, readLine_of_not_mem _ hafter]
    rw [hline]
    apply List.ext_getElem
    · simp
    · intro k h₁ h₂
      rw [List.getElem_modify, List.getElem_mapIdx]
      by_cases hk : firstDepth = k
      · rw [if_pos hk, if_pos (by rw [← hk, ← hd]; simp)]
      · rw [if_neg hk, if_neg fun hget => hk (h k hget).symm]
  · rw [readLine_of_not_mem _ hone, Buckets.mapIdx_eq_self]
    intro k nd
    exact if_neg fun hget => hone (List.mem_of_getElem? hget)

theorem newNode_ne_pushQuarters (r : Rect) : newNode r ≠ (newNode r).pushQuarters := by
  intro h
  have hchild := congrArg (fun n => n.child.length) h
  simp [newNode, Node.pushQuarters, Node.child, Rect.quarters] at hchild

/-- The source builds the block its line describes only if the line has no other `1`. -/
theorem builtBlock_eq_iff {firstDepth : Nat} {flags : List Nat} (hline : flags.length ≤ 4)
    (nd : Node) :
    builtBlock firstDepth flags nd = describedBlock flags nd ↔
      ∀ read < 4, flags[read]? = some 1 → read = firstDepth := by
  constructor
  · intro h read hread hone
    by_contra hne
    have hchild := congrArg (fun n => n.child[read]?) h
    have hlen : read < (nd.rect.quarters.map newNode).length := by
      simpa [Rect.quarters] using hread
    simp only [builtBlock, describedBlock, Node.child] at hchild
    rw [getElem?_readLine _ _ _ hne, List.getElem?_mapIdx, List.getElem?_eq_getElem hlen,
      Option.map_some, if_pos hone, List.getElem_map] at hchild
    exact newNode_ne_pushQuarters _ (Option.some.inj hchild)
  · intro h
    rw [builtBlock, describedBlock, readLine_eq]
    intro read hone
    apply h read _ hone
    have hlt := (List.getElem?_eq_some_iff.mp hone).1
    omega

/-- The source builds the tree the config describes exactly if every `1` on a later line
stands at the position of its block. -/
theorem buildTree_eq_describedTree_iff (vertexNum : Nat) (config : AtSetting) :
    buildTree vertexNum config = describedTree vertexNum config ↔ OwnFlagOnly config := by
  have hline : ∀ d, (lineOf config.numbers d).length ≤ 4 := by
    intro d
    rw [lineOf, List.length_take]
    omega
  rw [buildTree_eq, describedTree]
  constructor
  · intro h d hd hflag
    have hone : 1 ∈ config.numbers.take 4 := by
      apply List.mem_of_getElem? (i := d)
      rw [List.getElem?_take_of_lt hd, hflag]
    have hlen : d < ((root vertexNum).quarters.map newNode).length := by
      simpa [Rect.quarters] using hd
    rw [if_pos hone, if_pos hone] at h
    have hchild := congrArg (fun n => n.child[d]?) h
    simp only [Node.child, List.getElem?_mapIdx, List.getElem?_eq_getElem hlen, Option.map_some,
      if_pos hflag] at hchild
    exact (builtBlock_eq_iff (hline d) _).mp (Option.some.inj hchild)
  · intro h
    split
    · congr 1
      apply List.ext_getElem
      · simp
      · intro d h₁ h₂
        have hd : d < 4 := by simpa [Rect.quarters] using h₁
        rw [List.getElem_mapIdx, List.getElem_mapIdx]
        split
        · rename_i hflag
          exact (builtBlock_eq_iff (hline d) _).mpr (h d hd hflag)
        · rfl
    · rfl

namespace Node

/-- Every inner node has its four blocks as children. -/
inductive Partitioned : Node → Prop
  | leaf {r : Rect} (hr : r.Valid) : Partitioned (mk r [])
  | split {r : Rect} {cs : List Node} (hr : r.Valid) (hrect : cs.map rect = r.quarters)
      (hcs : ∀ c ∈ cs, Partitioned c) : Partitioned (mk r cs)

theorem Partitioned.covering {n : Node} (h : n.Partitioned) : n.Covering := by
  induction h with
  | leaf hr => exact .leaf _
  | split hr hrect hcs ih => exact Covering.of_quarters ih hrect

theorem Partitioned.ne_nil {r : Rect} {cs : List Node} (hrect : cs.map rect = r.quarters) :
    cs ≠ [] := by
  rintro rfl
  cases hrect

/-- The leaves lie inside the node. -/
theorem Partitioned.within_of_mem {n : Node} (h : n.Partitioned) :
    ∀ r ∈ n.leaves, r.Within n.rect := by
  induction h with
  | leaf hr =>
    intro r hmem
    rw [List.mem_singleton.mp hmem]
    exact fun _ _ hc => hc
  | split hr hrect hcs ih =>
    intro r hmem i edge hc
    rw [leaves_mk _ (Partitioned.ne_nil hrect)] at hmem
    obtain ⟨c, hmem, hr'⟩ := List.mem_flatMap.mp hmem
    apply Rect.within_of_mem_quarters hr _ i edge (ih c hmem r hr' i edge hc)
    rw [← hrect]
    exact List.mem_map_of_mem hmem

/-- The leaves are disjoint. -/
theorem Partitioned.pairwise_disjoint {n : Node} (h : n.Partitioned) :
    n.leaves.Pairwise Rect.Disjoint := by
  induction h with
  | leaf hr => exact List.pairwise_singleton _ _
  | @split r cs hr hrect hcs ih =>
    rw [leaves_mk _ (Partitioned.ne_nil hrect), List.pairwise_flatMap]
    have hblocks : cs.Pairwise fun c d => c.rect.Disjoint d.rect := by
      rw [← List.pairwise_map, hrect]
      exact Rect.pairwise_disjoint_quarters r
    refine ⟨ih, hblocks.imp_of_mem ?_⟩
    intro c d hc hd hdisj p hp q hq i edge hpq
    exact hdisj i edge ⟨(hcs c hc).within_of_mem p hp i edge hpq.1,
      (hcs d hd).within_of_mem q hq i edge hpq.2⟩

theorem partitioned_quarters {r : Rect} (hr : r.Valid) :
    ∀ c ∈ r.quarters.map newNode, c.Partitioned := by
  intro c hc
  obtain ⟨q, hq, rfl⟩ := List.mem_map.mp hc
  exact .leaf (Rect.valid_of_mem_quarters hr hq)

/-- Splitting some of the four blocks keeps them four. -/
theorem Partitioned.split_mapIdx {r : Rect} (hr : r.Valid) {f : Nat → Node → Node}
    (hrect : ∀ k nd, (f k nd).rect = nd.rect)
    (hf : ∀ k, ∀ nd ∈ r.quarters.map newNode, (f k nd).Partitioned) :
    Partitioned (mk r ((r.quarters.map newNode).mapIdx f)) := by
  apply Partitioned.split hr
  · apply List.ext_getElem
    · simp
    · intro k h₁ h₂
      rw [List.getElem_map, List.getElem_mapIdx, hrect, List.getElem_map]
      rfl
  · intro c hc
    obtain ⟨k, hk, rfl⟩ := List.mem_iff_getElem.mp hc
    rw [List.getElem_mapIdx]
    exact hf k _ (List.getElem_mem _)

end Node

/-- The described tree cuts every node that it cuts into its four blocks. -/
theorem describedTree_partitioned (vertexNum : Nat) (config : AtSetting) :
    (describedTree vertexNum config).Partitioned := by
  have hpush : ∀ r : Rect, r.Valid → (newNode r).pushQuarters.Partitioned := fun r hr =>
    .split hr (Node.map_rect_newNode _) (Node.partitioned_quarters hr)
  rw [describedTree]
  split
  · apply Node.Partitioned.split_mapIdx (root_valid vertexNum)
    · intro k nd
      split
      · rfl
      · rfl
    · intro k nd hnd
      obtain ⟨q, hq, rfl⟩ := List.mem_map.mp hnd
      have hvalid := Rect.valid_of_mem_quarters (root_valid vertexNum) hq
      split
      · apply Node.Partitioned.split_mapIdx hvalid
        · intro j sub
          split
          · exact Node.rect_pushQuarters sub
          · rfl
        · intro j sub hsub
          obtain ⟨q', hq', rfl⟩ := List.mem_map.mp hsub
          have hvalid' := Rect.valid_of_mem_quarters hvalid hq'
          split
          · exact hpush q' hvalid'
          · exact .leaf hvalid'
      · exact .leaf hvalid
  · exact .leaf (root_valid vertexNum)

theorem Rect.Disjoint.symm {p q : Rect} (h : p.Disjoint q) : q.Disjoint p :=
  fun i edge hqp => h i edge hqp.symm

/-- Disjoint leaves with the square as their union hold every edge once. -/
theorem exactTiling_of_disjoint {vertexNum : Nat} {leaves : List Rect}
    (hdisj : leaves.Pairwise Rect.Disjoint)
    (hunion : ∀ i edge, (∃ r ∈ leaves, r.Contains i edge) ↔ i ≤ vertexNum ∧ edge ≤ vertexNum) :
    ExactTiling vertexNum leaves := by
  refine ⟨hdisj, hunion, ?_⟩
  intro i hi edge hedge
  obtain ⟨r, hr, hc⟩ := (hunion i edge).mpr ⟨hi, hedge⟩
  obtain ⟨k, hk, rfl⟩ := List.mem_iff_getElem.mp hr
  refine ⟨⟨k, hk⟩, hc, ?_⟩
  rintro ⟨j, hj⟩ hcj
  by_contra hne
  have hjk : j ≠ k := fun h => hne (Fin.ext h)
  rw [List.pairwise_iff_getElem] at hdisj
  rcases Nat.lt_or_gt_of_ne hjk with hlt | hlt
  · exact hdisj j k hj hk hlt i edge ⟨hcj, hc⟩
  · exact hdisj k j hk hj hlt i edge ⟨hc, hcj⟩

/-- Every edge is in exactly one leaf of the described tree. -/
theorem describedTree_exactTiling (vertexNum : Nat) (config : AtSetting) :
    ExactTiling vertexNum (describedTree vertexNum config).leaves := by
  have hpart := describedTree_partitioned vertexNum config
  have hrect : (describedTree vertexNum config).rect = root vertexNum := by
    rw [describedTree]
    split
    · rfl
    · rfl
  apply exactTiling_of_disjoint hpart.pairwise_disjoint
  intro i edge
  constructor
  · rintro ⟨r, hr, hc⟩
    have hin := hpart.within_of_mem r hr i edge hc
    rw [hrect] at hin
    exact ⟨hin.1.2, hin.2.2⟩
  · rintro ⟨hi, hedge⟩
    apply hpart.covering.coveredBy i edge
    rw [hrect]
    exact ⟨⟨Nat.zero_le _, hi⟩, Nat.zero_le _, hedge⟩

/-- The order of the leaves does not matter. -/
theorem ExactTiling.schedLeaves {vertexNum : Nat} {leaves : List Rect}
    (h : ExactTiling vertexNum leaves) : ExactTiling vertexNum (schedLeaves leaves) := by
  have hperm := schedLeaves_perm leaves
  apply exactTiling_of_disjoint
  · exact hperm.symm.pairwise h.disjoint fun hpq => hpq.symm
  · intro i edge
    rw [← h.union i edge]
    simp only [hperm.mem_iff]

/-- The tree is the one the config describes, with leaves that hold every edge once, exactly
if every `1` on the line of a block stands at the position of the block. -/
theorem tree_described_iff (vertexNum : Nat) (config : AtSetting) :
    (buildTree vertexNum config = describedTree vertexNum config ∧
      ExactTiling vertexNum (inorderLeaves vertexNum config) ∧
      ExactTiling vertexNum (schedLeaves (inorderLeaves vertexNum config))) ↔
      OwnFlagOnly config := by
  rw [← buildTree_eq_describedTree_iff vertexNum]
  constructor
  · exact fun h => h.1
  · intro h
    have hexact := describedTree_exactTiling vertexNum config
    rw [← h] at hexact
    exact ⟨h, hexact, hexact.schedLeaves⟩

/-- `at_setting_nonmun.config` asks for the four sub-blocks of block `0` to be split. The
source splits sub-block `0` four times. -/
theorem tree_nonmun_not_described :
    ¬ (buildTree 15 atSettingNonmun = describedTree 15 atSettingNonmun ∧
      ExactTiling 15 (inorderLeaves 15 atSettingNonmun) ∧
      ExactTiling 15 (schedLeaves (inorderLeaves 15 atSettingNonmun))) := by
  rintro ⟨-, hexact, -⟩
  have hdisj := List.pairwise_iff_getElem.mp hexact.disjoint 0 4 (by decide) (by decide) (by decide)
  exact hdisj 0 0 (by decide)

end Tiling

end GcnSim
