import GcnSim.Core.Machine
import GcnSim.Lib.Buckets
import Mathlib.Data.Finset.Sort

/-!
# The tiling tree

The recursive tiling makers cut the square of the adjacency into rectangles, as
`at_setting.config` tells them: the first line has a flag for each of the four blocks
of the square, and for every block with flag `1` another line has the flags of its
four sub-blocks. The leaves of the tree, in order, are the tiles.

A node has one list for every vertex of its row range, so the vertex numbers stay far
below `2 ^ 53` and `ceil` of an integer half is that half.
-/

namespace GcnSim

namespace Tiling

/-- The rows and the columns of a node. A range is empty if it ends just before it
starts. -/
structure Rect where
  fromStart : Nat
  fromEnd : Nat
  toStart : Nat
  toEnd : Nat
  deriving DecidableEq, Repr

namespace Rect

/-- `inThisNode`. -/
def Contains (nd : Rect) (i edge : Nat) : Prop :=
  (nd.fromStart ≤ i ∧ i ≤ nd.fromEnd) ∧ nd.toStart ≤ edge ∧ edge ≤ nd.toEnd

instance (nd : Rect) (i edge : Nat) : Decidable (nd.Contains i edge) :=
  inferInstanceAs (Decidable (_ ∧ _))

/-- The number of rows of a node, `fromEnd - fromStart + 1`: none for an empty range,
also in unsigned arithmetic. -/
def rowNum (nd : Rect) : Nat := nd.fromEnd + 1 - nd.fromStart

/-- A range ends at the earliest just before it starts. -/
structure Valid (nd : Rect) : Prop where
  rows : nd.fromStart ≤ nd.fromEnd + 1
  cols : nd.toStart ≤ nd.toEnd + 1

/-- No edge is in both rectangles. -/
def Disjoint (p q : Rect) : Prop := ∀ i edge, ¬ (p.Contains i edge ∧ q.Contains i edge)

/-- All edges of `p` are in `q`. -/
def Within (p q : Rect) : Prop := ∀ i edge, p.Contains i edge → q.Contains i edge

/-- Every edge of the rectangle is in one of the others. -/
def CoveredBy (nd : Rect) (rs : List Rect) : Prop :=
  ∀ i edge, nd.Contains i edge → ∃ r ∈ rs, r.Contains i edge

/-- The four blocks of a rectangle in the order of the config. -/
def quarters (nd : Rect) : List Rect :=
  let fromQ2 := (nd.fromStart + nd.fromEnd) / 2
  let toQ2 := (nd.toStart + nd.toEnd) / 2
  [⟨nd.fromStart, fromQ2, nd.toStart, toQ2⟩,
    ⟨fromQ2 + 1, nd.fromEnd, nd.toStart, toQ2⟩,
    ⟨nd.fromStart, fromQ2, toQ2 + 1, nd.toEnd⟩,
    ⟨fromQ2 + 1, nd.fromEnd, toQ2 + 1, nd.toEnd⟩]

end Rect

/-- A node of the tree. -/
inductive Node where
  | mk (rect : Rect) (child : List Node)

/-- `newNode`. -/
def newNode (rect : Rect) : Node := .mk rect []

namespace Node

def rect : Node → Rect
  | mk r _ => r

def child : Node → List Node
  | mk _ c => c

/-- The four nodes pushed on `child` when a node is split. -/
def pushQuarters : Node → Node
  | mk r c => mk r (c ++ r.quarters.map newNode)

mutual

/-- `getLeavesInorder`. -/
def leaves : Node → List Rect
  | mk r [] => [r]
  | mk _ (c :: cs) => c.leaves ++ leavesOf cs

/-- The leaves of the children that are left. -/
def leavesOf : List Node → List Rect
  | [] => []
  | c :: cs => c.leaves ++ leavesOf cs

end

end Node

/-- The numbers of `at_setting.config`, in the order they are read. There are enough of
them: four, and four for every `1` among the first four. -/
structure AtSetting where
  numbers : List Nat
  enough : 4 + 4 * (numbers.take 4).count 1 ≤ numbers.length

/-- `-1` as it is read into a `uint64_t`. -/
def minusOne : Nat := u64Size - 1

/-- The numbers of `at_setting_nonmun.config`. -/
def atSettingNonmun : AtSetting where
  numbers := [1, 1, 1, minusOne, 1, 1, 1, 1, minusOne, minusOne, minusOne, minusOne,
    minusOne, minusOne, minusOne, minusOne]
  enough := by decide

/-- The node of the whole adjacency. -/
def root (vertexNum : Nat) : Rect := ⟨0, vertexNum, 0, vertexNum⟩

/-- The loop over the flags of a later line, for the sub-blocks of block `firstDepth`. The
node it splits is number `firstDepth`, whatever the position of the flag. -/
def readLine (firstDepth : Nat) (line : List Nat) (secondDepthNds : List Node) : List Node :=
  line.foldl (fun nds temp => if temp = 1 then nds.modify firstDepth Node.pushQuarters else nds)
    secondDepthNds

/-- One turn of the loop over the first level: the children of the root and the numbers that
are not read yet. -/
def blockTurn (firstIdentifier : List Nat) (st : List Node × List Nat) (firstDepth : Nat) :
    List Node × List Nat :=
  if firstIdentifier[firstDepth]? = some 1 then
    (st.1.modify firstDepth fun nd =>
      .mk nd.rect (nd.child ++ readLine firstDepth (st.2.take 4) (nd.rect.quarters.map newNode)),
      st.2.drop 4)
  else st

/-- The tree of `recursive_tiling_maker` and `recursive_tiling_maker_reschedule`. -/
def buildTree (vertexNum : Nat) (config : AtSetting) : Node :=
  let firstIdentifier := config.numbers.take 4
  if 1 ∈ firstIdentifier then
    .mk (root vertexNum) ((List.range 4).foldl (blockTurn firstIdentifier)
      ((root vertexNum).quarters.map newNode, config.numbers.drop 4)).1
  else newNode (root vertexNum)

/-- The tree of `recursive_tiling_maker_uni_directed`, which reads four numbers only. -/
def buildTreeUniDirected (vertexNum : Nat) (numbers : List Nat) : Node :=
  if 1 ∈ numbers.take 4 then
    let q2 := vertexNum / 2
    .mk (root vertexNum) [newNode ⟨0, q2, 0, q2⟩, newNode ⟨q2 + 1, vertexNum, 0, vertexNum⟩,
      newNode ⟨0, q2, q2 + 1, vertexNum⟩]
  else newNode (root vertexNum)

/-- `inorderLeaves` of the tree. -/
def inorderLeaves (vertexNum : Nat) (config : AtSetting) : List Rect :=
  (buildTree vertexNum config).leaves

/-- The set `idxSet` of the column starts, as it is iterated. -/
def idxSet (leaves : List Rect) : List Nat := (leaves.map Rect.toStart).toFinset.sort (· ≤ ·)

/-- `schedLeaves`: for every column start the leaves with it. -/
def schedLeaves (leaves : List Rect) : List Rect :=
  Buckets.groups Rect.toStart (idxSet leaves) leaves

namespace Rect

variable {nd : Rect}

/-- Splitting a range in the middle leaves nothing out. -/
theorem coveredBy_quarters (nd : Rect) : nd.CoveredBy nd.quarters := by
  intro i edge h
  simp only [Contains] at h
  simp only [quarters, List.mem_cons, List.not_mem_nil, or_false, exists_eq_or_imp,
    exists_eq_left, Contains]
  omega

/-- The halves of a range, also of an empty one, are ranges again. -/
theorem valid_of_mem_quarters (h : nd.Valid) {r : Rect} (hr : r ∈ nd.quarters) : r.Valid := by
  obtain ⟨hrows, hcols⟩ := h
  simp only [quarters, List.mem_cons, List.not_mem_nil, or_false] at hr
  rcases hr with rfl | rfl | rfl | rfl
  all_goals
    constructor
    · dsimp only
      omega
    · dsimp only
      omega

theorem within_of_mem_quarters (h : nd.Valid) {r : Rect} (hr : r ∈ nd.quarters) :
    r.Within nd := by
  obtain ⟨hrows, hcols⟩ := h
  intro i edge hc
  simp only [quarters, List.mem_cons, List.not_mem_nil, or_false] at hr
  simp only [Contains] at hc ⊢
  rcases hr with rfl | rfl | rfl | rfl
  all_goals
    dsimp only at hc
    omega

theorem pairwise_disjoint_quarters (nd : Rect) : nd.quarters.Pairwise Disjoint := by
  simp only [quarters, List.pairwise_cons, List.forall_mem_cons, Disjoint, Contains]
  refine ⟨⟨?_, ?_, ?_, by simp⟩, ⟨?_, ?_, by simp⟩, ⟨?_, by simp⟩, by simp, List.Pairwise.nil⟩
  all_goals
    intro i edge h
    omega

end Rect

namespace Node

theorem leavesOf_eq (cs : List Node) : leavesOf cs = cs.flatMap leaves := by
  induction cs with
  | nil => rfl
  | cons c cs ih => rw [leavesOf, ih, List.flatMap_cons]

/-- The leaves of an inner node are those of its children. -/
theorem leaves_mk (r : Rect) {cs : List Node} (h : cs ≠ []) :
    (mk r cs).leaves = cs.flatMap leaves := by
  cases cs with
  | nil => exact absurd rfl h
  | cons c cs => rw [leaves, leavesOf_eq, List.flatMap_cons]

/-- The children of every inner node cover it. -/
inductive Covering : Node → Prop
  | leaf (r : Rect) : Covering (mk r [])
  | split {r : Rect} {cs : List Node} (hne : cs ≠ []) (hcov : r.CoveredBy (cs.map rect))
      (hcs : ∀ c ∈ cs, Covering c) : Covering (mk r cs)

/-- The leaves cover the node. -/
theorem Covering.coveredBy {n : Node} (h : n.Covering) : n.rect.CoveredBy n.leaves := by
  induction h with
  | leaf r =>
    intro i edge hc
    exact ⟨_, List.mem_singleton_self _, hc⟩
  | split hne hcov hcs ih =>
    intro i edge hc
    rw [leaves_mk _ hne]
    obtain ⟨r', hr', hc'⟩ := hcov i edge hc
    obtain ⟨c, hmem, rfl⟩ := List.mem_map.mp hr'
    obtain ⟨l, hl, hcl⟩ := ih c hmem i edge hc'
    exact ⟨l, List.mem_flatMap.mpr ⟨c, hmem, hl⟩, hcl⟩

theorem covering_map_newNode (rs : List Rect) : ∀ c ∈ rs.map newNode, c.Covering := by
  intro c hc
  obtain ⟨q, -, rfl⟩ := List.mem_map.mp hc
  exact .leaf q

@[simp] theorem map_rect_newNode (rs : List Rect) : (rs.map newNode).map rect = rs := by
  rw [List.map_map]
  exact List.map_id _

/-- A node whose last children are its four blocks is covered. -/
theorem Covering.append_quarters {r : Rect} {cs qs : List Node} (hcs : ∀ c ∈ cs, Covering c)
    (hqs : ∀ c ∈ qs, Covering c) (hrect : qs.map rect = r.quarters) :
    Covering (mk r (cs ++ qs)) := by
  apply Covering.split
  · intro h
    rw [(List.append_eq_nil_iff.mp h).2] at hrect
    cases hrect
  · intro i edge hc
    obtain ⟨q, hq, hcq⟩ := Rect.coveredBy_quarters r i edge hc
    refine ⟨q, ?_, hcq⟩
    rw [List.map_append, hrect]
    exact List.mem_append_right _ hq
  · intro c hc
    rcases List.mem_append.mp hc with hc | hc
    · exact hcs c hc
    · exact hqs c hc

theorem Covering.of_quarters {r : Rect} {qs : List Node} (hqs : ∀ c ∈ qs, Covering c)
    (hrect : qs.map rect = r.quarters) : Covering (mk r qs) := by
  rw [← List.nil_append qs]
  exact Covering.append_quarters (fun c hc => absurd hc List.not_mem_nil) hqs hrect

theorem Covering.children {n : Node} (h : n.Covering) : ∀ c ∈ n.child, c.Covering := by
  cases h with
  | leaf r => exact fun c hc => absurd hc List.not_mem_nil
  | split hne hcov hcs => exact hcs

@[simp] theorem rect_pushQuarters (n : Node) : n.pushQuarters.rect = n.rect := by
  cases n with
  | mk r c => rfl

/-- Splitting a node, also one that is split already, covers it. -/
theorem Covering.pushQuarters {n : Node} (h : n.Covering) : n.pushQuarters.Covering := by
  cases n with
  | mk r c =>
    exact Covering.append_quarters h.children (covering_map_newNode _) (map_rect_newNode _)

end Node

theorem readLine_cons (firstDepth temp : Nat) (line : List Nat) (nds : List Node) :
    readLine firstDepth (temp :: line) nds = readLine firstDepth line
      (if temp = 1 then nds.modify firstDepth Node.pushQuarters else nds) := rfl

/-- The flags of a line only add to one node. -/
theorem map_rect_readLine (firstDepth : Nat) (line : List Nat) (nds : List Node) :
    (readLine firstDepth line nds).map Node.rect = nds.map Node.rect := by
  induction line generalizing nds with
  | nil => rfl
  | cons temp line ih =>
    rw [readLine_cons, ih]
    split
    · exact Buckets.map_modify_of_eq Node.rect_pushQuarters nds firstDepth
    · rfl

theorem covering_readLine (firstDepth : Nat) (line : List Nat) {nds : List Node}
    (h : ∀ n ∈ nds, n.Covering) : ∀ n ∈ readLine firstDepth line nds, n.Covering := by
  induction line generalizing nds with
  | nil => exact h
  | cons temp line ih =>
    rw [readLine_cons]
    apply ih
    split
    · exact Buckets.forall_mem_modify (fun n hn => hn.pushQuarters) h firstDepth
    · exact h

/-- A turn of the loop over the first level keeps the blocks covered. -/
theorem blockTurn_covering (first : List Nat) {st : List Node × List Nat} (firstDepth : Nat)
    (h : ∀ n ∈ st.1, n.Covering) : ∀ n ∈ (blockTurn first st firstDepth).1, n.Covering := by
  rw [blockTurn]
  split
  · apply Buckets.forall_mem_modify _ h
    intro n hn
    apply Node.Covering.append_quarters hn.children
    · exact covering_readLine _ _ (Node.covering_map_newNode _)
    · rw [map_rect_readLine, Node.map_rect_newNode]
  · exact h

theorem map_rect_blockTurn (first : List Nat) (st : List Node × List Nat) (firstDepth : Nat) :
    (blockTurn first st firstDepth).1.map Node.rect = st.1.map Node.rect := by
  rw [blockTurn]
  split
  · apply Buckets.map_modify_of_eq
    intro n
    rfl
  · rfl

theorem root_valid (vertexNum : Nat) : (root vertexNum).Valid :=
  ⟨Nat.zero_le _, Nat.zero_le _⟩

/-- Whatever the flags are, the tree covers the adjacency. -/
theorem buildTree_covering (vertexNum : Nat) (config : AtSetting) :
    (buildTree vertexNum config).Covering := by
  have hblocks : ∀ (ds : List Nat) (st : List Node × List Nat), (∀ n ∈ st.1, n.Covering) →
      st.1.map Node.rect = (root vertexNum).quarters →
      (∀ n ∈ (ds.foldl (blockTurn (config.numbers.take 4)) st).1, n.Covering) ∧
        (ds.foldl (blockTurn (config.numbers.take 4)) st).1.map Node.rect =
          (root vertexNum).quarters := by
    intro ds
    induction ds with
    | nil => exact fun st h hrect => ⟨h, hrect⟩
    | cons d ds ih =>
      intro st h hrect
      exact ih _ (blockTurn_covering _ d h) (by rw [map_rect_blockTurn, hrect])
  rw [buildTree]
  split
  · obtain ⟨hcov, hrect⟩ := hblocks (List.range 4)
      ((root vertexNum).quarters.map newNode, config.numbers.drop 4)
      (Node.covering_map_newNode _) (Node.map_rect_newNode _)
    exact Node.Covering.of_quarters hcov hrect
  · exact .leaf (root vertexNum)

theorem buildTreeUniDirected_covering (vertexNum : Nat) (numbers : List Nat) :
    (buildTreeUniDirected vertexNum numbers).Covering := by
  rw [buildTreeUniDirected]
  split
  · apply Node.Covering.split (List.cons_ne_nil _ _)
    · intro i edge hc
      simp only [Rect.Contains, root] at hc
      simp only [List.map_cons, List.map_nil, newNode, Node.rect, List.mem_cons,
        List.not_mem_nil, or_false, exists_eq_or_imp, exists_eq_left, Rect.Contains]
      omega
    · exact Node.covering_map_newNode [_, _, _]
  · exact .leaf (root vertexNum)

end Tiling

end GcnSim
