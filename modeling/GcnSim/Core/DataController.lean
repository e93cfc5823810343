import GcnSim.Core.Machine
import GcnSim.Lib.Blocks

/-!
# Line replies of the data controller

A reply to a row or column line read carries no data of its own: the controller
cuts the next line off its queue, at most `CACHE_LINE_COUNT` entries and never
past the end of the block whose count is at the front of the count queue.
`AdjRowDataReturn` and `AdjColDataReturn` are this one function on two queues.
-/

namespace GcnSim

/-- A data queue with its queue of block counts and the entries of the front block
that were already returned (`v_limit`, resp. `e_limit`). -/
structure LineFeed where
  data : List Nat
  counts : List Nat
  limit : Nat
  deriving DecidableEq, Repr

/-- The common body of `AdjRowDataReturn` and `AdjColDataReturn`. `count` is an `int`, which holds
the entries of a line for `CACHE_LINE_COUNT < 2 ^ 31`. -/
def LineFeed.dataReturn (clc : Nat) (cnt dat : Access) (junk : Junk) (f : LineFeed) :
    List Nat × LineFeed × List Access :=
  let front := popFront cnt junk f.counts
  if front.1 ≤ f.limit + clc then
    let line := popMany dat junk (front.1 - f.limit) f.data
    (line.1, ⟨line.2.1, front.2.1, 0⟩, front.2.2 ++ line.2.2)
  else
    let line := popMany dat junk clc f.data
    (line.1, ⟨line.2.1, f.counts, f.limit + clc⟩, front.2.2 ++ line.2.2)

/-- `DataController` with the queues it hands out. `colCalls` and `colEntry` are history:
the entry of `edge_req_count_cnt` each column reply was spent on, and the front entry. -/
structure DataController where
  row : LineFeed
  col : LineFeed
  colCalls : List Nat
  colEntry : Nat
  faults : List Access
  deriving DecidableEq, Repr

namespace DataController

/-- `AdjRowDataReturn`. -/
def adjRowDataReturn (clc : Nat) (junk : Junk) (dc : DataController) :
    List Nat × DataController :=
  let r := dc.row.dataReturn clc .vertexReqCountCnt .adjrowindex junk
  (r.1, { dc with row := r.2.1, faults := dc.faults ++ r.2.2 })

/-- `AdjColDataReturn`. -/
def adjColDataReturn (clc : Nat) (junk : Junk) (dc : DataController) :
    List Nat × DataController :=
  let r := dc.col.dataReturn clc .edgeReqCountCnt .adjcolindex junk
  (r.1, { dc with col := r.2.1
                  colCalls := dc.colCalls ++ [dc.colEntry]
                  colEntry := dc.colEntry + (dc.col.counts.length - r.2.1.counts.length)
                  faults := dc.faults ++ r.2.2 })

end DataController

/-- The replies a block of `c` entries takes; an empty block takes one empty reply. -/
def lineCalls (clc c : Nat) : Nat := max 1 (ceilDiv c clc)

theorem lineCalls_of_pos {clc c : Nat} (hclc : 0 < clc) (hc : 0 < c) :
    lineCalls clc c = ceilDiv c clc := by
  have h := ceilDiv_pos hc hclc
  rw [lineCalls]
  omega

/-- The lines before a line of the block lie in the block. -/
theorem mul_le_of_lt_lineCalls {clc c d : Nat} (hclc : 0 < clc) (hd : d < lineCalls clc c) :
    d * clc ≤ c := by
  rcases Nat.eq_zero_or_pos d with rfl | hpos
  · omega
  · have h : d < ceilDiv c clc := by rw [lineCalls] at hd; omega
    exact ((lt_ceilDiv_iff hclc).mp h).le

namespace LineFeed

/-- The feed that has returned `d` lines of block `b`, not yet all of them. -/
def inBlock (clc : Nat) (counts data : List Nat) (b d : Nat) : LineFeed where
  data := data.drop (Blocks.offset counts b + d * clc)
  counts := counts.drop b
  limit := d * clc

/-- The feed that has returned `d` lines of block `b`, possibly all of them. -/
def after (clc : Nat) (counts data : List Nat) (b d : Nat) : LineFeed :=
  if d < lineCalls clc (counts.getD b 0) then inBlock clc counts data b d
  else inBlock clc counts data (b + 1) 0

theorem after_zero (clc : Nat) (counts data : List Nat) (b : Nat) :
    after clc counts data b 0 = inBlock clc counts data b 0 := by
  rw [after, if_pos (by rw [lineCalls]; omega)]

/-- A finished block and an untouched next block are the same feed. -/
theorem after_all {clc : Nat} {counts data : List Nat} {b d : Nat}
    (hd : lineCalls clc (counts.getD b 0) ≤ d) :
    after clc counts data b d = after clc counts data (b + 1) 0 := by
  rw [after, if_neg (by omega), after_zero]

variable {clc : Nat} {counts data : List Nat} {b d : Nat}

/-- One reply returns the next line of the block and nothing past it, without an
undefined access. -/
theorem dataReturn_after (hclc : 0 < clc) (hb : b < counts.length)
    (hsum : counts.sum ≤ data.length) (hd : d < lineCalls clc (counts.getD b 0))
    (cnt dat : Access) (junk : Junk) :
    (after clc counts data b d).dataReturn clc cnt dat junk =
      (((Blocks.slice counts data b).drop (d * clc)).take clc,
        after clc counts data b (d + 1), []) := by
  have hfit := Blocks.offset_add_count_le counts b
  have hcounts := Blocks.drop_eq_getD_cons hb
  have hlim := mul_le_of_lt_lineCalls hclc hd
  have hmul : (d + 1) * clc = d * clc + clc := Nat.succ_mul _ _
  have hline : ((Blocks.slice counts data b).drop (d * clc)).take clc =
      (data.drop (Blocks.offset counts b + d * clc)).take
        (min clc (counts.getD b 0 - d * clc)) := by
    rw [Blocks.slice, List.drop_take, List.drop_drop, List.take_take]
  rw [after, if_pos hd]
  simp only [dataReturn, inBlock, hcounts, popFront_cons, List.nil_append]
  by_cases hlast : counts.getD b 0 ≤ d * clc + clc
  · have hdone : ¬ d + 1 < lineCalls clc (counts.getD b 0) := by
      rw [lineCalls, Nat.not_lt, Nat.max_le]
      exact ⟨by omega, (ceilDiv_le_iff hclc).mpr (by omega)⟩
    have hoff : Blocks.offset counts (b + 1) = Blocks.offset counts b + counts.getD b 0 :=
      Blocks.offset_succ hb
    rw [if_pos hlast, popMany, if_pos (by rw [List.length_drop]; omega), after, if_neg hdone,
      hline, Nat.min_eq_right (by omega), List.drop_drop]
    simp only [inBlock, Nat.zero_mul, Nat.add_zero, hoff]
    rw [show Blocks.offset counts b + d * clc + (counts.getD b 0 - d * clc) =
      Blocks.offset counts b + counts.getD b 0 by omega]
  · have hmore : d + 1 < lineCalls clc (counts.getD b 0) := by
      have h : d + 1 < ceilDiv (counts.getD b 0) clc := (lt_ceilDiv_iff hclc).mpr (by omega)
      rw [lineCalls]
      omega
    rw [if_neg hlast, popMany, if_pos (by rw [List.length_drop]; omega), after, if_pos hmore,
      hline, Nat.min_eq_left (by omega), List.drop_drop]
    simp only [inBlock, hcounts, hmul]
    rw [Nat.add_assoc]

/-- The reply pops the count of the block exactly when it returns its last line. -/
theorem length_counts_after :
    (after clc counts data b d).counts.length =
      if d < lineCalls clc (counts.getD b 0) then counts.length - b
      else counts.length - (b + 1) := by
  rw [after]
  split <;> simp [inBlock]

end LineFeed

end GcnSim
