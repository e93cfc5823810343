import GcnSim.Core.DataController
import GcnSim.Cache.Replacement

/-!
# Line slicing with an `int` count

`AdjRowDataReturn` and `AdjColDataReturn` keep the number of entries to pop in an
`int`, although the block counts and `CACHE_LINE_COUNT` are words. The evolution of
the count queue and of the running limit does not depend on it, so the calls are
spent on the blocks as meant in any case. The entries are right exactly when no line
is longer than an `int` can count.
-/

namespace GcnSim

/-- The rounds of `for (int i = 0; i < count; i++)` for a `count` assigned the word `n`. -/
def intRounds (n : Nat) : Nat := (intOfU64 n).toNat

theorem intRounds_of_lt {n : Nat} (h : n < 2147483648) : intRounds n = n := by
  rw [intRounds, intOfU64_of_lt h, Int.toNat_natCast]

/-- An `int` never counts past the largest one. -/
theorem intRounds_lt_bound (n : Nat) : intRounds n < 2147483648 := by
  rw [intRounds, intOfU64]
  split <;> omega

theorem intRounds_le (n : Nat) : intRounds n ≤ n := by
  rcases Nat.lt_or_ge n 2147483648 with h | h
  · exact (intRounds_of_lt h).le
  · exact ((intRounds_lt_bound n).trans_le h).le

namespace LineFeed

/-- The common body of `AdjRowDataReturn` and `AdjColDataReturn` with its `int count`. The
sum of limit and line size stays below `2 ^ 64` for every queue that fits in memory. -/
def adjDataReturn (clc : Nat) (cnt dat : Access) (junk : Junk) (f : LineFeed) :
    List Nat × LineFeed × List Access :=
  let front := popFront cnt junk f.counts
  if front.1 ≤ f.limit + clc then
    let line := popMany dat junk (intRounds (u64Sub front.1 f.limit)) f.data
    (line.1, ⟨line.2.1, front.2.1, 0⟩, front.2.2 ++ line.2.2)
  else
    let line := popMany dat junk (intRounds clc) f.data
    (line.1, ⟨line.2.1, f.counts, f.limit + clc⟩, front.2.2 ++ line.2.2)

variable (clc : Nat) (cnt dat : Access) (junk : Junk)

/-- The feed after `n` calls. -/
def calls (n : Nat) (f : LineFeed) : LineFeed :=
  (fun f => (f.adjDataReturn clc cnt dat junk).2.1)^[n] f

/-- What call number `n` returns. -/
def reply (n : Nat) (f : LineFeed) : List Nat :=
  ((f.calls clc cnt dat junk n).adjDataReturn clc cnt dat junk).1

theorem calls_succ (n : Nat) (f : LineFeed) :
    f.calls clc cnt dat junk (n + 1) =
      ((f.calls clc cnt dat junk n).adjDataReturn clc cnt dat junk).2.1 := by
  rw [calls, Function.iterate_succ_apply']
  rfl

/-- The calls spent on the blocks before block `b`. -/
def callsBefore (counts : List Nat) (b : Nat) : Nat := ((counts.take b).map (lineCalls clc)).sum

theorem callsBefore_succ {counts : List Nat} {b : Nat} (hb : b < counts.length) :
    callsBefore clc counts (b + 1) = callsBefore clc counts b + lineCalls clc (counts.getD b 0) := by
  simp only [callsBefore, List.take_succ_eq_append_getElem hb, List.map_append, List.sum_append,
    List.map_singleton, List.sum_singleton, List.getD_eq_getElem?_getD,
    List.getElem?_eq_getElem hb, Option.getD_some]

/-- The successive calls cut the data queue into the lines of its blocks. -/
structure Sliced (counts data : List Nat) : Prop where
  /-- Exactly `lineCalls` calls find the count of block `b` at the front. -/
  spent : ∀ b < counts.length, ∀ d < lineCalls clc (counts.getD b 0),
    (calls clc cnt dat junk (callsBefore clc counts b + d) ⟨data, counts, 0⟩).counts =
      counts.drop b
  /-- The calls of block `b` return its entries in order and no others. -/
  concat : ∀ b < counts.length,
    ((List.range (lineCalls clc (counts.getD b 0))).flatMap fun d =>
      reply clc cnt dat junk (callsBefore clc counts b + d) ⟨data, counts, 0⟩) =
      Blocks.slice counts data b
  length_le : ∀ n < callsBefore clc counts counts.length,
    (reply clc cnt dat junk n ⟨data, counts, 0⟩).length ≤ clc
  limit_start : ∀ b ≤ counts.length,
    (calls clc cnt dat junk (callsBefore clc counts b) ⟨data, counts, 0⟩).limit = 0
  /-- No call pops an empty queue. -/
  defined : ∀ n < callsBefore clc counts counts.length,
    ((calls clc cnt dat junk n ⟨data, counts, 0⟩).adjDataReturn clc cnt dat junk).2.2 = []
  /-- After the last call both queues are empty. -/
  exhausted : (calls clc cnt dat junk (callsBefore clc counts counts.length)
    ⟨data, counts, 0⟩).data = [] ∧
    (calls clc cnt dat junk (callsBefore clc counts counts.length) ⟨data, counts, 0⟩).counts = []

variable {clc : Nat} {cnt dat : Access} {junk : Junk} {counts data : List Nat}

/-- A relation to the intended feeds that every call keeps holds after every number of calls. -/
theorem calls_related {R : LineFeed → LineFeed → Prop}
    (hstart : R ⟨data, counts, 0⟩ (after clc counts data 0 0))
    (hstep : ∀ b < counts.length, ∀ d < lineCalls clc (counts.getD b 0), ∀ f,
      R f (after clc counts data b d) →
        R (f.adjDataReturn clc cnt dat junk).2.1 (after clc counts data b (d + 1)))
    (b : Nat) (hb : b ≤ counts.length) (d : Nat)
    (hd : d = 0 ∨ b < counts.length ∧ d ≤ lineCalls clc (counts.getD b 0)) :
    R (calls clc cnt dat junk (callsBefore clc counts b + d) ⟨data, counts, 0⟩)
      (after clc counts data b d) := by
  induction b generalizing d with
  | zero =>
    induction d with
    | zero => exact hstart
    | succ d ih =>
      rw [← Nat.add_assoc, calls_succ]
      exact hstep 0 (by omega) d (by omega) _ (ih (by omega))
  | succ b ihb =>
    induction d with
    | zero =>
      have h := ihb (by omega) (lineCalls clc (counts.getD b 0)) (Or.inr ⟨by omega, le_rfl⟩)
      rw [after_all le_rfl] at h
      rwa [Nat.add_zero, callsBefore_succ clc (by omega)]
    | succ d ih =>
      rw [← Nat.add_assoc, calls_succ]
      exact hstep (b + 1) (by omega) d (by omega) _ (ih (by omega))

/-- Every call before the end is one of the calls of some block. -/
theorem exists_block_of_lt {k n : Nat} (hk : k ≤ counts.length) (hn : n < callsBefore clc counts k) :
    ∃ b < k, ∃ d < lineCalls clc (counts.getD b 0), n = callsBefore clc counts b + d := by
  induction k with
  | zero => simp [callsBefore] at hn
  | succ k ih =>
    rcases Nat.lt_or_ge n (callsBefore clc counts k) with h | h
    · obtain ⟨b, hb, d, hd, he⟩ := ih (by omega) h
      exact ⟨b, by omega, d, hd, he⟩
    · rw [callsBefore_succ clc (by omega)] at hn
      exact ⟨k, by omega, n - callsBefore clc counts k, by omega, by omega⟩

theorem start_eq_after : (⟨data, counts, 0⟩ : LineFeed) = after clc counts data 0 0 := by
  simp [after_zero, inBlock]

theorem getD_mem {b : Nat} (hb : b < counts.length) : counts.getD b 0 ∈ counts := by
  rw [List.getD_eq_getElem?_getD, List.getElem?_eq_getElem hb, Option.getD_some]
  exact List.getElem_mem hb

theorem after_of_lt {b d : Nat} (hd : d < lineCalls clc (counts.getD b 0)) :
    after clc counts data b d = inBlock clc counts data b d := by
  rw [after, if_pos hd]

/-- What the calls do to the count queue and the limit does not depend on the data. -/
theorem adjDataReturn_shape (clc : Nat) (cnt dat : Access) (junk : Junk) {f g : LineFeed}
    (hcounts : f.counts = g.counts) (hlimit : f.limit = g.limit) :
    (f.adjDataReturn clc cnt dat junk).2.1.counts = (g.dataReturn clc cnt dat junk).2.1.counts ∧
    (f.adjDataReturn clc cnt dat junk).2.1.limit = (g.dataReturn clc cnt dat junk).2.1.limit := by
  simp only [adjDataReturn, dataReturn, hcounts, hlimit]
  split <;> exact ⟨rfl, rfl⟩

section Calls

variable (cnt dat : Access) (junk : Junk) (hclc : 0 < clc) (hsum : counts.sum ≤ data.length)
include hclc hsum

theorem calls_shape {b d : Nat} (hb : b ≤ counts.length)
    (hd : d = 0 ∨ b < counts.length ∧ d ≤ lineCalls clc (counts.getD b 0)) :
    (calls clc cnt dat junk (callsBefore clc counts b + d) ⟨data, counts, 0⟩).counts =
      (after clc counts data b d).counts ∧
    (calls clc cnt dat junk (callsBefore clc counts b + d) ⟨data, counts, 0⟩).limit =
      (after clc counts data b d).limit := by
  refine calls_related (R := fun f g => f.counts = g.counts ∧ f.limit = g.limit) ?_ ?_ b hb d hd
  · have h : (⟨data, counts, 0⟩ : LineFeed) = after clc counts data 0 0 := start_eq_after
    exact ⟨congrArg LineFeed.counts h, congrArg LineFeed.limit h⟩
  · intro b hb d hd f hf
    have h := adjDataReturn_shape clc cnt dat junk hf.1 hf.2
    rw [dataReturn_after hclc hb hsum hd] at h
    exact h

theorem calls_inBlock {b d : Nat} (hb : b < counts.length)
    (hd : d < lineCalls clc (counts.getD b 0)) :
    (calls clc cnt dat junk (callsBefore clc counts b + d) ⟨data, counts, 0⟩).counts =
      counts.drop b ∧
    (calls clc cnt dat junk (callsBefore clc counts b + d) ⟨data, counts, 0⟩).limit = d * clc := by
  have h := calls_shape cnt dat junk hclc hsum hb.le (Or.inr ⟨hb, hd.le⟩)
  rwa [after_of_lt hd] at h

/-- A line is as long as an `int` counts, whatever the queue holds. -/
theorem length_reply {b d : Nat} (hb : b < counts.length)
    (hd : d < lineCalls clc (counts.getD b 0)) :
    (reply clc cnt dat junk (callsBefore clc counts b + d) ⟨data, counts, 0⟩).length =
      intRounds (min clc (counts.getD b 0 - d * clc)) := by
  obtain ⟨hcounts, hlimit⟩ := calls_inBlock cnt dat junk hclc hsum hb hd
  have hle := mul_le_of_lt_lineCalls hclc hd
  simp only [reply, adjDataReturn, hcounts, hlimit, Blocks.drop_eq_getD_cons hb, popFront_cons]
  split
  · rename_i h
    rw [length_popMany, u64Sub_of_le hle, Nat.min_eq_right (by omega)]
  · rename_i h
    rw [length_popMany, Nat.min_eq_left (by omega)]

/-- While lines are counted by an `int`, the calls go through the intended feeds. -/
theorem adjDataReturn_after (hint : ∀ c ∈ counts, min c clc < 2147483648) {b d : Nat}
    (hb : b < counts.length) (hd : d < lineCalls clc (counts.getD b 0)) :
    (after clc counts data b d).adjDataReturn clc cnt dat junk =
      (((Blocks.slice counts data b).drop (d * clc)).take clc,
        after clc counts data b (d + 1), []) := by
  have hbound := hint _ (getD_mem hb)
  have hle := mul_le_of_lt_lineCalls hclc hd
  rw [← dataReturn_after hclc hb hsum hd cnt dat junk, after_of_lt hd]
  simp only [adjDataReturn, dataReturn, inBlock, Blocks.drop_eq_getD_cons hb, popFront_cons]
  split
  · rename_i h
    rw [u64Sub_of_le hle, intRounds_of_lt (by omega)]
  · rename_i h
    rw [intRounds_of_lt (by omega)]

theorem calls_eq_after (hint : ∀ c ∈ counts, min c clc < 2147483648) {b d : Nat}
    (hb : b ≤ counts.length)
    (hd : d = 0 ∨ b < counts.length ∧ d ≤ lineCalls clc (counts.getD b 0)) :
    calls clc cnt dat junk (callsBefore clc counts b + d) ⟨data, counts, 0⟩ =
      after clc counts data b d := by
  refine calls_related (R := Eq) start_eq_after ?_ b hb d hd
  rintro b hb d hd f rfl
  rw [adjDataReturn_after cnt dat junk hclc hsum hint hb hd]

/-- Short lines are the lines of the blocks. -/
theorem reply_eq_line (hint : ∀ c ∈ counts, min c clc < 2147483648) {b d : Nat}
    (hb : b < counts.length) (hd : d < lineCalls clc (counts.getD b 0)) :
    reply clc cnt dat junk (callsBefore clc counts b + d) ⟨data, counts, 0⟩ =
      ((Blocks.slice counts data b).drop (d * clc)).take clc := by
  rw [reply, calls_eq_after cnt dat junk hclc hsum hint hb.le (Or.inr ⟨hb, hd.le⟩),
    adjDataReturn_after cnt dat junk hclc hsum hint hb hd]

omit hsum in
/-- The lines of a block hold as many entries as its count says. -/
theorem le_lineCalls_mul (c : Nat) : c ≤ lineCalls clc c * clc := by
  have h : ceilDiv c clc ≤ lineCalls clc c := Nat.le_max_right _ _
  exact (ceilDiv_le_iff hclc).mp h

theorem concat_lines (b : Nat) :
    ((List.range (lineCalls clc (counts.getD b 0))).flatMap fun d =>
      ((Blocks.slice counts data b).drop (d * clc)).take clc) = Blocks.slice counts data b := by
  rw [Blocks.flatMap_lines, List.take_of_length_le]
  rw [Blocks.length_slice hsum]
  exact le_lineCalls_mul hclc _

theorem sum_lines (b : Nat) :
    ((List.range (lineCalls clc (counts.getD b 0))).map fun d =>
      min clc (counts.getD b 0 - d * clc)).sum = counts.getD b 0 := by
  have h := congrArg List.length (concat_lines hclc hsum b)
  simp only [List.length_flatMap, List.length_take, List.length_drop,
    Blocks.length_slice hsum] at h
  exact h

/-- A block with a line that an `int` cannot count is not returned whole. -/
theorem concat_ne_slice {b : Nat} (hb : b < counts.length)
    (hlong : 2147483648 ≤ min (counts.getD b 0) clc) :
    ((List.range (lineCalls clc (counts.getD b 0))).flatMap fun d =>
      reply clc cnt dat junk (callsBefore clc counts b + d) ⟨data, counts, 0⟩) ≠
      Blocks.slice counts data b := by
  intro h
  have hlen := congrArg List.length h
  rw [List.length_flatMap, Blocks.length_slice hsum] at hlen
  have hlt : ((List.range (lineCalls clc (counts.getD b 0))).map fun d =>
      (reply clc cnt dat junk (callsBefore clc counts b + d) ⟨data, counts, 0⟩).length).sum <
      ((List.range (lineCalls clc (counts.getD b 0))).map fun d =>
        min clc (counts.getD b 0 - d * clc)).sum := by
    apply List.sum_lt_sum
    · intro d hd
      rw [length_reply cnt dat junk hclc hsum hb (List.mem_range.mp hd)]
      exact intRounds_le _
    · -- the first line is already too long
      have hfirst : 0 < lineCalls clc (counts.getD b 0) := by rw [lineCalls]; omega
      refine ⟨0, List.mem_range.mpr hfirst, ?_⟩
      rw [length_reply cnt dat junk hclc hsum hb hfirst]
      exact (intRounds_lt_bound _).trans_le (by omega)
  rw [sum_lines hclc hsum b] at hlt
  omega

end Calls

/-- The calls slice the queue into its blocks exactly when an `int` counts every line. -/
theorem sliced_iff (hclc : 0 < clc) (hsum : counts.sum = data.length) :
    Sliced clc cnt dat junk counts data ↔ ∀ c ∈ counts, min c clc < 2147483648 := by
  constructor
  · intro h c hc
    obtain ⟨b, hb, rfl⟩ := List.mem_iff_getElem.mp hc
    by_contra hlong
    have hget : counts.getD b 0 = counts[b] := by
      rw [List.getD_eq_getElem?_getD, List.getElem?_eq_getElem hb, Option.getD_some]
    exact concat_ne_slice cnt dat junk hclc hsum.le hb (by rw [hget]; omega) (h.concat b hb)
  · intro hint
    have hend : calls clc cnt dat junk (callsBefore clc counts counts.length) ⟨data, counts, 0⟩ =
        after clc counts data counts.length 0 :=
      calls_eq_after cnt dat junk hclc hsum.le hint le_rfl (Or.inl rfl)
    refine ⟨?_, ?_, ?_, ?_, ?_, ?_⟩
    · intro b hb d hd
      exact (calls_inBlock cnt dat junk hclc hsum.le hb hd).1
    · intro b hb
      rw [← concat_lines hclc hsum.le b]
      refine List.flatMap_congr fun d hd => ?_
      exact reply_eq_line cnt dat junk hclc hsum.le hint hb (List.mem_range.mp hd)
    · intro n hn
      obtain ⟨b, hb, d, hd, rfl⟩ := exists_block_of_lt le_rfl hn
      rw [reply_eq_line cnt dat junk hclc hsum.le hint hb hd]
      exact List.length_take_le _ _
    · intro b hb
      have h := calls_shape cnt dat junk hclc hsum.le hb (Or.inl rfl)
      rw [after_zero] at h
      simpa [inBlock] using h.2
    · intro n hn
      obtain ⟨b, hb, d, hd, rfl⟩ := exists_block_of_lt le_rfl hn
      rw [calls_eq_after cnt dat junk hclc hsum.le hint hb.le (Or.inr ⟨hb, hd.le⟩),
        adjDataReturn_after cnt dat junk hclc hsum.le hint hb hd]
    · rw [hend, after_zero]
      simp [inBlock, Blocks.offset, hsum]

theorem sliced_three_blocks :
    Sliced 2 .edgeReqCountCnt .adjcolindex (fun _ => 0) [3, 0, 2] [7, 8, 9, 5, 6] :=
  (sliced_iff (by decide) rfl).mpr (by decide)

/-- One block that fills a line of `2 ^ 31` entries: `count` becomes negative, the call
returns nothing and the columns stay in the queue. -/
theorem long_line_not_sliced :
    let data := List.replicate 2147483648 0
    [2147483648].sum = data.length ∧
    reply 2147483648 .edgeReqCountCnt .adjcolindex (fun _ => 0) 0 ⟨data, [2147483648], 0⟩ = [] ∧
    ¬ Sliced 2147483648 .edgeReqCountCnt .adjcolindex (fun _ => 0) [2147483648] data := by
  intro data
  have hsum : [2147483648].sum = data.length := (List.length_replicate ..).symm
  have hclc : 0 < 2147483648 := by decide
  refine ⟨hsum, List.eq_nil_of_length_eq_zero ?_, ?_⟩
  · exact length_reply (b := 0) (d := 0) .edgeReqCountCnt .adjcolindex (fun _ => 0) hclc hsum.le
      (by decide) (by decide)
  · intro h
    exact concat_ne_slice _ _ _ hclc hsum.le (by decide) (by decide) (h.concat 0 (by decide))

end LineFeed

end GcnSim
