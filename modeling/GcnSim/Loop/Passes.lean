import GcnSim.Loop.Writes

/-!
# What the passes read

The edges that the edge reader consumes, the rows it accepts and the lines it
receives, block by block. All three are read off the history in the loop
invariant: a finished pass has consumed the column slice of its block, and the
lines requested for a block are those the controller spends on the block.
-/

namespace GcnSim

namespace Params

variable (P : Params)

/-- The rows of block `b` with their degrees. -/
def blockDegrees (b : Nat) : List (Nat × Nat) :=
  (List.range' (P.blockStart b + 1) (P.blockEnd b - P.blockStart b)).map
    fun r => (r, P.degree r)

theorem map_col_passEdges (b p : Nat) : (P.passEdges b p).map (·.col) = P.blockCols b := by
  simp [passEdges, Function.comp_def]

theorem map_row_passRows (b p : Nat) :
    (P.passRows b p).map (fun e => (e.row, e.remain)) = P.blockDegrees b := by
  simp [passRows, blockDegrees]

theorem mem_passEdges {b p : Nat} {e : EdgeEvent} (he : e ∈ P.passEdges b p) :
    e.block = b ∧ e.pass = p := by
  obtain ⟨c, -, rfl⟩ := List.mem_map.mp he
  exact ⟨rfl, rfl⟩

theorem mem_passRows {b p : Nat} {e : RowEvent} (he : e ∈ P.passRows b p) :
    e.block = b ∧ e.pass = p := by
  obtain ⟨r, -, rfl⟩ := List.mem_map.mp he
  exact ⟨rfl, rfl⟩

end Params

open Params

namespace State

variable {P : Params}

/-- The columns consumed in pass `p` over block `b`. -/
def edgesIn (s : State) (b p : Nat) : List Nat :=
  (s.er.log.edges.filter fun e => e.block = b ∧ e.pass = p).map (·.col)

/-- The rows accepted in pass `p` over block `b`, with the `remain_col_num` they set. -/
def rowsIn (s : State) (b p : Nat) : List (Nat × Nat) :=
  (s.er.log.rows.filter fun e => e.block = b ∧ e.pass = p).map fun e => (e.row, e.remain)

/-- The edge reader has moved past pass `p` over block `b`. -/
def PassOver (s : State) (b p : Nat) : Prop :=
  b < s.er.blockCnt ∨ b = s.er.blockCnt ∧ p < s.er.xRepeat

/-- The history is that of the passes before pass `x` over block `b` and of a part of
that pass. -/
theorem Inv.history {s : State} (h : s.Inv P) : ∃ k j,
    s.er.log.edges = Blocks.upTo P.passEdges P.wW s.er.blockCnt s.er.xRepeat ++
      (P.passEdges s.er.blockCnt s.er.xRepeat).take k ∧
    s.er.log.rows = Blocks.upTo P.passRows P.wW s.er.blockCnt s.er.xRepeat ++
      (P.passRows s.er.blockCnt s.er.xRepeat).take j := by
  rcases h.phase with ⟨b, d, her, -⟩ | ⟨her, -⟩
  · exact ⟨_, _, by rw [her.block]; exact her.edges, by rw [her.block]; exact her.rows⟩
  · refine ⟨0, 0, ?_, ?_⟩
    · rw [her.block, her.pass, her.edges, List.take_zero, List.append_nil]
    · rw [her.block, her.pass, her.rows, List.take_zero, List.append_nil]

/-- A pass that is over has read its block, and every other pass a first part of it. -/
theorem Inv.passIn {s : State} (h : s.Inv P) (b : Nat) {p : Nat} (hp : p < P.wW) :
    (s.PassOver b p → s.edgesIn b p = P.blockCols b ∧ s.rowsIn b p = P.blockDegrees b) ∧
      s.edgesIn b p <+: P.blockCols b ∧ s.rowsIn b p <+: P.blockDegrees b := by
  obtain ⟨k, j, hedges, hrows⟩ := h.history
  have hfilterE := Blocks.filter_upTo (fun _ _ _ he => (P.mem_passEdges he).1)
    (fun _ _ _ he => (P.mem_passEdges he).2) P.wW s.er.blockCnt s.er.xRepeat k b p
  have hfilterR := Blocks.filter_upTo (fun _ _ _ he => (P.mem_passRows he).1)
    (fun _ _ _ he => (P.mem_passRows he).2) P.wW s.er.blockCnt s.er.xRepeat j b p
  simp only [edgesIn, rowsIn, hedges, hrows, hfilterE, hfilterR]
  by_cases hended : s.PassOver b p
  · have hdone : b < s.er.blockCnt ∧ p < P.wW ∨ b = s.er.blockCnt ∧ p < s.er.xRepeat :=
      hended.imp_left fun hb => ⟨hb, hp⟩
    rw [if_pos hdone, if_pos hdone, map_col_passEdges, map_row_passRows]
    exact ⟨fun _ => ⟨rfl, rfl⟩, List.prefix_rfl, List.prefix_rfl⟩
  · have hopen : ¬ (b < s.er.blockCnt ∧ p < P.wW ∨ b = s.er.blockCnt ∧ p < s.er.xRepeat) :=
      fun hc => hended (hc.imp_left And.left)
    rw [if_neg hopen, if_neg hopen]
    refine ⟨fun hc => absurd hc hended, ?_, ?_⟩
    · split
      · rw [List.map_take, map_col_passEdges]
        exact List.take_prefix _ _
      · exact List.nil_prefix
    · split
      · rw [List.map_take, map_row_passRows]
        exact List.take_prefix _ _
      · exact List.nil_prefix

/-- When the loop is left, every pass is over. -/
theorem Accounted.passOver {s : State} (h : s.Accounted P) (hw : 2 ≤ P.wW ∨ P.blockCount = 1)
    (hcount : P.writeLines * (P.wW * P.blockCount - 1) < P.totAxwCount)
    (hended : s.ended = true) {b p : Nat} (hb : b < P.blockCount) (hp : p < P.wW) :
    s.PassOver b p := by
  have hends := h.passEnds_ge hcount hended
  rw [passEnds, h.passes] at hends
  rcases h.phase with ⟨c, d, her, -⟩ | ⟨her, -⟩
  · have hc := her.reached.1
    rw [her.block] at hends
    rcases hw with hw | hw
    · have hfold := her.fold hw
      have hmul := Nat.mul_le_mul_right P.wW (Nat.succ_le_of_lt hc)
      rw [Nat.succ_mul, Nat.mul_comm P.blockCount] at hmul
      omega
    · obtain rfl : c = 0 := by omega
      refine Or.inr ⟨by rw [her.block]; omega, ?_⟩
      rw [hw, Nat.mul_one, Nat.zero_mul] at hends
      omega
  · exact Or.inl (by rw [her.block]; exact hb)

/-- In every run each pass consumes the column slice of its block in order, accepts the
rows of the block in order with their degrees, and is complete once the edge reader has
moved past it; all passes are complete when the loop is left, if `tot_axw_count`, which is
rounded, is above the lines of all passes but one. -/
theorem passes_read_blocks (P : Params) (hrun : P.RunOk) (hw : 2 ≤ P.wW ∨ P.blockCount = 1)
    (hcount : P.writeLines * (P.wW * P.blockCount - 1) < P.totAxwCount)
    (envs : List Env) (b : Nat) (hb : b < P.blockCount) (p : Nat) (hp : p < P.wFold) :
    (run P envs).edgesIn b p <+: P.blockCols b ∧
      (run P envs).rowsIn b p <+: P.blockDegrees b ∧
      ((run P envs).PassOver b p ∨ (run P envs).ended = true →
        (run P envs).edgesIn b p = P.blockCols b ∧
          (run P envs).rowsIn b p = P.blockDegrees b) := by
  have h := run_accounted hrun envs
  obtain ⟨hdone, hedges, hrows⟩ := h.toInv.passIn b hp
  refine ⟨hedges, hrows, fun hended => hdone ?_⟩
  rcases hended with hended | hexit
  · exact hended
  · exact h.passOver hw hcount hexit hb hp

theorem passes_read_twoBlocks : twoBlocks.RunOk ∧
    (2 ≤ twoBlocks.wW ∨ twoBlocks.blockCount = 1) ∧
    twoBlocks.writeLines * (twoBlocks.wW * twoBlocks.blockCount - 1) < twoBlocks.totAxwCount ∧
    1 < twoBlocks.blockCount ∧
    2 < twoBlocks.wFold ∧ (run twoBlocks (List.replicate 20 fastMemory)).ended = true ∧
    (run twoBlocks (List.replicate 20 fastMemory)).edgesIn 1 2 = [12, 13] := by
  have hrun : twoBlocks.RunOk := by decide +kernel
  have hb : 1 < twoBlocks.blockCount := by decide +kernel
  have hended : (run twoBlocks (List.replicate 20 fastMemory)).ended = true := by decide +kernel
  have hcols : twoBlocks.blockCols 1 = [12, 13] := by decide +kernel
  have hcount : twoBlocks.writeLines * (twoBlocks.wW * twoBlocks.blockCount - 1) <
      twoBlocks.totAxwCount := by decide +kernel
  refine ⟨hrun, Or.inl (by decide), hcount, hb, by decide, hended, ?_⟩
  rw [← hcols]
  exact ((passes_read_blocks twoBlocks hrun (Or.inl (by decide)) hcount _ 1 hb 2 (by decide)).2.2
    (Or.inr hended)).1

/-- Two blocks and a weight matrix of width one. -/
def oneFold : Params := { twoBlocks with
  wW := 1
  wW_pos := Nat.one_pos }

/-- The readers replay the first block for good, and the loop is left without a pass over
the second. -/
theorem oneFold_misses_block :
    (run oneFold (List.replicate 7 fastMemory)).ended = true ∧
      (run oneFold (List.replicate 7 fastMemory)).edgesIn 1 0 = [] ∧
      oneFold.blockCols 1 = [12, 13] := by
  decide +kernel

section Lines

/-- The columns received while the edge reader worked on block `b`. -/
def receivedIn (s : State) (b : Nat) : List Nat :=
  ((s.er.log.received.filter fun e => e.1 = b).map (·.2)).flatten

theorem count_lineBlocks (n b : Nat) :
    ((List.range n).flatMap fun b => List.replicate (P.edgeLines b) b).count b =
      if b < n then P.edgeLines b else 0 := by
  have h : ((List.range n).flatMap fun b => List.replicate (P.edgeLines b) b).filter
      (fun e => id e = b) = if b < n then List.replicate (P.edgeLines b) b else [] :=
    Blocks.filter_flatMap_range (fun b e he => List.eq_of_mem_replicate he) n b
  rw [List.count_eq_countP, List.countP_eq_length_filter]
  change (List.filter (fun e => decide (id e = b)) _).length = _
  rw [h]
  split <;> simp

/-- The first lines of a block are its first columns. -/
theorem flatten_colLines (b d : Nat) :
    ((List.range d).map (P.colLine b)).flatten = P.colStream b d := by
  induction d with
  | zero => simp [colStream]
  | succ d ih =>
    rw [List.range_succ, List.map_append, List.flatten_append, ih, colStream_succ]
    simp

/-- The lines of a block requested, answered and received, at any time. -/
theorem Inv.linesIn {s : State} (h : s.Inv P) (b : Nat) :
    s.er.log.requests.count b = s.dc.colCalls.count b +
        (if b = s.er.blockCnt then s.dram.readsOut .aCol else 0) ∧
      (b < s.er.blockCnt → s.er.log.requests.count b = P.edgeLines b) ∧
      s.receivedIn b <+: P.blockCols b := by
  have hkey : ∀ b, ∀ e ∈ (List.range (P.edgeLines b)).map (fun d => (b, P.colLine b d)),
      e.1 = b := by
    intro b e he
    obtain ⟨d, -, rfl⟩ := List.mem_map.mp he
    rfl
  have hfilter := fun n => Blocks.filter_flatMap_range hkey n b
  have hlines : ∀ n, (((List.range n).map fun d => (b, P.colLine b d)).map (·.2)).flatten <+:
      P.blockCols b := by
    intro n
    rw [List.map_map]
    change ((List.range n).map (P.colLine b)).flatten <+: _
    rw [flatten_colLines]
    exact List.take_prefix _ _
  rcases h.phase with ⟨c, d, her, -⟩ | ⟨her, -⟩
  · have hcur : ((List.range d).map fun d => (c, P.colLine c d)).filter (fun e => e.1 = b) =
        if b = c then (List.range d).map fun d => (c, P.colLine c d) else [] := by
      apply Blocks.filter_of_key
      intro e he
      obtain ⟨d, -, rfl⟩ := List.mem_map.mp he
      rfl
    rw [receivedIn, her.received, her.requests, her.calls, her.block, List.filter_append,
      hfilter, hcur]
    simp only [List.count_append, count_lineBlocks, List.count_replicate, beq_iff_eq]
    rcases Nat.lt_trichotomy b c with hbc | hbc | hbc
    · rw [if_pos hbc, if_pos hbc, if_neg (by omega), if_neg (by omega), if_neg (by omega),
        if_neg (by omega), List.append_nil]
      exact ⟨by omega, fun _ => by omega, hlines _⟩
    · subst hbc
      simp only [Nat.lt_irrefl, if_false, if_true, Nat.zero_add, List.nil_append, false_implies,
        true_and]
      exact hlines d
    · simp only [show ¬ b < c by omega, show ¬ c = b by omega, show ¬ b = c by omega, if_false,
        List.append_nil, List.map_nil, List.flatten_nil, List.nil_prefix, and_true,
        false_implies]
  · rw [receivedIn, her.received, her.requests, her.calls, her.block, hfilter, count_lineBlocks,
      her.out_eq]
    refine ⟨by simp, fun hb => if_pos hb, ?_⟩
    split
    · exact hlines _
    · exact List.nil_prefix

/-- In every run the lines requested while the edge reader works on a block are those
the controller spends on the block and those still on their way; for a block that is over
the two agree, and only columns of the block are received. -/
theorem lines_agree (P : Params) (hrun : P.RunOk) (envs : List Env) (b : Nat) :
    (run P envs).er.log.requests.count b = (run P envs).dc.colCalls.count b +
        (if b = (run P envs).er.blockCnt then (run P envs).dram.readsOut .aCol else 0) ∧
      (b < (run P envs).er.blockCnt →
        (run P envs).er.log.requests.count b = (run P envs).dc.colCalls.count b ∧
          (run P envs).er.log.requests.count b = P.edgeLines b) ∧
      (run P envs).receivedIn b <+: P.blockCols b := by
  obtain ⟨hcount, hended, hreceived⟩ := (run_inv hrun envs).linesIn b
  refine ⟨hcount, fun hb => ⟨?_, hended hb⟩, hreceived⟩
  rw [hcount, if_neg (by omega), Nat.add_zero]

theorem lines_agree_twoBlocks : twoBlocks.RunOk ∧
    0 < (run twoBlocks (List.replicate 12 fastMemory)).er.blockCnt ∧
    (run twoBlocks (List.replicate 12 fastMemory)).er.log.requests.count 0 =
      (run twoBlocks (List.replicate 12 fastMemory)).dc.colCalls.count 0 := by
  have hrun : twoBlocks.RunOk := by decide +kernel
  have hended : 0 < (run twoBlocks (List.replicate 12 fastMemory)).er.blockCnt := by
    decide +kernel
  exact ⟨hrun, hended, ((lines_agree twoBlocks hrun _ 0).2.1 hended).1⟩

/-- The first of two blocks has no edges. -/
def edgelessBlock : Params := { twoBlocks with
  row := [0, 0, 0, 1, 2]
  col := [10, 11]
  row_length := by decide
  row_zero := by decide
  row_mono := by decide
  col_length := by decide }

/-- The edge reader requests line after line for the edgeless block and receives the
columns of the next one. -/
theorem edgelessBlock_receives_next :
    (run edgelessBlock (List.replicate 6 fastMemory)).er.blockCnt = 0 ∧
      edgelessBlock.blockCols 0 = [] ∧
      (run edgelessBlock (List.replicate 6 fastMemory)).receivedIn 0 = [10, 11] := by
  decide +kernel

end Lines

end State

end GcnSim
