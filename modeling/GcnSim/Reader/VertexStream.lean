import GcnSim.Reader.VertexBlock
import GcnSim.Lib.Run

/-!
# The rows a vertex reader emits

The vertex reader with its feed, driven by an arbitrary schedule: replies come
after any delay and `TransferData` is called at any time. As long as no row line
after the first one starts with a `0` and `w_w` is at least two, it emits every
block `w_fold` times, block after block.
-/

namespace GcnSim

/-- What happens next: a row line arrives, the reader's request turn runs, or a row is
asked for. -/
inductive RowOp where
  | reply | request | transfer
  deriving DecidableEq, Repr

/-- One step of the schedule, with what undefined reads return in it. -/
structure RowInput where
  op : RowOp
  junk : Junk

/-- The vertex reader, its feed, the lines on their way and the values returned that are
not the sentinel. -/
structure RowSystem where
  vr : VertexReader
  feed : LineFeed
  out : Nat
  emitted : List Nat
  deriving DecidableEq, Repr

namespace RowSystem

variable (P : Params)

/-- The reader as constructed, with the row line in the controller. -/
def init : RowSystem := ⟨.init P, ⟨P.row, P.vertexReqCount, 0⟩, 0, []⟩

/-- A reply comes only for a requested line. -/
def step (s : RowSystem) (i : RowInput) : RowSystem :=
  match i.op with
  | .reply =>
    if s.out = 0 then s
    else
      let r := s.feed.dataReturn P.cacheLineCount .vertexReqCountCnt .adjrowindex i.junk
      { s with vr := s.vr.receiveData r.1, feed := r.2.1, out := s.out - 1 }
  | .request =>
    let r := s.vr.requestTurn P
    { s with vr := r.1, out := s.out + r.2.length }
  | .transfer =>
    let r := s.vr.transferData P i.junk
    { s with vr := r.2.1
             emitted := if r.1 = sentinel then s.emitted else s.emitted ++ [r.1] }

/-- The system after a schedule. -/
def run (inputs : List RowInput) : RowSystem := Transition.run (step P) (init P) inputs

end RowSystem

namespace Params

variable (P : Params)

/-- Every block `w_fold` times, block after block. -/
def rowSchedule : List Nat :=
  (List.range P.blockCount).flatMap fun b => (List.replicate P.wFold (P.blockRows b)).flatten

/-- The rows of the passes before pass `p` over block `b`. -/
def rowsUpTo (b p : Nat) : List Nat := Blocks.upTo (fun b _ => P.blockRows b) P.wW b p

variable {P}

theorem rowSchedule_eq : P.rowSchedule = P.rowsUpTo P.blockCount 0 := by
  simp [rowSchedule, rowsUpTo, Blocks.upTo, List.flatMap_def]

/-- The rows of a finished pass belong to the passes before the next one. -/
theorem rowsUpTo_nextPass (b p : Nat) :
    P.rowsUpTo (P.nextPass b p).1 (P.nextPass b p).2 = P.rowsUpTo b p ++ P.blockRows b := by
  unfold nextPass
  split
  · rename_i hlast
    simp only [rowsUpTo]
    rw [← Blocks.upTo_last, show P.wW = p + 1 by have := P.wW_pos; omega, Blocks.upTo_succ]
  · exact Blocks.upTo_succ _ _ _ _

theorem blockRows_blockCount : P.blockRows P.blockCount = [] := by
  have h := lt_blockCount_iff (P := P) (b := P.blockCount)
  have hle := P.blockEnd_le P.blockCount
  apply List.eq_nil_of_length_eq_zero
  rw [length_blockRows]
  omega

end Params

open Params

/-- The emitted rows are those of the finished passes and of the current one. -/
def RowSystem.Inv (P : Params) (s : RowSystem) : Prop :=
  ∃ b p r, VertexPos P b p r s.out s.vr s.feed ∧
    s.emitted = P.rowsUpTo b p ++ (P.blockRows b).take (r - P.blockStart b)

/-- A constructed reader stands before the first row. -/
theorem VertexAt.init (P : Params) :
    VertexAt P 0 0 0 (.init P) ⟨P.row, P.vertexReqCount, 0⟩ := by
  have hB := P.blockCount_pos
  have hlt := blockStart_lt_blockEnd hB
  have hcounts := vertexReqCount_drop hB
  rw [List.drop_zero] at hcounts
  have hlines := vertexLines_eq hB
  have hpos : 0 < P.vertexLines 0 := by
    rw [hlines]
    exact ceilDiv_pos (by omega) P.cacheLineCount_pos
  exact {
    reached := ⟨hB, Or.inl rfl⟩
    feed_eq := by simp [rowFeed, LineFeed.after_zero, LineFeed.inBlock]
    tot := by
      simp only [VertexReader.init, ReaderPort.init]
      rw [hcounts, hlines]
      rfl
    pre := rfl
    pre_le := by omega
    need := fun _ => by omega
    archive := by simp [VertexReader.init]
    counts := by
      simp only [VertexReader.init]
      rw [hcounts]
      rfl
    row_ge := by simp [VertexReader.init]
    row_lt := by simpa [VertexReader.init] using hlt
    fold := fun hw => by simp only [VertexReader.init]; omega
    first := fun _ => by simp [VertexReader.init, rowStream]
    replay := fun hx => by simp [VertexReader.init] at hx
    faults := by
      simp only [VertexReader.init]
      rw [hcounts]
      rfl }

namespace RowSystem

variable {P : Params}

theorem init_inv : (init P).Inv P :=
  ⟨0, 0, 0, Or.inl ⟨0, VertexAt.init P, rfl, rfl⟩, by simp [init, rowsUpTo]⟩

/-- A finished reader hands over nothing. -/
theorem transferData_done {out : Nat} {vr : VertexReader} (h : VertexDone P out vr)
    (junk : Junk) : vr.transferData P junk = (sentinel, vr, []) :=
  VertexReader.transferData_wait P junk vr h.vq h.pass

/-- A finished reader requests nothing. -/
theorem requestTurn_done {out : Nat} {vr : VertexReader} (h : VertexDone P out vr) :
    (vr.requestTurn P).2 = [] ∧ VertexDone P out (vr.requestTurn P).1 := by
  have hturn := ReaderPort.turn_off P.cacheLineCount .aRow vr.vertexReqCount.isEmpty h.need
  exact ⟨hturn.1, ⟨h.wW, h.out_eq, h.pass, h.row, h.archive, h.vq, hturn.2, h.faults⟩⟩

/-- The rows of a pass, one more after a hand-over. -/
theorem take_blockRows_succ {b r : Nat} (hge : P.blockStart b ≤ r) (hlt : r < P.blockEnd b) :
    (P.blockRows b).take (r + 1 - P.blockStart b) =
      (P.blockRows b).take (r - P.blockStart b) ++ [P.rowPtr (r + 1)] := by
  have hk : r - P.blockStart b < (P.blockRows b).length := by rw [length_blockRows]; omega
  rw [show r + 1 - P.blockStart b = r - P.blockStart b + 1 by omega,
    List.take_succ_eq_append_getElem hk, getElem_blockRows hk]
  congr 3
  omega

/-- Every step keeps the emitted rows on schedule. -/
theorem step_inv (hpos : P.LinesStartPositive)
    (hs : ∀ i ≤ P.aH, P.rowPtr i ≠ sentinel) (s : RowSystem) (i : RowInput)
    (h : s.Inv P) : (step P s i).Inv P := by
  obtain ⟨b, p, r, hvr, hem⟩ := h
  obtain ⟨op, junk⟩ := i
  cases op with
  | reply =>
    by_cases hout : s.out = 0
    · simp only [step, if_pos hout]
      exact ⟨b, p, r, hvr, hem⟩
    · simp only [step, if_neg hout]
      rcases hvr with ⟨d, hat, hp, hr⟩ | ⟨-, -, -, hdone⟩
      · obtain ⟨out', hout'⟩ : ∃ n, s.out = n + 1 := ⟨s.out - 1, by omega⟩
        rw [hout'] at hat
        have hnew := hat.receiveData hpos junk
        refine ⟨b, p, r, Or.inl ⟨d + 1, ?_, hp, hr⟩, hem⟩
        simpa only [hout', Nat.add_sub_cancel] using hnew.2
      · exact absurd hdone.out_eq hout
  | request =>
    simp only [step]
    rcases hvr with ⟨d, hat, hp, hr⟩ | ⟨hb, hp, hr, hdone⟩
    · rcases hat.requestTurn with ⟨hnil, hat'⟩ | ⟨hone, hat'⟩
      · exact ⟨b, p, r, Or.inl ⟨d, by simpa [hnil] using hat', hp, hr⟩, hem⟩
      · exact ⟨b, p, r, Or.inl ⟨d, by simpa [hone] using hat', hp, hr⟩, hem⟩
    · obtain ⟨hnil, hdone'⟩ := requestTurn_done hdone
      exact ⟨b, p, r, Or.inr ⟨hb, hp, hr, by simpa [hnil] using hdone'⟩, hem⟩
  | transfer =>
    simp only [step]
    rcases hvr with ⟨d, hat, rfl, rfl⟩ | ⟨hb, hp, hr, hdone⟩
    · have hge := hat.row_ge
      have hlt := hat.row_lt
      have hle := P.blockEnd_le b
      rcases hat.transferData junk with ⟨-, hwait⟩ | ⟨vr', ts, -, heq, hcase⟩
      · rw [hwait]
        simp only [if_true]
        exact ⟨b, _, _, Or.inl ⟨d, hat, rfl, rfl⟩, hem⟩
      · rw [heq]
        simp only [if_neg (hs _ (show s.vr.preRow + 1 ≤ P.aH by omega))]
        have hrows := take_blockRows_succ hge hlt
        rcases hcase with ⟨-, hpos'⟩ | ⟨hend, hpos'⟩
        · refine ⟨b, _, _, hpos', ?_⟩
          rw [hem, hrows, List.append_assoc]
        · refine ⟨_, _, _, hpos', ?_⟩
          have hall : (P.blockRows b).take (s.vr.preRow + 1 - P.blockStart b) = P.blockRows b :=
            List.take_of_length_le (by rw [length_blockRows]; omega)
          have hnone : P.passStart (P.nextPass b s.vr.xRepeat).1 -
              P.blockStart (P.nextPass b s.vr.xRepeat).1 = 0 := by rw [passStart]; omega
          rw [hem, List.append_assoc, ← hrows, hall, rowsUpTo_nextPass, hnone, List.take_zero,
            List.append_nil]
    · rw [transferData_done hdone]
      simp only [if_true]
      exact ⟨b, p, r, Or.inr ⟨hb, hp, hr, hdone⟩, hem⟩

/-- With `w_w` at least two, the rows on schedule are a prefix of the schedule. -/
theorem Inv.emitted_prefix (hw : 2 ≤ P.wW) {s : RowSystem} (h : s.Inv P) :
    s.emitted <+: P.rowSchedule := by
  obtain ⟨b, p, r, hvr, hem⟩ := h
  rw [hem, rowSchedule_eq]
  rcases hvr with ⟨d, hat, rfl, -⟩ | ⟨rfl, rfl, -, -⟩
  · have hfold := hat.fold hw
    have hrows : P.rowsUpTo b s.vr.xRepeat ++ (P.blockRows b).take (r - P.blockStart b) <+:
        P.rowsUpTo b (s.vr.xRepeat + 1) := by
      simp only [rowsUpTo, Blocks.upTo_succ]
      exact (List.prefix_append_right_inj _).mpr (List.take_prefix _ _)
    exact (hrows.trans (Blocks.upTo_prefix_block _ (by omega))).trans
      (Blocks.upTo_prefix_of_le _ hat.reached.1)
  · have hnil : (P.blockRows P.blockCount).take (r - P.blockStart P.blockCount) = [] := by
      rw [blockRows_blockCount, List.take_nil]
    simp only [hnil, List.append_nil, List.prefix_rfl]

/-- Whatever the delays of the replies and the times of the calls, the emitted rows are a
prefix of `w_fold` copies of every block, if no line after the first starts with `0`. -/
theorem emitted_prefix_rowSchedule (P : Params) (hw : 2 ≤ P.wW)
    (hpos : P.LinesStartPositive) (hs : ∀ i ≤ P.aH, P.rowPtr i ≠ sentinel)
    (inputs : List RowInput) : (run P inputs).emitted <+: P.rowSchedule :=
  Inv.emitted_prefix hw (Transition.run_invariant (step_inv hpos hs) init_inv inputs)

/-- Four rows cut into lines of two pointers, the second line starting with pointer `1`. -/
def linesOfTwo : Params where
  aH := 3
  row := [0, 0, 1, 1]
  col := [7]
  aH_pos := by decide
  row_length := by decide
  row_zero := by decide
  row_mono := by decide
  col_length := by decide
  cacheLineCount := 2
  maxV := 3
  wW := 2
  cacheLineCount_pos := Nat.two_pos
  maxV_pos := by decide
  wW_pos := Nat.two_pos

theorem emitted_prefix_linesOfTwo : 2 ≤ linesOfTwo.wW ∧ linesOfTwo.LinesStartPositive ∧
    (∀ i ≤ linesOfTwo.aH, linesOfTwo.rowPtr i ≠ sentinel) ∧
    (run linesOfTwo ([.request, .reply, .transfer].map fun op => ⟨op, fun _ => 0⟩)).emitted <+:
      linesOfTwo.rowSchedule := by
  have hpos : linesOfTwo.LinesStartPositive := by decide +kernel
  have hs : ∀ i ≤ linesOfTwo.aH, linesOfTwo.rowPtr i ≠ sentinel := by decide +kernel
  exact ⟨by decide, hpos, hs, emitted_prefix_rowSchedule linesOfTwo (by decide) hpos hs _⟩

/-- The second line `0 1` of this row line loses the pointer of row two. -/
def droppedRow : Params := { linesOfTwo with
  row := [0, 0, 0, 1]
  row_length := by decide
  row_zero := by decide
  row_mono := by decide
  col_length := by decide }

theorem droppedRow_not_prefix : ¬ (run droppedRow ([.request, .reply, .request, .reply,
    .transfer, .transfer].map fun op => ⟨op, fun _ => 0⟩)).emitted <+: droppedRow.rowSchedule := by
  decide +kernel

end RowSystem

end GcnSim
