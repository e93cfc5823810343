import GcnSim.Core.EdgeReader
import GcnSim.Reader.VertexBlock

/-!
# The edge reader inside a block

`EdgeAt` says where the edge reader stands inside a block whose last row has
edges: the row it works on, the columns of the row it still has to consume, the
lines that have arrived and what its history says about all of this. As for the
vertex reader, each operation is one move between such positions.
-/

namespace GcnSim

namespace Params

variable (P : Params)

/-- Block `b` has at least two rows, its last row has edges and its row pointers stay
below the sentinel. The readers recognise the end of a pass, and the start of the next
one, only in such blocks. -/
structure BlockOk (b : Nat) : Prop where
  two_rows : P.blockStart b + 2 ≤ P.blockEnd b
  last_row : P.rowPtr (P.blockEnd b - 1) < P.rowPtr (P.blockEnd b)
  below_sentinel : P.rowPtr (P.blockEnd b) < sentinel

theorem blockOk_iff (b : Nat) : P.BlockOk b ↔ P.blockStart b + 2 ≤ P.blockEnd b ∧
    P.rowPtr (P.blockEnd b - 1) < P.rowPtr (P.blockEnd b) ∧
    P.rowPtr (P.blockEnd b) < sentinel :=
  ⟨fun h => ⟨h.1, h.2, h.3⟩, fun h => ⟨h.1, h.2.1, h.2.2⟩⟩

instance (b : Nat) : Decidable (P.BlockOk b) := decidable_of_iff _ (P.blockOk_iff b).symm

/-- Every block the run gets to is well shaped, and no row line after the first starts
with `0`. -/
structure RunOk : Prop where
  lines : P.LinesStartPositive
  blocks : ∀ b < P.blockCount, P.Reached b → P.BlockOk b

theorem runOk_iff : P.RunOk ↔ P.LinesStartPositive ∧
    ∀ b < P.blockCount, P.Reached b → P.BlockOk b :=
  ⟨fun h => ⟨h.1, h.2⟩, fun h => ⟨h.1, h.2⟩⟩

instance : Decidable P.RunOk := decidable_of_iff _ P.runOk_iff.symm

/-- The number of edges of row `r`. -/
def degree (r : Nat) : Nat := P.rowPtr r - P.rowPtr (r - 1)

/-- The column lines of block `b`. -/
def edgeLines (b : Nat) : Nat := lineCalls P.cacheLineCount (P.edgeReqCount.getD b 0)

/-- The column feed of the controller after `d` lines of block `b`. -/
def colFeed (b d : Nat) : LineFeed := .after P.cacheLineCount P.edgeReqCount P.col b d

/-- The columns of block `b` that came with its first `d` lines. -/
def colStream (b d : Nat) : List Nat := (P.blockCols b).take (d * P.cacheLineCount)

/-- Line `d` of the columns of block `b`. -/
def colLine (b d : Nat) : List Nat :=
  ((P.blockCols b).drop (d * P.cacheLineCount)).take P.cacheLineCount

/-- The columns that pass `p` over block `b` has to consume. -/
def passEdges (b p : Nat) : List EdgeEvent := (P.blockCols b).map (EdgeEvent.mk b p)

/-- The rows that pass `p` over block `b` has to accept, with their degrees. -/
def passRows (b p : Nat) : List RowEvent :=
  (List.range' (P.blockStart b + 1) (P.blockEnd b - P.blockStart b)).map
    fun r => ⟨b, p, r, P.degree r⟩

variable {P}

theorem blockCols_eq_slice {b : Nat} (hb : b < P.blockCount) :
    Blocks.slice P.edgeReqCount P.col b = P.blockCols b := by
  rw [Blocks.slice, getD_edgeReqCount hb, offset_edgeReqCount hb, blockCols]

theorem length_blockCols {b : Nat} (hb : b < P.blockCount) : (P.blockCols b).length =
    P.rowPtr (P.blockEnd b) - P.rowPtr (P.blockStart b) := by
  rw [← blockCols_eq_slice hb, Blocks.length_slice (by rw [sum_edgeReqCount]),
    getD_edgeReqCount hb]

namespace BlockOk

variable {b : Nat}

/-- The first row of a replay starts below the last row of the pass before. -/
theorem first_lt (h : P.BlockOk b) :
    P.rowPtr (P.blockStart b + 1) < P.rowPtr (P.blockEnd b) := by
  have h2 := h.two_rows
  have hle := P.blockEnd_le b
  exact (rowPtr_mono (by omega) (by omega)).trans_lt h.last_row

theorem count_pos (h : P.BlockOk b) :
    0 < P.rowPtr (P.blockEnd b) - P.rowPtr (P.blockStart b) := by
  have h2 := h.two_rows
  have hle := P.blockEnd_le b
  have hm : P.rowPtr (P.blockStart b) ≤ P.rowPtr (P.blockStart b + 1) :=
    rowPtr_mono (by omega) (by omega)
  have := h.first_lt
  omega

theorem edgeLines_eq (h : P.BlockOk b) (hb : b < P.blockCount) : P.edgeLines b =
    ceilDiv (P.rowPtr (P.blockEnd b) - P.rowPtr (P.blockStart b)) P.cacheLineCount := by
  rw [edgeLines, getD_edgeReqCount hb, lineCalls_of_pos P.cacheLineCount_pos h.count_pos]

theorem edgeLines_pos (h : P.BlockOk b) (hb : b < P.blockCount) : 0 < P.edgeLines b := by
  rw [h.edgeLines_eq hb]
  exact ceilDiv_pos h.count_pos P.cacheLineCount_pos

/-- A stream that holds the whole block needed every line of it. -/
theorem edgeLines_le_of_colStream (h : P.BlockOk b) (hb : b < P.blockCount) {d : Nat}
    (hlen : (P.blockCols b).length ≤ (P.colStream b d).length) : P.edgeLines b ≤ d := by
  have hpos := h.count_pos
  rw [colStream, List.length_take, length_blockCols hb] at hlen
  rw [h.edgeLines_eq hb]
  apply (ceilDiv_le_iff P.cacheLineCount_pos).mpr
  omega

end BlockOk

theorem colStream_succ (b d : Nat) :
    P.colStream b (d + 1) = P.colStream b d ++ P.colLine b d := by
  rw [colStream, colStream, colLine, Nat.succ_mul, List.take_add]

end Params

open Params

/-- The edge reader is inside block `b`: `d` of its column lines have arrived and `out`
are requested and on their way. -/
structure EdgeIn (P : Params) (b d out : Nat) (er : EdgeReader) (dc : DataController) :
    Prop where
  reached : P.Reached b
  feed_eq : dc.col = P.colFeed b d
  tot : er.port.totReadCnt = P.edgeLines b
  pre : er.port.preReadCnt = d + out
  pre_le : d + out ≤ P.edgeLines b
  need : er.port.reqNeed = true → d + out < P.edgeLines b
  block : er.blockCnt = b
  archive : er.preRowArchive = P.blockStart b
  counts : er.edgeReqCount = P.edgeReqCount.drop (b + 1)
  row_ge : P.blockStart b ≤ er.preRow
  row_le : er.preRow ≤ P.blockEnd b
  busy : er.remainColNum ≠ 0 →
    P.blockStart b < er.preRow ∧ er.remainColNum ≤ P.degree er.preRow
  can : er.canReceive = decide (er.remainColNum = 0)
  /-- A replay starts with the last row pointer of the pass before. -/
  curV : er.curV = if er.preRow = P.blockStart b ∧ 0 < er.xRepeat then P.rowPtr (P.blockEnd b)
    else P.rowPtr er.preRow
  vArch : er.vArch = er.curV
  lastV : er.lastV = P.rowPtr (P.blockStart b)
  fold : 2 ≤ P.wW → er.xRepeat < P.wW
  first : er.xRepeat = 0 → er.eCacheIdx = 0 ∧
    er.eCache = (P.blockCols b).take
      (P.rowPtr er.preRow - P.rowPtr (P.blockStart b) - er.remainColNum) ∧
    er.eCache ++ er.eq = P.colStream b d
  replay : 0 < er.xRepeat → d = P.edgeLines b ∧ er.eq = [] ∧ er.eCache = P.blockCols b ∧
    er.eCacheIdx = P.rowPtr er.preRow - P.rowPtr (P.blockStart b) - er.remainColNum
  faults : er.faults = []
  edges : er.log.edges = Blocks.upTo P.passEdges P.wW b er.xRepeat ++
    (P.passEdges b er.xRepeat).take
      (P.rowPtr er.preRow - P.rowPtr (P.blockStart b) - er.remainColNum)
  rows : er.log.rows = Blocks.upTo P.passRows P.wW b er.xRepeat ++
    (P.passRows b er.xRepeat).take (er.preRow - P.blockStart b)
  requests : er.log.requests =
    ((List.range b).flatMap fun b => List.replicate (P.edgeLines b) b) ++
      List.replicate (d + out) b
  received : er.log.received =
    ((List.range b).flatMap fun b => (List.range (P.edgeLines b)).map
      fun d => (b, P.colLine b d)) ++ (List.range d).map fun d => (b, P.colLine b d)
  calls : dc.colCalls = ((List.range b).flatMap fun b => List.replicate (P.edgeLines b) b) ++
    List.replicate d b
  entry : dc.colEntry = if d < P.edgeLines b then b else b + 1

/-- The edge reader works on block `b`: between rows the pass is not finished. -/
structure EdgeAt (P : Params) (b d out : Nat) (er : EdgeReader) (dc : DataController) : Prop
    extends EdgeIn P b d out er dc where
  wait : er.remainColNum = 0 → er.preRow < P.blockEnd b

/-- The edge reader has finished every pass. -/
structure EdgeDone (P : Params) (out : Nat) (er : EdgeReader) (dc : DataController) :
    Prop where
  wW : 2 ≤ P.wW
  out_eq : out = 0
  block : er.blockCnt = P.blockCount
  pass : er.xRepeat = 0
  row : er.preRow = P.aH
  remain : er.remainColNum = 0
  can : er.canReceive = false
  need : er.port.reqNeed = false
  edges : er.log.edges = Blocks.upTo P.passEdges P.wW P.blockCount 0
  rows : er.log.rows = Blocks.upTo P.passRows P.wW P.blockCount 0
  requests : er.log.requests =
    (List.range P.blockCount).flatMap fun b => List.replicate (P.edgeLines b) b
  received : er.log.received = (List.range P.blockCount).flatMap fun b =>
    (List.range (P.edgeLines b)).map fun d => (b, P.colLine b d)
  calls : dc.colCalls =
    (List.range P.blockCount).flatMap fun b => List.replicate (P.edgeLines b) b

/-- The edge reader stands after row `r` in pass `p` over block `b`. -/
def EdgePos (P : Params) (b p r out : Nat) (er : EdgeReader) (dc : DataController) : Prop :=
  (∃ d, EdgeAt P b d out er dc ∧ er.xRepeat = p ∧ er.preRow = r) ∨
    (b = P.blockCount ∧ p = 0 ∧ r = P.aH ∧ EdgeDone P out er dc)

namespace EdgeReader

variable (P : Params) (junk : Junk) (er : EdgeReader)

/-- The reader after one column `c` was consumed, with the queues as they are then. -/
def consumed (c : Nat) (eq eCache : List Nat) (eCacheIdx : Nat) (port : ReaderPort) :
    EdgeReader :=
  { er with
    eq := eq
    eCache := eCache
    eCacheIdx := eCacheIdx
    port := port
    remainColNum := er.remainColNum - 1
    canReceive := decide (er.remainColNum - 1 = 0)
    log := { er.log with edges := er.log.edges ++ [⟨er.blockCnt, er.xRepeat, c⟩] } }

/-- What decides about the result writes, and their history. -/
def writeState : Bool × Nat × List WriteEvent := (er.doWrite, er.writeCount, er.log.writes)

/-- The end of a pass that is followed by another pass over the block. -/
def passEnd : EdgeReader :=
  setDoWrite { er with preRow := er.preRowArchive, xRepeat := er.xRepeat + 1, eCacheIdx := 0 }

/-- Without a column to consume, or without a row, nothing happens. -/
theorem outerProduct_idle (h : er.remainColNum = 0 ∨ er.xRepeat = 0 ∧ er.eq = []) :
    er.outerProduct P junk = er := by
  have hfirst : ¬ (er.eq ≠ [] ∧ er.remainColNum ≠ 0 ∧ er.xRepeat = 0) := by
    rintro ⟨hq, hr, _⟩
    exact h.elim hr fun h => hq h.2
  have hreplay : ¬ (0 < er.xRepeat ∧ er.remainColNum ≠ 0) := by
    rintro ⟨hx, hr⟩
    exact h.elim hr fun h => by omega
  rw [outerProduct, if_neg hfirst, if_neg hreplay]

/-- The first pass consumes the front of `eq`. -/
theorem outerProduct_first {c : Nat} {cs : List Nat} (hq : er.eq = c :: cs)
    (hr : er.remainColNum ≠ 0) (hx : er.xRepeat = 0) (hcan : er.canReceive = false)
    (hidx : er.eCacheIdx = 0) :
    er.outerProduct P junk =
      (let er' := er.consumed c cs (er.eCache ++ [c]) 0 (er.port.release.reopen P.cacheLineCount)
      if er.remainColNum - 1 = 0 ∧ (er.preRow % P.maxV = 0 ∨ er.preRow = P.aH) then er'.passEnd
      else er') := by
  rw [outerProduct, if_pos ⟨by simp [hq], hr, hx⟩]
  simp only [hq, popFront_cons, List.append_nil, consumed, passEnd]
  by_cases hz : er.remainColNum - 1 = 0
  · simp only [hz, decide_true, true_and, if_true, hidx, setDoWrite]
  · simp only [hz, decide_false, false_and, if_false, hidx, hcan]

/-- A replay consumes the next entry of `e_cache`. -/
theorem outerProduct_replay (hi : er.eCacheIdx < er.eCache.length)
    (hr : er.remainColNum ≠ 0) (hx : 0 < er.xRepeat) (hcan : er.canReceive = false) :
    er.outerProduct P junk =
      (let er' := er.consumed er.eCache[er.eCacheIdx] er.eq er.eCache (er.eCacheIdx + 1) er.port
      if er.remainColNum - 1 = 0 ∧ (er.preRow % P.maxV = 0 ∨ er.preRow = P.aH) then
        if er.xRepeat = P.wW - 1 then er'.nextBlock P junk else er'.passEnd
      else er') := by
  rw [outerProduct, if_neg (by rintro ⟨_, _, h⟩; omega), if_pos ⟨hx, hr⟩]
  simp only [readAt_of_lt _ _ hi, List.append_nil, consumed, passEnd]
  by_cases hz : er.remainColNum - 1 = 0
  · by_cases hw : er.xRepeat = P.wW - 1
    · simp only [hz, hw, decide_true, true_and, ne_eq, not_true_eq_false, if_false, if_true]
    · simp only [hz, hw, decide_true, true_and, ne_eq, not_false_eq_true, if_false, if_true,
        setDoWrite]
  · simp only [hz, decide_false, false_and, if_false, hcan]

end EdgeReader

namespace EdgeIn

variable {P : Params} {b d out : Nat} {er : EdgeReader} {dc : DataController}

theorem out_eq_zero (h : EdgeIn P b d out er dc) (hp : 0 < er.xRepeat) : out = 0 := by
  have hd := (h.replay hp).1
  have hle := h.pre_le
  omega

/-- The columns of the pass consumed so far. -/
theorem used_le (h : EdgeIn P b d out er dc) :
    P.rowPtr er.preRow - P.rowPtr (P.blockStart b) ≤ (P.blockCols b).length := by
  have hm := rowPtr_mono h.row_le (P.blockEnd_le b)
  rw [length_blockCols h.reached.1]
  omega

/-- What remains of a row is part of the pass. -/
theorem remain_le (h : EdgeIn P b d out er dc) :
    er.remainColNum ≤ P.rowPtr er.preRow - P.rowPtr (P.blockStart b) := by
  by_cases hr : er.remainColNum = 0
  · omega
  · obtain ⟨hlt, hdeg⟩ := h.busy hr
    have hm : P.rowPtr (P.blockStart b) ≤ P.rowPtr (er.preRow - 1) :=
      rowPtr_mono (by omega) (by have := P.blockEnd_le b; have := h.row_le; omega)
    rw [degree] at hdeg
    omega

/-- The columns of the pass consumed so far, one more after a column. -/
theorem take_passEdges_succ (h : EdgeIn P b d out er dc) (hr : er.remainColNum ≠ 0)
    {c : Nat} (hc : (P.blockCols b)[P.rowPtr er.preRow - P.rowPtr (P.blockStart b) -
      er.remainColNum]? = some c) :
    er.log.edges ++ [⟨b, er.xRepeat, c⟩] = Blocks.upTo P.passEdges P.wW b er.xRepeat ++
      (P.passEdges b er.xRepeat).take
        (P.rowPtr er.preRow - P.rowPtr (P.blockStart b) - (er.remainColNum - 1)) := by
  have hle := h.remain_le
  obtain ⟨hlt, hget⟩ := List.getElem?_eq_some_iff.mp hc
  have hk : P.rowPtr er.preRow - P.rowPtr (P.blockStart b) - er.remainColNum <
      (P.passEdges b er.xRepeat).length := by simpa [passEdges] using hlt
  rw [h.edges, List.append_assoc, show P.rowPtr er.preRow - P.rowPtr (P.blockStart b) -
    (er.remainColNum - 1) = P.rowPtr er.preRow - P.rowPtr (P.blockStart b) - er.remainColNum + 1
    by omega, List.take_succ_eq_append_getElem hk]
  simp only [passEdges, List.getElem_map, hget]

/-- One more column was consumed. -/
theorem consumed (h : EdgeIn P b d out er dc) (hr : er.remainColNum ≠ 0) {c : Nat}
    (hc : (P.blockCols b)[P.rowPtr er.preRow - P.rowPtr (P.blockStart b) -
      er.remainColNum]? = some c) {eq eCache : List Nat} {idx : Nat} {port : ReaderPort}
    (htot : port.totReadCnt = er.port.totReadCnt) (hpre : port.preReadCnt = er.port.preReadCnt)
    (hneed : port.reqNeed = true → d + out < P.edgeLines b)
    (hfirst : er.xRepeat = 0 → idx = 0 ∧ eCache = (P.blockCols b).take
      (P.rowPtr er.preRow - P.rowPtr (P.blockStart b) - (er.remainColNum - 1)) ∧
      eCache ++ eq = P.colStream b d)
    (hreplay : 0 < er.xRepeat → d = P.edgeLines b ∧ eq = [] ∧ eCache = P.blockCols b ∧
      idx = P.rowPtr er.preRow - P.rowPtr (P.blockStart b) - (er.remainColNum - 1)) :
    EdgeIn P b d out (er.consumed c eq eCache idx port) dc :=
  { h with
    tot := htot.trans h.tot
    pre := hpre.trans h.pre
    need := hneed
    busy := fun _ => by
      obtain ⟨hlt, hdeg⟩ := h.busy hr
      exact ⟨hlt, (Nat.sub_le _ _).trans hdeg⟩
    can := rfl
    first := hfirst
    replay := hreplay
    edges := by
      have hlog := h.take_passEdges_succ hr hc
      rw [← h.block] at hlog
      rw [← h.block]
      exact hlog }

/-- A finished pass has read every line of the block and keeps its columns in `e_cache`. -/
theorem finished (h : EdgeIn P b d out er dc) (hok : P.BlockOk b)
    (hend : er.preRow = P.blockEnd b) (hr : er.remainColNum = 0) :
    d = P.edgeLines b ∧ er.eq = [] ∧ er.eCache = P.blockCols b := by
  rcases Nat.eq_zero_or_pos er.xRepeat with hx | hx
  · obtain ⟨-, hcache, hstream⟩ := h.first hx
    have hall : er.eCache = P.blockCols b := by
      rw [hcache, List.take_of_length_le]
      rw [length_blockCols h.reached.1, hend, hr]
      omega
    have hlen := congrArg List.length hstream
    rw [List.length_append, hall] at hlen
    have hd := hok.edgeLines_le_of_colStream h.reached.1 (d := d) (by omega)
    have hle := h.pre_le
    have hq : er.eq.length = 0 := by
      rw [colStream, List.length_take] at hlen
      omega
    exact ⟨by omega, List.length_eq_zero_iff.mp hq, hall⟩
  · obtain ⟨hd, heq, hcache, -⟩ := h.replay hx
    exact ⟨hd, heq, hcache⟩

/-- The history of a finished pass is that of the passes before the next one. -/
theorem finished_log (h : EdgeIn P b d out er dc) (hend : er.preRow = P.blockEnd b)
    (hr : er.remainColNum = 0) :
    er.log.edges = Blocks.upTo P.passEdges P.wW b (er.xRepeat + 1) ∧
      er.log.rows = Blocks.upTo P.passRows P.wW b (er.xRepeat + 1) := by
  constructor
  · rw [h.edges, Blocks.upTo_succ, List.take_of_length_le]
    rw [passEdges, List.length_map, length_blockCols h.reached.1, hend, hr]
    omega
  · rw [h.rows, Blocks.upTo_succ, List.take_of_length_le]
    rw [passRows, List.length_map, List.length_range', hend]

/-- The history of the finished blocks, once every line of block `b` was received. -/
theorem finished_lines (h : EdgeIn P b d out er dc) (hd : d = P.edgeLines b) :
    er.log.requests = (List.range (b + 1)).flatMap (fun b => List.replicate (P.edgeLines b) b) ∧
      er.log.received = ((List.range (b + 1)).flatMap fun b =>
        (List.range (P.edgeLines b)).map fun d => (b, P.colLine b d)) ∧
      dc.colCalls = (List.range (b + 1)).flatMap (fun b => List.replicate (P.edgeLines b) b) := by
  have hle := h.pre_le
  have hreq := h.requests
  rw [show d + out = P.edgeLines b by omega] at hreq
  have hrec := h.received
  have hcalls := h.calls
  rw [hd] at hrec hcalls
  simp only [List.range_succ, List.flatMap_append, List.flatMap_cons, List.flatMap_nil,
    List.append_nil]
  exact ⟨hreq, hrec, hcalls⟩

/-- Inside a pass the reader is at its position as soon as an edge is consumed. -/
theorem inside (h : EdgeIn P b d out er dc)
    (hmore : ¬ (er.remainColNum = 0 ∧ er.preRow = P.blockEnd b)) : EdgeAt P b d out er dc := by
  refine { h with wait := fun hz => ?_ }
  have hle := h.row_le
  omega

/-- A pass that is not the last one over the block leads to the next pass. -/
theorem passEnd (h : EdgeIn P b d out er dc) (hok : P.BlockOk b)
    (hend : er.preRow = P.blockEnd b) (hr : er.remainColNum = 0)
    (hfold : 2 ≤ P.wW → er.xRepeat + 1 < P.wW) : EdgeAt P b d out er.passEnd dc := by
  obtain ⟨hd, hq, hcache⟩ := h.finished hok hend hr
  obtain ⟨hedges, hrows⟩ := h.finished_log hend hr
  have hlt := blockStart_lt_blockEnd h.reached.1
  have hcur := h.curV
  rw [if_neg (by omega), hend] at hcur
  exact { h with
    row_ge := h.archive.ge
    row_le := by change er.preRowArchive ≤ _; rw [h.archive]; omega
    busy := fun hne => absurd hr hne
    curV := by
      change er.curV = if er.preRowArchive = _ ∧ 0 < er.xRepeat + 1 then _ else _
      rw [if_pos ⟨h.archive, Nat.succ_pos _⟩, hcur]
    fold := hfold
    first := fun hx => absurd hx (Nat.succ_ne_zero _)
    replay := fun _ => ⟨hd, hq, hcache, by
      change 0 = P.rowPtr er.preRowArchive - _ - _
      rw [h.archive]
      omega⟩
    edges := by
      change er.log.edges = _ ++ (P.passEdges b (er.xRepeat + 1)).take
        (P.rowPtr er.preRowArchive - _ - _)
      rw [hedges, h.archive, Nat.sub_self, Nat.zero_sub, List.take_zero, List.append_nil]
      rfl
    rows := by
      change er.log.rows = _ ++ (P.passRows b (er.xRepeat + 1)).take (er.preRowArchive - _)
      rw [hrows, h.archive, Nat.sub_self, List.take_zero, List.append_nil]
      rfl
    wait := fun _ => by change er.preRowArchive < _; rw [h.archive]; exact hlt }

/-- When the last pass over a block ends, the logs are complete up to the next block. -/
theorem last_log (h : EdgeIn P b d out er dc) (hend : er.preRow = P.blockEnd b)
    (hr : er.remainColNum = 0) (hx : 0 < er.xRepeat) (hlast : er.xRepeat = P.wW - 1) :
    er.log.edges = Blocks.upTo P.passEdges P.wW (b + 1) 0 ∧
      er.log.rows = Blocks.upTo P.passRows P.wW (b + 1) 0 := by
  obtain ⟨hedges, hrows⟩ := h.finished_log hend hr
  rw [hlast, Nat.sub_add_cancel (by omega), Blocks.upTo_last] at hedges hrows
  exact ⟨hedges, hrows⟩

/-- The first pass over the next block. -/
theorem enterBlock (h : EdgeIn P b d out er dc) (hrun : P.RunOk)
    (hend : er.preRow = P.blockEnd b) (hr : er.remainColNum = 0) (hx : 0 < er.xRepeat)
    (hlast : er.xRepeat = P.wW - 1) (hnext : b + 1 < P.blockCount) (junk : Junk) :
    EdgeAt P (b + 1) 0 out (er.nextBlock P junk) dc := by
  have hb := h.reached.1
  have hw : 2 ≤ P.wW := by omega
  obtain ⟨hd, hq, -⟩ := h.finished (hrun.blocks b hb h.reached) hend hr
  obtain ⟨hedges, hrows⟩ := h.last_log hend hr hx hlast
  obtain ⟨hreq, hrec, hcalls⟩ := h.finished_lines hd
  have hout := h.out_eq_zero hx
  have hlt := blockStart_lt_blockEnd hb
  have hcur := h.curV
  rw [if_neg (by omega), hend] at hcur
  have hreached : P.Reached (b + 1) := ⟨hnext, Or.inr hw⟩
  have hok := hrun.blocks (b + 1) hnext hreached
  have hs := blockEnd_eq_blockStart_succ hnext
  have hlt' := blockStart_lt_blockEnd hnext
  have haH : er.preRow ≠ P.aH := by have := lt_blockCount_iff.mp hnext; omega
  have hcounts : er.edgeReqCount =
      (P.rowPtr (P.blockEnd (b + 1)) - P.rowPtr (P.blockStart (b + 1))) ::
        P.edgeReqCount.drop (b + 2) := by rw [h.counts, edgeReqCount_drop hnext]
  have hpos := hok.edgeLines_pos hnext
  exact {
    reached := hreached
    feed_eq := by
      rw [h.feed_eq, hd]
      exact LineFeed.after_all le_rfl
    tot := by
      simp [EdgeReader.nextBlock, EdgeReader.setDoWrite, hcounts, ReaderPort.restart,
        hok.edgeLines_eq hnext, haH]
    pre := by
      simp [EdgeReader.nextBlock, EdgeReader.setDoWrite, ReaderPort.restart, hout, haH]
    pre_le := by omega
    need := fun _ => by omega
    block := by simp [EdgeReader.nextBlock, EdgeReader.setDoWrite, h.block]
    archive := by simp [EdgeReader.nextBlock, EdgeReader.setDoWrite, hend, hs]
    counts := by simp [EdgeReader.nextBlock, EdgeReader.setDoWrite, hcounts]
    row_ge := by simp [EdgeReader.nextBlock, EdgeReader.setDoWrite, hend, hs]
    row_le := by
      simp only [EdgeReader.nextBlock, EdgeReader.setDoWrite, hend, hs]
      omega
    busy := fun hne => absurd hr hne
    can := by simp [EdgeReader.nextBlock, EdgeReader.setDoWrite, haH, h.can]
    curV := by
      simp [EdgeReader.nextBlock, EdgeReader.setDoWrite, hcur, hend]
    vArch := by simp [EdgeReader.nextBlock, EdgeReader.setDoWrite, h.vArch]
    lastV := by simp [EdgeReader.nextBlock, EdgeReader.setDoWrite, h.vArch, hcur, hs]
    fold := fun _ => by simp only [EdgeReader.nextBlock, EdgeReader.setDoWrite]; omega
    first := fun _ => by
      simp [EdgeReader.nextBlock, EdgeReader.setDoWrite, hend, hs, hq, colStream]
    replay := fun h0 => by simp [EdgeReader.nextBlock, EdgeReader.setDoWrite] at h0
    faults := by
      simp [EdgeReader.nextBlock, EdgeReader.setDoWrite, hcounts, h.faults]
    edges := by
      simp [EdgeReader.nextBlock, EdgeReader.setDoWrite, hedges, hend, hs]
    rows := by
      simp [EdgeReader.nextBlock, EdgeReader.setDoWrite, hrows, hend, hs]
    requests := by
      simp [EdgeReader.nextBlock, EdgeReader.setDoWrite, hreq, hout]
    received := by
      simp [EdgeReader.nextBlock, EdgeReader.setDoWrite, hrec]
    calls := by simp [hcalls]
    entry := by rw [h.entry, if_neg (by omega), if_pos hpos]
    wait := fun _ => by
      simp only [EdgeReader.nextBlock, EdgeReader.setDoWrite, hend, hs]
      exact hlt' }

/-- After the last block the reader waits for good. -/
theorem leaveLast (h : EdgeIn P b d out er dc) (hrun : P.RunOk)
    (hend : er.preRow = P.blockEnd b) (hr : er.remainColNum = 0) (hx : 0 < er.xRepeat)
    (hlast : er.xRepeat = P.wW - 1) (hB : b + 1 = P.blockCount) (junk : Junk) :
    EdgeDone P out (er.nextBlock P junk) dc := by
  have hb := h.reached.1
  have hw : 2 ≤ P.wW := by omega
  obtain ⟨hd, -, -⟩ := h.finished (hrun.blocks b hb h.reached) hend hr
  obtain ⟨hedges, hrows⟩ := h.last_log hend hr hx hlast
  obtain ⟨hreq, hrec, hcalls⟩ := h.finished_lines hd
  have hout := h.out_eq_zero hx
  have haH : er.preRow = P.aH := by rw [hend, blockEnd_last (by omega)]
  rw [hB] at hedges hrows hreq hrec hcalls
  exact {
    wW := hw
    out_eq := hout
    block := by simp [EdgeReader.nextBlock, EdgeReader.setDoWrite, h.block, hB]
    pass := rfl
    row := haH
    remain := hr
    can := by simp [EdgeReader.nextBlock, EdgeReader.setDoWrite, haH]
    need := by
      have hneed : er.port.reqNeed ≠ true := fun hn => by have := h.need hn; omega
      simpa [EdgeReader.nextBlock, EdgeReader.setDoWrite, haH, ReaderPort.restart]
        using hneed
    edges := hedges
    rows := hrows
    requests := hreq
    received := hrec
    calls := hcalls }

/-- The last pass over a block leads to the next block, or to the end of the work. -/
theorem nextBlock (h : EdgeIn P b d out er dc) (hrun : P.RunOk)
    (hend : er.preRow = P.blockEnd b) (hr : er.remainColNum = 0) (hx : 0 < er.xRepeat)
    (hlast : er.xRepeat = P.wW - 1) (junk : Junk) :
    EdgePos P (b + 1) 0 (P.passStart (b + 1)) out (er.nextBlock P junk) dc := by
  have hb := h.reached.1
  by_cases hnext : b + 1 < P.blockCount
  · refine Or.inl ⟨0, h.enterBlock hrun hend hr hx hlast hnext junk, rfl, ?_⟩
    change er.preRow = _
    rw [passStart_eq hnext, hend, blockEnd_eq_blockStart_succ hnext]
  · have hB : b + 1 = P.blockCount := by omega
    refine Or.inr ⟨hB, rfl, ?_, h.leaveLast hrun hend hr hx hlast hB junk⟩
    rw [hB, passStart_blockCount]

end EdgeIn

namespace EdgeAt

variable {P : Params} {b d out : Nat} {er : EdgeReader} {dc : DataController}

/-- The request turn asks for at most one more line, and only for lines of the block. -/
theorem requestTurn (h : EdgeAt P b d out er dc) :
    ((er.requestTurn P).2 = [] ∧ EdgeAt P b d out (er.requestTurn P).1 dc) ∨
    ((er.requestTurn P).2 = [readLine .aCol er.port.reqLine] ∧
      EdgeAt P b d (out + 1) (er.requestTurn P).1 dc) := by
  obtain ⟨hlist, htot, hpre, hle, hneed⟩ := ReaderPort.turn_spec P.cacheLineCount .aCol
    er.edgeReqCount.isEmpty h.tot h.pre h.pre_le h.need
  have hat : EdgeAt P b d (out + (er.requestTurn P).2.length) (er.requestTurn P).1 dc := { h with
    tot := htot
    pre := hpre
    pre_le := hle
    need := hneed
    requests := by
      simp only [EdgeReader.requestTurn, h.requests, h.block, List.append_assoc,
        List.replicate_append_replicate, Nat.add_assoc] }
  rcases hlist with hnil | hone
  · have hlen : (er.requestTurn P).2.length = 0 := congrArg List.length hnil
    rw [hlen] at hat
    exact Or.inl ⟨hnil, hat⟩
  · have hlen : (er.requestTurn P).2.length = 1 := congrArg List.length hone
    rw [hlen] at hat
    exact Or.inr ⟨hone, hat⟩

/-- A column line reply delivers the next line of the block. -/
theorem receiveData (h : EdgeAt P b d (out + 1) er dc) (junk : Junk) :
    let r := dc.adjColDataReturn P.cacheLineCount junk
    r.2.faults = dc.faults ∧ r.2.row = dc.row ∧
      EdgeAt P b (d + 1) out (er.receiveData r.1) r.2 := by
  have hle := h.pre_le
  have hd : d < P.edgeLines b := by omega
  have hlen : b < P.edgeReqCount.length := by simpa using h.reached.1
  have hreply := LineFeed.dataReturn_after P.cacheLineCount_pos hlen
    (by rw [sum_edgeReqCount]) hd .edgeReqCountCnt .adjcolindex junk
  have hfirst : er.xRepeat = 0 := by
    by_contra hne
    have := h.out_eq_zero (Nat.pos_of_ne_zero hne)
    omega
  obtain ⟨hidx, hcache, hstream⟩ := h.first hfirst
  have hbefore : (P.colFeed b d).counts.length = P.edgeReqCount.length - b := by
    rw [colFeed, LineFeed.length_counts_after]
    exact if_pos hd
  have hafter : (LineFeed.after P.cacheLineCount P.edgeReqCount P.col b (d + 1)).counts.length =
      if d + 1 < P.edgeLines b then P.edgeReqCount.length - b
      else P.edgeReqCount.length - (b + 1) := LineFeed.length_counts_after
  rw [blockCols_eq_slice h.reached.1] at hreply
  simp only [DataController.adjColDataReturn, h.feed_eq, colFeed, hreply, List.append_nil,
    true_and]
  rw [colFeed] at hbefore
  exact { h with
    feed_eq := rfl
    pre := by have := h.pre; change er.port.preReadCnt = _; omega
    pre_le := by omega
    need := fun hn => by have := h.need hn; omega
    first := fun _ => ⟨hidx, hcache, by
      rw [colStream_succ, ← hstream, List.append_assoc]
      rfl⟩
    replay := fun hp => absurd hp (by change ¬ 0 < er.xRepeat; omega)
    requests := by
      rw [show d + 1 + out = d + (out + 1) by omega]
      exact h.requests
    received := by
      rw [List.range_succ, List.map_append, ← List.append_assoc, ← h.received]
      simp only [EdgeReader.receiveData, h.block]
      rfl
    calls := by
      have hent := h.entry
      rw [if_pos hd] at hent
      rw [List.replicate_succ', ← List.append_assoc, ← h.calls, hent]
    entry := by
      have hent := h.entry
      rw [if_pos hd] at hent
      change dc.colEntry + _ = _
      rw [hent, hbefore, hafter]
      split <;> omega }

/-- Between two rows, the next row pointer gives the degree of the next row. -/
theorem receiveVertex_eq (h : EdgeAt P b d out er dc) (hok : P.BlockOk b)
    (hr : er.remainColNum = 0) :
    er.receiveVertex P (P.rowPtr (er.preRow + 1)) = { er with
      prevV := P.rowPtr er.preRow
      curV := P.rowPtr (er.preRow + 1)
      remainColNum := P.degree (er.preRow + 1)
      canReceive := decide (P.degree (er.preRow + 1) = 0)
      preRow := er.preRow + 1
      vArch := P.rowPtr (er.preRow + 1)
      log := { er.log with rows := er.log.rows ++
        [⟨b, er.xRepeat, er.preRow + 1, P.degree (er.preRow + 1)⟩] } } := by
  have hlt := h.wait hr
  have hle := P.blockEnd_le b
  have hge := h.row_ge
  have hmono : P.rowPtr er.preRow ≤ P.rowPtr (er.preRow + 1) := rowPtr_mono (by omega) (by omega)
  have hsent : P.rowPtr (er.preRow + 1) < sentinel :=
    (rowPtr_mono hlt hle).trans_lt hok.below_sentinel
  have hprev : (if P.rowPtr (er.preRow + 1) < er.curV then er.lastV else er.curV) =
      P.rowPtr er.preRow := by
    by_cases hreplay : er.preRow = P.blockStart b ∧ 0 < er.xRepeat
    · rw [h.curV, if_pos hreplay, hreplay.1, if_pos hok.first_lt, h.lastV]
    · rw [h.curV, if_neg hreplay, if_neg (by omega)]
  have hlast : P.degree (er.preRow + 1) = 0 → er.preRow + 1 ≠ P.aH := by
    intro hdeg hend
    have hpos := hok.last_row
    rw [show P.blockEnd b = er.preRow + 1 by omega, Nat.add_sub_cancel] at hpos
    rw [degree, Nat.add_sub_cancel] at hdeg
    omega
  have hdeg : P.rowPtr (er.preRow + 1) - P.rowPtr er.preRow = P.degree (er.preRow + 1) := by
    rw [degree, Nat.add_sub_cancel]
  simp only [EdgeReader.receiveVertex, if_pos hsent, hprev, u64Sub_of_le hmono, hdeg, h.block]
  by_cases hz : P.degree (er.preRow + 1) = 0
  · simp only [if_pos hz, if_neg (hlast hz), decide_eq_true hz]
  · simp only [if_neg hz, decide_eq_false hz]

/-- A row that is handed over becomes the row the edge reader works on. -/
theorem receiveVertex (h : EdgeAt P b d out er dc) (hok : P.BlockOk b)
    (hr : er.remainColNum = 0) :
    EdgeAt P b d out (er.receiveVertex P (P.rowPtr (er.preRow + 1))) dc := by
  have hlt := h.wait hr
  have hge := h.row_ge
  have hle := P.blockEnd_le b
  have hmono : P.rowPtr (P.blockStart b) ≤ P.rowPtr er.preRow := rowPtr_mono hge (by omega)
  have hmono' : P.rowPtr er.preRow ≤ P.rowPtr (er.preRow + 1) := rowPtr_mono (by omega) (by omega)
  have hused : P.rowPtr (er.preRow + 1) - P.rowPtr (P.blockStart b) - P.degree (er.preRow + 1) =
      P.rowPtr er.preRow - P.rowPtr (P.blockStart b) - er.remainColNum := by
    rw [degree, Nat.add_sub_cancel]
    omega
  rw [h.receiveVertex_eq hok hr]
  exact { h with
    row_ge := by change _ ≤ er.preRow + 1; omega
    row_le := hlt
    wait := fun hz => by
      have hpos := hok.last_row
      change P.degree (er.preRow + 1) = 0 at hz
      rw [degree, Nat.add_sub_cancel] at hz
      change er.preRow + 1 < P.blockEnd b
      by_contra hend
      rw [show P.blockEnd b = er.preRow + 1 by omega, Nat.add_sub_cancel] at hpos
      omega
    busy := fun _ => ⟨by change _ < er.preRow + 1; omega, le_rfl⟩
    can := rfl
    curV := by
      change P.rowPtr (er.preRow + 1) = if er.preRow + 1 = P.blockStart b ∧ _ then _ else _
      rw [if_neg (by omega)]
    vArch := rfl
    first := fun hx => by
      obtain ⟨hidx, hcache, hstream⟩ := h.first hx
      exact ⟨hidx, by rw [hused]; exact hcache, hstream⟩
    replay := fun hx => by
      obtain ⟨hd, heq, hcache, hidx⟩ := h.replay hx
      exact ⟨hd, heq, hcache, by rw [hused]; exact hidx⟩
    edges := by rw [hused]; exact h.edges
    rows := by
      change er.log.rows ++ _ = _
      rw [h.rows, List.append_assoc]
      congr 1
      have hk : er.preRow - P.blockStart b < (P.passRows b er.xRepeat).length := by
        simp [passRows]
        omega
      change _ = (P.passRows b er.xRepeat).take (er.preRow + 1 - P.blockStart b)
      rw [show er.preRow + 1 - P.blockStart b = er.preRow - P.blockStart b + 1 by omega,
        List.take_succ_eq_append_getElem hk]
      congr 2
      simp only [passRows, List.getElem_map, List.getElem_range']
      rw [show P.blockStart b + 1 + 1 * (er.preRow - P.blockStart b) = er.preRow + 1 by omega] }

/-- The first pass consumes the next column of the block from `eq`. -/
theorem consumed_first (h : EdgeAt P b d out er dc) (hr : er.remainColNum ≠ 0)
    (hx : er.xRepeat = 0) {c : Nat} {cs : List Nat} (hq : er.eq = c :: cs) :
    EdgeIn P b d out (er.consumed c cs (er.eCache ++ [c]) 0
      (er.port.release.reopen P.cacheLineCount)) dc := by
  obtain ⟨hidx, hcache, hstream⟩ := h.first hx
  have hused := h.used_le
  have hrem := h.remain_le
  set k := P.rowPtr er.preRow - P.rowPtr (P.blockStart b) - er.remainColNum with hk
  have hklen : k < (P.blockCols b).length := by omega
  have hlen : er.eCache.length = k := by rw [hcache, List.length_take]; omega
  have hc : (P.blockCols b)[k]? = some c := by
    have hget : (P.colStream b d)[k]? = some c := by
      rw [← hstream, hq, List.getElem?_append_right (by omega), hlen, Nat.sub_self]
      rfl
    have hkd : k < d * P.cacheLineCount := by
      by_contra hcon
      rw [colStream, List.getElem?_take, if_neg hcon] at hget
      cases hget
    rwa [colStream, List.getElem?_take_of_lt hkd] at hget
  refine h.toEdgeIn.consumed hr hc (by simp) (by simp) ?_ (fun _ => ⟨rfl, ?_, ?_⟩)
    fun hpos => absurd hpos (by omega)
  · unfold ReaderPort.reopen
    split
    · rename_i hopen
      intro _
      have := hopen.1
      rwa [ReaderPort.release_preReadCnt, ReaderPort.release_totReadCnt, h.pre, h.tot] at this
    · exact h.need
  · obtain ⟨_, hget⟩ := List.getElem?_eq_some_iff.mp hc
    rw [show P.rowPtr er.preRow - P.rowPtr (P.blockStart b) - (er.remainColNum - 1) = k + 1
      by omega, List.take_succ_eq_append_getElem hklen, hget, hcache]
  · rw [← hstream, hq, List.append_assoc]
    rfl

/-- A replay consumes the next column of the block from `e_cache`. -/
theorem consumed_replay (h : EdgeAt P b d out er dc) (hr : er.remainColNum ≠ 0)
    (hx : 0 < er.xRepeat) :
    ∃ hi : er.eCacheIdx < er.eCache.length, EdgeIn P b d out
      (er.consumed er.eCache[er.eCacheIdx] er.eq er.eCache (er.eCacheIdx + 1) er.port) dc := by
  obtain ⟨hd, hq, hcache, hidx⟩ := h.replay hx
  have hused := h.used_le
  have hrem := h.remain_le
  have hi : er.eCacheIdx < er.eCache.length := by rw [hcache]; omega
  refine ⟨hi, h.toEdgeIn.consumed hr ?_ rfl rfl h.need (fun h0 => absurd h0 (by omega))
    fun _ => ⟨hd, hq, hcache, by omega⟩⟩
  rw [← hidx, ← hcache, List.getElem?_eq_getElem hi]

/-- What `OuterProduct` can do: nothing, consume a column inside the pass, or consume the
last column of the pass. The last one sets `do_write` and starts the next pass. -/
theorem outerProduct (h : EdgeAt P b d out er dc) (hrun : P.RunOk) (junk : Junk) :
    (er.outerProduct P junk = er) ∨
    (EdgeAt P b d out (er.outerProduct P junk) dc ∧
      (er.outerProduct P junk).xRepeat = er.xRepeat ∧
      (er.outerProduct P junk).preRow = er.preRow ∧
      (er.outerProduct P junk).remainColNum + 1 = er.remainColNum ∧
      (er.outerProduct P junk).writeState = er.writeState) ∨
    (er.preRow = P.blockEnd b ∧ er.remainColNum = 1 ∧
      EdgePos P (P.nextPass b er.xRepeat).1 (P.nextPass b er.xRepeat).2
        (P.passStart (P.nextPass b er.xRepeat).1) out (er.outerProduct P junk) dc ∧
      (er.outerProduct P junk).remainColNum = 0 ∧
      (er.outerProduct P junk).writeState =
        (true, er.writeCount, er.log.writes ++ [.passEnd])) := by
  have hok := hrun.blocks b h.reached.1 h.reached
  by_cases hr : er.remainColNum = 0
  · exact Or.inl (EdgeReader.outerProduct_idle P junk er (Or.inl hr))
  have hcan : er.canReceive = false := by rw [h.can, decide_eq_false hr]
  obtain ⟨hlt, -⟩ := h.busy hr
  have htest := blockEnd_test hlt h.row_le
  have hstart := passStart_eq h.reached.1
  rcases Nat.eq_zero_or_pos er.xRepeat with hx | hx
  · obtain ⟨hidx, -, -⟩ := h.first hx
    cases hq : er.eq with
    | nil => exact Or.inl (EdgeReader.outerProduct_idle P junk er (Or.inr ⟨hx, hq⟩))
    | cons c cs =>
      right
      have hin := h.consumed_first hr hx hq
      rw [EdgeReader.outerProduct_first P junk er hq hr hx hcan hidx]
      simp only [htest]
      by_cases hend : er.remainColNum - 1 = 0 ∧ er.preRow = P.blockEnd b
      · right
        have hnext : P.nextPass b er.xRepeat = (b, er.xRepeat + 1) := by simp [nextPass, hx]
        have hat := hin.passEnd hok hend.2 hend.1 (fun hw => by
          change er.xRepeat + 1 < P.wW
          omega)
        simp only [if_pos hend, hnext, hstart]
        exact ⟨hend.2, by omega, Or.inl ⟨d, hat, rfl, h.archive⟩, hend.1, rfl⟩
      · left
        rw [if_neg hend]
        exact ⟨hin.inside hend, rfl, rfl, Nat.sub_add_cancel (by omega), rfl⟩
  · right
    obtain ⟨hi, hin⟩ := h.consumed_replay hr hx
    rw [EdgeReader.outerProduct_replay P junk er hi hr hx hcan]
    simp only [htest]
    by_cases hend : er.remainColNum - 1 = 0 ∧ er.preRow = P.blockEnd b
    · right
      rw [if_pos hend]
      by_cases hlast : er.xRepeat = P.wW - 1
      · have hnext : P.nextPass b er.xRepeat = (b + 1, 0) := by
          rw [nextPass, if_pos ⟨hx, hlast⟩]
        simp only [if_pos hlast, hnext]
        exact ⟨hend.2, by omega, hin.nextBlock hrun hend.2 hend.1 hx hlast junk, hend.1, rfl⟩
      · have hnext : P.nextPass b er.xRepeat = (b, er.xRepeat + 1) := by
          rw [nextPass, if_neg (fun hc => hlast hc.2)]
        have hat := hin.passEnd hok hend.2 hend.1 (fun hw => by
          have := h.fold hw
          change er.xRepeat + 1 < P.wW
          omega)
        simp only [if_neg hlast, hnext, hstart]
        exact ⟨hend.2, by omega, Or.inl ⟨d, hat, rfl, h.archive⟩, hend.1, rfl⟩
    · left
      rw [if_neg hend]
      exact ⟨hin.inside hend, rfl, rfl, Nat.sub_add_cancel (by omega), rfl⟩

/-- `Write` does not touch the position. -/
theorem write (h : EdgeAt P b d out er dc) : EdgeAt P b d out (er.write P).1 dc := by
  unfold EdgeReader.write
  split
  · simp only
    split
    · exact { h with }
    · exact { h with }
  · exact h

/-- A constructed reader stands before the first row. -/
theorem init (hok : P.BlockOk 0) (dc : DataController) (hfeed : dc.col = ⟨P.col, P.edgeReqCount, 0⟩)
    (hcalls : dc.colCalls = []) (hentry : dc.colEntry = 0) :
    EdgeAt P 0 0 0 (.init P) dc := by
  have hB := P.blockCount_pos
  have hlt := blockStart_lt_blockEnd hB
  have hcounts := edgeReqCount_drop hB
  rw [List.drop_zero] at hcounts
  have hlines := hok.edgeLines_eq hB
  have hpos := hok.edgeLines_pos hB
  exact {
    reached := ⟨hB, Or.inl rfl⟩
    feed_eq := by simp [colFeed, LineFeed.after_zero, LineFeed.inBlock, hfeed]
    tot := by
      simp only [EdgeReader.init, ReaderPort.init]
      rw [hcounts, hlines]
      rfl
    pre := rfl
    pre_le := by omega
    need := fun _ => by omega
    block := rfl
    archive := by simp [EdgeReader.init]
    counts := by
      simp only [EdgeReader.init]
      rw [hcounts]
      rfl
    row_ge := by simp [EdgeReader.init]
    row_le := by simp [EdgeReader.init]
    busy := fun h0 => absurd rfl h0
    can := rfl
    curV := by simp [EdgeReader.init, rowPtr_zero]
    vArch := rfl
    lastV := by simp [EdgeReader.init, rowPtr_zero]
    fold := fun hw => by simp only [EdgeReader.init]; omega
    first := fun _ => by simp [EdgeReader.init, colStream, rowPtr_zero]
    replay := fun h0 => by simp [EdgeReader.init] at h0
    faults := by
      simp only [EdgeReader.init]
      rw [hcounts]
      rfl
    edges := by simp [EdgeReader.init, rowPtr_zero]
    rows := by simp [EdgeReader.init]
    requests := by simp [EdgeReader.init]
    received := by simp [EdgeReader.init]
    calls := by simp [hcalls]
    entry := by rw [hentry, if_pos hpos]
    wait := fun _ => by simpa [EdgeReader.init] using hlt }

end EdgeAt

namespace EdgeDone

variable {P : Params} {out : Nat} {er : EdgeReader} {dc : DataController}

/-- A finished reader requests nothing. -/
theorem requestTurn (h : EdgeDone P out er dc) :
    (er.requestTurn P).2 = [] ∧ EdgeDone P out (er.requestTurn P).1 dc := by
  obtain ⟨hnil, hneed⟩ := ReaderPort.turn_off P.cacheLineCount .aCol er.edgeReqCount.isEmpty h.need
  refine ⟨hnil, { h with need := hneed, requests := ?_ }⟩
  simpa [EdgeReader.requestTurn, hnil] using h.requests

/-- A finished reader consumes nothing. -/
theorem outerProduct (h : EdgeDone P out er dc) (junk : Junk) : er.outerProduct P junk = er :=
  EdgeReader.outerProduct_idle P junk er (Or.inl h.remain)

theorem write (h : EdgeDone P out er dc) : EdgeDone P out (er.write P).1 dc := by
  unfold EdgeReader.write
  split
  · simp only
    split
    · exact { h with }
    · exact { h with }
  · exact h

end EdgeDone

end GcnSim
