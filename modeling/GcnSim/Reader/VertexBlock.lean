import GcnSim.Core.VertexReader
import GcnSim.Core.DataController

/-!
# The vertex reader inside a block

`VertexAt` says where the vertex reader stands: the block it works on, the lines
of the block it has received and the lines still on their way. Each operation of
the reader is described once, as a move from one such position to the next.
The pass after the last replay of a block starts the next block, and after the
last block the reader pops a count that is not there.
-/

namespace GcnSim

namespace Params

variable (P : Params)

/-- The blocks a run can get to: with `w_w = 1` the test `x_repeat == w_fold - 1` never
holds after the first pass, and the readers replay block `0` for good. -/
def Reached (b : Nat) : Prop := b < P.blockCount ∧ (b = 0 ∨ 2 ≤ P.wW)

instance (b : Nat) : Decidable (P.Reached b) := inferInstanceAs (Decidable (_ ∧ _))

/-- The row lines of block `b`. -/
def vertexLines (b : Nat) : Nat := lineCalls P.cacheLineCount (P.vertexReqCount.getD b 0)

/-- The row feed of the controller after `d` lines of block `b`. -/
def rowFeed (b d : Nat) : LineFeed := .after P.cacheLineCount P.vertexReqCount P.row b d

/-- The row pointers of block `b` that came with its first `d` lines. -/
def rowStream (b d : Nat) : List Nat := (P.blockRows b).take (d * P.cacheLineCount - lead b)

/-- The position in the row line of the first entry of line `d` of block `b`. -/
def lineStart (b d : Nat) : Nat := P.blockStart b + 1 - lead b + d * P.cacheLineCount

/-- No line after the first one starts with a row pointer `0`. `ReceiveData` takes a
leading `0` for the one that opens the row line and drops it. -/
def LinesStartPositive : Prop :=
  ∀ b < P.blockCount, P.Reached b → ∀ d < P.vertexLines b, 0 < b + d →
    0 < P.rowPtr (P.lineStart b d)

instance : Decidable P.LinesStartPositive :=
  inferInstanceAs (Decidable (∀ b < P.blockCount, _ → ∀ d < P.vertexLines b, _ → _))

/-- The pass that follows pass `p` over block `b`. -/
def nextPass (b p : Nat) : Nat × Nat := if 0 < p ∧ p = P.wW - 1 then (b + 1, 0) else (b, p + 1)

/-- The row before the first row of block `b`; the last row once all blocks are done. -/
def passStart (b : Nat) : Nat := min (P.blockStart b) P.aH

variable {P}

theorem passStart_eq {b : Nat} (hb : b < P.blockCount) : P.passStart b = P.blockStart b := by
  have h := lt_blockCount_iff.mp hb
  rw [passStart]
  omega

theorem passStart_blockCount : P.passStart P.blockCount = P.aH := by
  have h := lt_blockCount_iff (P := P) (b := P.blockCount)
  rw [passStart]
  omega

@[simp] theorem length_blockRows (b : Nat) :
    (P.blockRows b).length = P.blockEnd b - P.blockStart b := by
  have h := P.blockEnd_le b
  rw [blockRows, List.length_take, List.length_drop, P.row_length]
  omega

theorem getElem_blockRows {b k : Nat} (hk : k < (P.blockRows b).length) :
    (P.blockRows b)[k] = P.rowPtr (P.blockStart b + k + 1) := by
  have hlen := hk
  rw [length_blockRows] at hlen
  have hle := P.blockEnd_le b
  have hrow : P.blockStart b + 1 + k < P.row.length := by rw [P.row_length]; omega
  simp only [blockRows, List.getElem_take, List.getElem_drop]
  rw [rowPtr, List.getD_eq_getElem?_getD, show P.blockStart b + k + 1 = P.blockStart b + 1 + k
    by omega, List.getElem?_eq_getElem hrow, Option.getD_some]

theorem vertexLines_eq {b : Nat} (hb : b < P.blockCount) :
    P.vertexLines b = ceilDiv (P.blockEnd b - P.blockStart b + lead b) P.cacheLineCount := by
  have hlt := blockStart_lt_blockEnd hb
  rw [vertexLines, getD_vertexReqCount hb,
    lineCalls_of_pos P.cacheLineCount_pos (by omega)]

/-- The row line is the leading `0` and then the rows, block by block. -/
theorem slice_vertexReqCount {b : Nat} (hb : b < P.blockCount) :
    Blocks.slice P.vertexReqCount P.row b = List.replicate (lead b) 0 ++ P.blockRows b := by
  have hoff := offset_vertexReqCount hb
  rw [Blocks.slice, getD_vertexReqCount hb, blockRows, ← hoff]
  rcases Nat.eq_zero_or_pos b with rfl | hpos
  · have hrow : P.row = 0 :: P.row.drop 1 := by
      have h0 : 0 < P.row.length := by rw [P.row_length]; omega
      have h := List.drop_eq_getElem_cons h0
      have hz := P.row_zero
      rw [List.getD_eq_getElem?_getD, List.getElem?_eq_getElem h0, Option.getD_some] at hz
      rw [List.drop_zero, hz] at h
      exact h
    rw [Blocks.offset_zero, List.drop_zero]
    conv_lhs => rw [hrow]
    simp [lead]
  · have hl : lead b = 0 := by simp [lead]; omega
    simp [hl]

/-- A stream that holds the whole block needed every line of it. -/
theorem vertexLines_le_of_rowStream {b d : Nat} (hb : b < P.blockCount)
    (h : P.blockEnd b - P.blockStart b ≤ (P.rowStream b d).length) : P.vertexLines b ≤ d := by
  have hlt := blockStart_lt_blockEnd hb
  rw [rowStream, List.length_take, length_blockRows] at h
  rw [vertexLines_eq hb]
  apply (ceilDiv_le_iff P.cacheLineCount_pos).mpr
  omega

/-- Line `d` of block `b` as the controller cuts it. -/
def rowLine (P : Params) (b d : Nat) : List Nat :=
  ((Blocks.slice P.vertexReqCount P.row b).drop (d * P.cacheLineCount)).take P.cacheLineCount

/-- The first line of all is the leading `0` and the first rows. -/
theorem rowLine_zero : P.rowLine 0 0 = 0 :: P.rowStream 0 1 := by
  simp only [rowLine, rowStream, slice_vertexReqCount P.blockCount_pos, lead, if_true,
    Nat.zero_mul, List.drop_zero, List.replicate_one, List.singleton_append, Nat.one_mul,
    List.take_cons P.cacheLineCount_pos]

/-- Every other line extends the stream of rows. -/
theorem rowStream_append_rowLine {b d : Nat} (hb : b < P.blockCount) (hfirst : 0 < b + d) :
    P.rowStream b (d + 1) = P.rowStream b d ++ P.rowLine b d ∧
      P.rowLine b d = ((P.blockRows b).drop (d * P.cacheLineCount - lead b)).take
        P.cacheLineCount ∧ lead b ≤ d * P.cacheLineCount := by
  have hclc := P.cacheLineCount_pos
  have hlead : lead b ≤ d * P.cacheLineCount := by
    rcases Nat.eq_zero_or_pos b with rfl | hbpos
    · have := Nat.mul_le_mul (show 1 ≤ d by omega) (show 1 ≤ P.cacheLineCount by omega)
      simp only [lead, if_true]
      omega
    · simp only [lead, show b ≠ 0 by omega, if_false]
      omega
  have hline : P.rowLine b d = ((P.blockRows b).drop (d * P.cacheLineCount - lead b)).take
      P.cacheLineCount := by
    simp only [rowLine, slice_vertexReqCount hb, List.drop_append, List.length_replicate,
      List.drop_replicate, Nat.sub_eq_zero_of_le hlead, List.replicate_zero, List.nil_append]
  refine ⟨?_, hline, hlead⟩
  rw [hline, rowStream, rowStream, Nat.succ_mul,
    show d * P.cacheLineCount + P.cacheLineCount - lead b =
      (d * P.cacheLineCount - lead b) + P.cacheLineCount by omega, List.take_add]

/-- The entries that `ReceiveData` keeps of line `d` extend the stream by that line. -/
theorem rowStream_succ {b d : Nat} (hpos : P.LinesStartPositive) (hb : P.Reached b)
    (hd : d < P.vertexLines b) :
    P.rowStream b (d + 1) = P.rowStream b d ++
      (if (P.rowLine b d).head? = some 0 then (P.rowLine b d).tail else P.rowLine b d) := by
  have hclc := P.cacheLineCount_pos
  by_cases hfirst : 0 < b + d
  · obtain ⟨hstream, hline, hlead⟩ := rowStream_append_rowLine hb.1 hfirst
    have hk : d * P.cacheLineCount - lead b < (P.blockRows b).length := by
      rw [length_blockRows]
      rw [vertexLines_eq hb.1, lt_ceilDiv_iff hclc] at hd
      omega
    have hhead : (P.rowLine b d).head? = some (P.rowPtr (P.lineStart b d)) := by
      rw [hline, List.drop_eq_getElem_cons hk, List.take_cons hclc, List.head?_cons,
        getElem_blockRows hk, lineStart]
      congr 2
      have hl : lead b ≤ 1 := by unfold lead; split <;> omega
      omega
    have hne : (P.rowLine b d).head? ≠ some 0 := by
      rw [hhead]
      have := hpos b hb.1 hb d hd hfirst
      intro he
      have he := Option.some.inj he
      omega
    rw [if_neg hne, hstream]
  · obtain ⟨rfl, rfl⟩ : b = 0 ∧ d = 0 := by omega
    rw [rowLine_zero]
    simp [rowStream]

/-- Whatever `ReceiveData` drops, what it keeps of a line is part of the stream. -/
theorem sublist_rowStream_succ {b d : Nat} (hb : b < P.blockCount) {pushed : List Nat}
    (h : pushed.Sublist (P.rowStream b d)) :
    (pushed ++ (if (P.rowLine b d).head? = some 0 then (P.rowLine b d).tail
      else P.rowLine b d)).Sublist (P.rowStream b (d + 1)) := by
  by_cases hfirst : 0 < b + d
  · rw [(rowStream_append_rowLine hb hfirst).1]
    refine h.append ?_
    split
    · exact List.tail_sublist _
    · exact List.Sublist.refl _
  · obtain ⟨rfl, rfl⟩ : b = 0 ∧ d = 0 := by omega
    have hnil : pushed = [] := by
      have hlen := h.length_le
      simp only [rowStream, Nat.zero_mul, Nat.zero_sub, List.take_zero, List.length_nil] at hlen
      exact List.length_eq_zero_iff.mp (by omega)
    rw [hnil, rowLine_zero]
    simp

/-- Rows of the block that are as many as it has are all of them. -/
theorem eq_blockRows_of_sublist {b d : Nat} (hb : b < P.blockCount) {pushed : List Nat}
    (h : pushed.Sublist (P.rowStream b d))
    (hlen : P.blockEnd b - P.blockStart b ≤ pushed.length) :
    pushed = P.blockRows b ∧ P.vertexLines b ≤ d := by
  have hsub : pushed.Sublist (P.blockRows b) := h.trans (List.take_sublist _ _)
  exact ⟨hsub.eq_of_length_le (by rwa [length_blockRows]),
    vertexLines_le_of_rowStream hb (hlen.trans h.length_le)⟩

end Params

open Params

/-- The request turn of a reader that has `d` of the `lines` of its block, waits for `out` more
and wants only lines of the block: it asks for one more at most, and keeps to the block. -/
theorem ReaderPort.turn_spec (clc : Nat) (r : Region) (exhausted : Bool) {p : ReaderPort}
    {lines d out : Nat} (htot : p.totReadCnt = lines) (hpre : p.preReadCnt = d + out)
    (hle : d + out ≤ lines) (hneed : p.reqNeed = true → d + out < lines) :
    let t := p.turn clc r exhausted
    (t.2 = [] ∨ t.2 = [readLine r p.reqLine]) ∧ t.1.totReadCnt = lines ∧
      t.1.preReadCnt = d + (out + t.2.length) ∧ d + (out + t.2.length) ≤ lines ∧
      (t.1.reqNeed = true → d + (out + t.2.length) < lines) := by
  by_cases hend : p.isEndOperation exhausted = true
  · simp [turn, hend, turnOffFlag, htot, hpre, hle]
  · by_cases hn : p.reqNeed = true
    · have hlt := hneed hn
      simp only [turn, hend, hn, request, if_true, if_false, Bool.false_eq_true]
      split
      · exact ⟨Or.inr trivial, htot, congrArg Nat.succ hpre, hlt, fun hfalse => by cases hfalse⟩
      · rename_i hmore
        rw [not_or, htot, hpre] at hmore
        exact ⟨Or.inr trivial, htot, congrArg Nat.succ hpre, hlt,
          fun _ => Nat.lt_of_le_of_ne hlt hmore.2⟩
    · simp [turn, hend, hn, htot, hpre, hle]

/-- A reader that wants no line requests none. -/
theorem ReaderPort.turn_off (clc : Nat) (r : Region) (exhausted : Bool) {p : ReaderPort}
    (hneed : p.reqNeed = false) :
    (p.turn clc r exhausted).2 = [] ∧ (p.turn clc r exhausted).1.reqNeed = false := by
  by_cases hend : p.isEndOperation exhausted = true
  · simp [turn, hend, turnOffFlag]
  · simp [turn, hend, hneed]

/-- After a pop a port that wants a line wanted one before, or has one left in its block. -/
theorem ReaderPort.of_reopen_reqNeed {clc : Nat} {p : ReaderPort}
    (hneed : (p.release.reopen clc).reqNeed = true) :
    p.reqNeed = true ∨ p.preReadCnt < p.totReadCnt := by
  unfold reopen at hneed
  split at hneed
  next hopen =>
    have hlt := hopen.1
    rw [release_preReadCnt, release_totReadCnt] at hlt
    exact Or.inr hlt
  next => exact Or.inl hneed

/-- Requests of at most one feature line. -/
def FeatureReads (ts : List Transaction) : Prop := ts = [] ∨ ∃ line, ts = [readLine .xw line]

namespace VertexReader

variable (P : Params) (junk : Junk) (vr : VertexReader)

/-- The first pass hands over the front of `vq` and keeps a copy in `v_cache`. -/
theorem transferData_first {x : Nat} {xs : List Nat} (hq : vr.vq = x :: xs)
    (hx : vr.xRepeat = 0) :
    ∃ popCount reqFLine fFlag ts, FeatureReads ts ∧ vr.transferData P junk = (x,
      (let vr' := { vr with
        preRow := vr.preRow + 1, vCache := vr.vCache ++ [x], vq := xs
        port := vr.port.release.reopen P.cacheLineCount
        popCount := popCount, reqFLine := reqFLine, fFlag := fFlag }
      if (vr.preRow + 1) % P.maxV = 0 ∨ vr.preRow + 1 = P.aH then
        { vr' with preRow := vr.preRowArchive, xRepeat := vr.xRepeat + 1 }
      else vr'), ts) := by
  obtain ⟨popCount, reqFLine, fFlag, hframe⟩ := countPop_frame P { vr with
    preRow := vr.preRow + 1, vCache := vr.vCache ++ [x], vq := xs, port := vr.port.release }
  have hreq := countPop_requests P { vr with
    preRow := vr.preRow + 1, vCache := vr.vCache ++ [x], vq := xs, port := vr.port.release }
  refine ⟨popCount, reqFLine, fFlag, _, hreq.imp_right fun h => ⟨_, h⟩, ?_⟩
  have hcond : vr.vq ≠ [] ∧ vr.xRepeat = 0 := ⟨by simp [hq], hx⟩
  rw [transferData, if_pos hcond]
  simp only [hq, popFront_cons, List.append_nil, hframe]
  split <;> rfl

/-- A replay hands over the next row of `v_cache`; the last one may end the block. -/
theorem transferData_replay (hq : vr.vq = []) (hx : 0 < vr.xRepeat)
    (hi : vr.vCacheIdx < vr.vCache.length) :
    ∃ popCount reqFLine fFlag ts, FeatureReads ts ∧
      vr.transferData P junk = (vr.vCache[vr.vCacheIdx],
      (let vr' := { vr with
        preRow := vr.preRow + 1, vCacheIdx := vr.vCacheIdx + 1
        popCount := popCount, reqFLine := reqFLine, fFlag := fFlag }
      if vr.vCacheIdx + 1 = P.maxV ∨ vr.preRow + 1 = P.aH then
        if vr.xRepeat ≠ P.wW - 1 then
          { vr' with preRow := vr.preRowArchive, xRepeat := vr.xRepeat + 1, vCacheIdx := 0 }
        else vr'.nextBlock P junk
      else vr'), ts) := by
  obtain ⟨popCount, reqFLine, fFlag, hframe⟩ := countPop_frame P { vr with
    preRow := vr.preRow + 1, vCacheIdx := vr.vCacheIdx + 1 }
  have hreq := countPop_requests P { vr with
    preRow := vr.preRow + 1, vCacheIdx := vr.vCacheIdx + 1 }
  refine ⟨popCount, reqFLine, fFlag, _, hreq.imp_right fun h => ⟨_, h⟩, ?_⟩
  have hfirst : ¬ (vr.vq ≠ [] ∧ vr.xRepeat = 0) := by rintro ⟨h, _⟩; exact h hq
  rw [transferData, if_neg hfirst, if_pos ⟨hq, hx⟩]
  simp only [readAt_of_lt _ _ hi, List.append_nil, hframe]
  split
  · split <;> rfl
  · rfl

/-- Without a row to hand over the reader answers the sentinel and keeps its state. -/
theorem transferData_wait (hq : vr.vq = []) (hx : vr.xRepeat = 0) :
    vr.transferData P junk = (sentinel, vr, []) := by
  have hfirst : ¬ (vr.vq ≠ [] ∧ vr.xRepeat = 0) := by rintro ⟨h, _⟩; exact h hq
  have hreplay : ¬ (vr.vq = [] ∧ 0 < vr.xRepeat) := by rintro ⟨_, h⟩; omega
  rw [transferData, if_neg hfirst, if_neg hreplay]

end VertexReader

/-- The vertex reader works on block `b`: `d` of its lines have arrived and `out` are
requested and on their way. -/
structure VertexAt (P : Params) (b d out : Nat) (vr : VertexReader) (feed : LineFeed) :
    Prop where
  reached : P.Reached b
  /-- The controller stands at the same line of the same block. -/
  feed_eq : feed = P.rowFeed b d
  tot : vr.port.totReadCnt = P.vertexLines b
  pre : vr.port.preReadCnt = d + out
  pre_le : d + out ≤ P.vertexLines b
  need : vr.port.reqNeed = true → d + out < P.vertexLines b
  archive : vr.preRowArchive = P.blockStart b
  counts : vr.vertexReqCount = P.vertexReqCount.drop (b + 1)
  row_ge : P.blockStart b ≤ vr.preRow
  row_lt : vr.preRow < P.blockEnd b
  fold : 2 ≤ P.wW → vr.xRepeat < P.wW
  /-- The first pass moves the rows that have arrived from `vq` to `v_cache`. -/
  first : vr.xRepeat = 0 → vr.vCacheIdx = 0 ∧
    vr.vCache = (P.blockRows b).take (vr.preRow - P.blockStart b) ∧
    vr.vCache ++ vr.vq = P.rowStream b d
  /-- A replay reads the complete block from `v_cache`. -/
  replay : 0 < vr.xRepeat → d = P.vertexLines b ∧ vr.vq = [] ∧ vr.vCache = P.blockRows b ∧
    vr.vCacheIdx = vr.preRow - P.blockStart b
  faults : vr.faults = []

/-- The vertex reader has handed over every block; its last pop was undefined. -/
structure VertexDone (P : Params) (out : Nat) (vr : VertexReader) : Prop where
  wW : 2 ≤ P.wW
  out_eq : out = 0
  pass : vr.xRepeat = 0
  row : vr.preRow = P.aH
  archive : vr.preRowArchive = P.aH
  vq : vr.vq = []
  need : vr.port.reqNeed = false
  faults : vr.faults ≠ []

/-- The vertex reader is about to hand over row `r + 1` in pass `p` over block `b`. -/
def VertexPos (P : Params) (b p r out : Nat) (vr : VertexReader) (feed : LineFeed) : Prop :=
  (∃ d, VertexAt P b d out vr feed ∧ vr.xRepeat = p ∧ vr.preRow = r) ∨
    (b = P.blockCount ∧ p = 0 ∧ r = P.aH ∧ VertexDone P out vr)

/-- Row `r + 1` of pass `p` over block `b` was handed over: the next row of the pass follows
or, after the last one, the next pass. -/
def HandedOver (P : Params) (b p r out : Nat) (vr : VertexReader) (feed : LineFeed) : Prop :=
  (r + 1 < P.blockEnd b ∧ VertexPos P b p (r + 1) out vr feed) ∨
    (r + 1 = P.blockEnd b ∧ VertexPos P (P.nextPass b p).1 (P.nextPass b p).2
      (P.passStart (P.nextPass b p).1) out vr feed)

namespace VertexAt

variable {P : Params} {b d out : Nat} {vr : VertexReader} {feed : LineFeed}

/-- During a replay nothing is on its way. -/
theorem out_eq_zero (h : VertexAt P b d out vr feed) (hp : 0 < vr.xRepeat) : out = 0 := by
  have hd := (h.replay hp).1
  have hle := h.pre_le
  omega

/-- The request turn asks for at most one more line, and only for lines of the block. -/
theorem requestTurn (h : VertexAt P b d out vr feed) :
    ((vr.requestTurn P).2 = [] ∧ VertexAt P b d out (vr.requestTurn P).1 feed) ∨
    ((vr.requestTurn P).2 = [readLine .aRow vr.port.reqLine] ∧
      VertexAt P b d (out + 1) (vr.requestTurn P).1 feed) := by
  obtain ⟨hlist, htot, hpre, hle, hneed⟩ := ReaderPort.turn_spec P.cacheLineCount .aRow
    vr.vertexReqCount.isEmpty h.tot h.pre h.pre_le h.need
  have hat : VertexAt P b d (out + (vr.requestTurn P).2.length) (vr.requestTurn P).1 feed :=
    { h with tot := htot, pre := hpre, pre_le := hle, need := hneed }
  rcases hlist with hnil | hone
  · have hlen : (vr.requestTurn P).2.length = 0 := congrArg List.length hnil
    rw [hlen] at hat
    exact Or.inl ⟨hnil, hat⟩
  · have hlen : (vr.requestTurn P).2.length = 1 := congrArg List.length hone
    rw [hlen] at hat
    exact Or.inr ⟨hone, hat⟩

/-- A row line reply delivers the next line of the block, and `ReceiveData` keeps
exactly its row pointers. -/
theorem receiveData (h : VertexAt P b d (out + 1) vr feed) (hpos : P.LinesStartPositive)
    (junk : Junk) :
    let r := feed.dataReturn P.cacheLineCount .vertexReqCountCnt .adjrowindex junk
    r.2.2 = [] ∧ VertexAt P b (d + 1) out (vr.receiveData r.1) r.2.1 := by
  have hle := h.pre_le
  have hd : d < P.vertexLines b := by omega
  have hreply := LineFeed.dataReturn_after P.cacheLineCount_pos
    (by simpa using h.reached.1 : b < P.vertexReqCount.length) (by rw [sum_vertexReqCount]) hd
    .vertexReqCountCnt .adjrowindex junk
  have hfirst : vr.xRepeat = 0 := by
    by_contra hne
    have := h.out_eq_zero (Nat.pos_of_ne_zero hne)
    omega
  simp only [h.feed_eq, rowFeed, hreply, true_and]
  obtain ⟨hidx, hcache, hstream⟩ := h.first hfirst
  exact { h with
    feed_eq := rfl
    pre := by
      have := h.pre
      change vr.port.preReadCnt = d + 1 + out
      omega
    pre_le := by omega
    need := fun hn => by have := h.need hn; omega
    first := fun _ => ⟨hidx, hcache, by
      rw [rowStream_succ hpos h.reached hd, ← hstream, List.append_assoc]
      rfl⟩
    replay := fun hp => absurd hp (by change ¬ 0 < vr.xRepeat; omega) }

/-- The next block, or the undefined pop after the last one. -/
theorem nextBlock (h : VertexAt P b d out vr feed) (hp : 0 < vr.xRepeat)
    (hlast : vr.xRepeat = P.wW - 1) (junk : Junk) {vr' : VertexReader}
    (hrow : vr'.preRow = P.blockEnd b) (hq : vr'.vq = vr.vq)
    (hc : vr'.vertexReqCount = vr.vertexReqCount) (hf : vr'.faults = vr.faults) :
    VertexPos P (b + 1) 0 (P.passStart (b + 1)) out (vr'.nextBlock P junk) feed := by
  obtain ⟨hd, hvq, -, -⟩ := h.replay hp
  have hout := h.out_eq_zero hp
  have hb := h.reached.1
  have hw : 2 ≤ P.wW := by omega
  by_cases hnext : b + 1 < P.blockCount
  · have hs := blockEnd_eq_blockStart_succ hnext
    have hlt := blockStart_lt_blockEnd hnext
    have hpos : 0 < P.blockEnd (b + 1) - P.blockStart (b + 1) + lead (b + 1) := by omega
    have hcounts : vr'.vertexReqCount =
        (P.blockEnd (b + 1) - P.blockStart (b + 1) + lead (b + 1)) ::
          P.vertexReqCount.drop (b + 2) := by
      rw [hc, h.counts, vertexReqCount_drop hnext]
    have hlines : P.vertexLines (b + 1) =
        ceilDiv (P.blockEnd (b + 1) - P.blockStart (b + 1) + lead (b + 1)) P.cacheLineCount :=
      vertexLines_eq hnext
    left
    refine ⟨0, ?_, by simp [VertexReader.nextBlock], ?_⟩
    · exact {
        reached := ⟨hnext, Or.inr hw⟩
        feed_eq := by
          rw [h.feed_eq, hd, rowFeed]
          exact LineFeed.after_all le_rfl
        tot := by simp [VertexReader.nextBlock, hcounts, ReaderPort.restart, hlines]
        pre := by simp [VertexReader.nextBlock, ReaderPort.restart, hout]
        pre_le := by omega
        need := fun _ => by
          have := ceilDiv_pos hpos P.cacheLineCount_pos
          omega
        archive := by simp [VertexReader.nextBlock, hrow, hs]
        counts := by simp [VertexReader.nextBlock, hcounts]
        row_ge := by simp [VertexReader.nextBlock, hrow, hs]
        row_lt := by simp [VertexReader.nextBlock, hrow, hs, hlt]
        fold := fun _ => by simp only [VertexReader.nextBlock]; omega
        first := fun _ => by
          simp [VertexReader.nextBlock, hrow, hs, hq, hvq, rowStream]
        replay := fun hx => by simp [VertexReader.nextBlock] at hx
        faults := by simp [VertexReader.nextBlock, hcounts, hf, h.faults] }
    · rw [passStart_eq hnext, ← hs, ← hrow]
      rfl
  · have hB : b + 1 = P.blockCount := by omega
    have hend := blockEnd_last hnext
    have hcounts : vr'.vertexReqCount = [] := by
      rw [hc, h.counts, List.drop_eq_nil_of_le (by simp; omega)]
    right
    refine ⟨hB, rfl, by rw [hB, passStart_blockCount], ?_⟩
    exact {
      wW := hw
      out_eq := hout
      pass := rfl
      row := by simp [VertexReader.nextBlock, hrow, hend]
      archive := by simp [VertexReader.nextBlock, hrow, hend]
      vq := by simp [VertexReader.nextBlock, hq, hvq]
      need := by simp [VertexReader.nextBlock, hrow, hend]
      faults := by simp [VertexReader.nextBlock, hcounts] }

/-- The next row of the pass, as the block has it. -/
theorem getElem_next (h : VertexAt P b d out vr feed) :
    (P.blockRows b)[vr.preRow - P.blockStart b]? = some (P.rowPtr (vr.preRow + 1)) := by
  have hge := h.row_ge
  have hlt := h.row_lt
  have hlen : vr.preRow - P.blockStart b < (P.blockRows b).length := by
    rw [length_blockRows]
    omega
  rw [List.getElem?_eq_getElem hlen, getElem_blockRows hlen]
  congr 2
  omega

/-- In the first pass the front of `vq` is the row after those in `v_cache`. -/
theorem front_eq (h : VertexAt P b d out vr feed) (hx : vr.xRepeat = 0) {x : Nat}
    {xs : List Nat} (hq : vr.vq = x :: xs) :
    x = P.rowPtr (vr.preRow + 1) ∧
      (P.blockRows b).take (vr.preRow + 1 - P.blockStart b) = vr.vCache ++ [x] := by
  have hge := h.row_ge
  have hlt := h.row_lt
  obtain ⟨-, hcache, hstream⟩ := h.first hx
  have hlen : vr.vCache.length = vr.preRow - P.blockStart b := by
    rw [hcache, List.length_take, length_blockRows]
    omega
  have hget : (P.rowStream b d)[vr.preRow - P.blockStart b]? = some x := by
    rw [← hstream, hq, List.getElem?_append_right hlen.le, hlen, Nat.sub_self]
    rfl
  have harrived : vr.preRow - P.blockStart b < d * P.cacheLineCount - lead b := by
    by_contra hcon
    rw [rowStream, List.getElem?_take, if_neg hcon] at hget
    cases hget
  rw [rowStream, List.getElem?_take_of_lt harrived] at hget
  have hnext := hget
  rw [h.getElem_next, Option.some.injEq] at hnext
  refine ⟨hnext.symm, ?_⟩
  rw [show vr.preRow + 1 - P.blockStart b = vr.preRow - P.blockStart b + 1 by omega,
    List.take_add_one, hget, hcache]
  rfl

/-- With its last row the first pass is complete: every line has arrived, and `v_cache` has
the block. -/
theorem first_complete (h : VertexAt P b d out vr feed) (hx : vr.xRepeat = 0) {x : Nat}
    {xs : List Nat} (hq : vr.vq = x :: xs) (hend : vr.preRow + 1 = P.blockEnd b) :
    d = P.vertexLines b ∧ xs = [] ∧ vr.vCache ++ [x] = P.blockRows b := by
  have hle := h.pre_le
  obtain ⟨-, -, hstream⟩ := h.first hx
  have hall : vr.vCache ++ [x] = P.blockRows b := by
    rw [← (h.front_eq hx hq).2, hend, List.take_of_length_le (by rw [length_blockRows])]
  have hsplit : P.blockRows b ++ xs = P.rowStream b d := by
    rw [← hall, ← hstream, hq, List.append_assoc]
    rfl
  have hlen := congrArg List.length hsplit
  rw [rowStream, List.length_append, List.length_take] at hlen
  have hlines : P.vertexLines b ≤ d := by
    apply vertexLines_le_of_rowStream h.reached.1
    rw [← hsplit, List.length_append, length_blockRows]
    omega
  exact ⟨by omega, List.length_eq_zero_iff.mp (by omega), hall⟩

/-- Reopening the port asks for lines of the block only. -/
theorem need_of_reopen (h : VertexAt P b d out vr feed)
    (hneed : (vr.port.release.reopen P.cacheLineCount).reqNeed = true) :
    d + out < P.vertexLines b := by
  rcases ReaderPort.of_reopen_reqNeed hneed with hopen | hlt
  · exact h.need hopen
  · rwa [h.pre, h.tot] at hlt

/-- The first pass hands over the front of `vq`. -/
theorem transferData_first (h : VertexAt P b d out vr feed) (hx : vr.xRepeat = 0) {x : Nat}
    {xs : List Nat} (hq : vr.vq = x :: xs) (junk : Junk) :
    ∃ vr' ts, FeatureReads ts ∧
      vr.transferData P junk = (P.rowPtr (vr.preRow + 1), vr', ts) ∧
      HandedOver P b vr.xRepeat vr.preRow out vr' feed := by
  have hge := h.row_ge
  have hlt := h.row_lt
  obtain ⟨hidx, -, hstream⟩ := h.first hx
  obtain ⟨hrow, htake⟩ := h.front_eq hx hq
  obtain ⟨popCount, reqFLine, fFlag, ts, hts, heq⟩ :=
    VertexReader.transferData_first P junk vr hq hx
  refine ⟨_, ts, hts, by rw [← hrow]; exact heq, ?_⟩
  simp only [blockEnd_test (show P.blockStart b < vr.preRow + 1 by omega) hlt]
  by_cases hend : vr.preRow + 1 = P.blockEnd b
  · obtain ⟨hd, hxs, hall⟩ := h.first_complete hx hq hend
    have hnext : P.nextPass b vr.xRepeat = (b, vr.xRepeat + 1) := by simp [nextPass, hx]
    refine Or.inr ⟨hend, ?_⟩
    simp only [if_pos hend, hnext, passStart_eq h.reached.1]
    refine Or.inl ⟨d, ?_, rfl, h.archive⟩
    exact { h with
      tot := by simpa using h.tot
      pre := by simpa using h.pre
      need := h.need_of_reopen
      row_ge := h.archive.ge
      row_lt := by
        change vr.preRowArchive < P.blockEnd b
        rw [h.archive]
        omega
      fold := fun hw => by
        change vr.xRepeat + 1 < P.wW
        omega
      first := fun h1 => absurd h1 (Nat.succ_ne_zero _)
      replay := fun _ => ⟨hd, hxs, hall, by
        change vr.vCacheIdx = vr.preRowArchive - P.blockStart b
        rw [hidx, h.archive, Nat.sub_self]⟩ }
  · refine Or.inl ⟨by omega, ?_⟩
    rw [if_neg hend]
    refine Or.inl ⟨d, ?_, rfl, rfl⟩
    exact { h with
      tot := by simpa using h.tot
      pre := by simpa using h.pre
      need := h.need_of_reopen
      row_ge := by change _ ≤ vr.preRow + 1; omega
      row_lt := by change vr.preRow + 1 < _; omega
      first := fun _ => ⟨hidx, htake.symm, by
        rw [← hstream, hq, List.append_assoc]
        rfl⟩
      replay := fun hpos => absurd hpos (by change ¬ 0 < vr.xRepeat; omega) }

/-- A replay hands over the next row of `v_cache`. -/
theorem transferData_replay (h : VertexAt P b d out vr feed) (hx : 0 < vr.xRepeat)
    (junk : Junk) :
    ∃ vr' ts, FeatureReads ts ∧
      vr.transferData P junk = (P.rowPtr (vr.preRow + 1), vr', ts) ∧
      HandedOver P b vr.xRepeat vr.preRow out vr' feed := by
  have hge := h.row_ge
  have hlt := h.row_lt
  obtain ⟨hd, hvq, hcache, hidx⟩ := h.replay hx
  obtain ⟨hi, hval⟩ := List.getElem?_eq_some_iff.mp h.getElem_next
  simp only [← hcache, ← hidx] at hi hval
  obtain ⟨popCount, reqFLine, fFlag, ts, hts, heq⟩ :=
    VertexReader.transferData_replay P junk vr hvq hx hi
  refine ⟨_, ts, hts, by rw [← hval]; exact heq, ?_⟩
  have hmin := P.blockEnd_eq_min b
  have hcond : (vr.vCacheIdx + 1 = P.maxV ∨ vr.preRow + 1 = P.aH) ↔
      vr.preRow + 1 = P.blockEnd b := by omega
  simp only [hcond]
  by_cases hend : vr.preRow + 1 = P.blockEnd b
  · refine Or.inr ⟨hend, ?_⟩
    rw [if_pos hend]
    by_cases hlast : vr.xRepeat = P.wW - 1
    · have hnext : P.nextPass b vr.xRepeat = (b + 1, 0) := by
        rw [nextPass, if_pos ⟨hx, hlast⟩]
      rw [if_neg (not_not_intro hlast), hnext]
      exact h.nextBlock hx hlast junk hend rfl rfl rfl
    · have hnext : P.nextPass b vr.xRepeat = (b, vr.xRepeat + 1) := by
        rw [nextPass, if_neg (fun hc => hlast hc.2)]
      simp only [ne_eq, hlast, not_false_eq_true, if_true, hnext, passStart_eq h.reached.1]
      refine Or.inl ⟨d, ?_, rfl, h.archive⟩
      exact { h with
        row_ge := h.archive.ge
        row_lt := by
          change vr.preRowArchive < P.blockEnd b
          rw [h.archive]
          omega
        fold := fun hw => by
          have := h.fold hw
          change vr.xRepeat + 1 < P.wW
          omega
        first := fun h1 => absurd h1 (Nat.succ_ne_zero _)
        replay := fun _ => ⟨hd, hvq, hcache, by
          change 0 = vr.preRowArchive - P.blockStart b
          rw [h.archive, Nat.sub_self]⟩ }
  · refine Or.inl ⟨by omega, ?_⟩
    rw [if_neg hend]
    refine Or.inl ⟨d, ?_, rfl, rfl⟩
    exact { h with
      row_ge := by change _ ≤ vr.preRow + 1; omega
      row_lt := by change vr.preRow + 1 < _; omega
      first := fun h0 => absurd h0 (by change vr.xRepeat ≠ 0; omega)
      replay := fun _ => ⟨hd, hvq, hcache, by
        change vr.vCacheIdx + 1 = vr.preRow + 1 - P.blockStart b
        omega⟩ }

/-- What `TransferData` can do: wait for a line, or hand over the next row of the pass. -/
theorem transferData (h : VertexAt P b d out vr feed) (junk : Junk) :
    (vr.xRepeat = 0 ∧ vr.transferData P junk = (sentinel, vr, [])) ∨
    ∃ vr' ts, FeatureReads ts ∧
      vr.transferData P junk = (P.rowPtr (vr.preRow + 1), vr', ts) ∧
      HandedOver P b vr.xRepeat vr.preRow out vr' feed := by
  obtain hx | hx := Nat.eq_zero_or_pos vr.xRepeat
  · cases hq : vr.vq with
    | nil => exact Or.inl ⟨hx, VertexReader.transferData_wait P junk vr hq hx⟩
    | cons x xs => exact Or.inr (h.transferData_first hx hq junk)
  · exact Or.inr (h.transferData_replay hx junk)

end VertexAt

end GcnSim
