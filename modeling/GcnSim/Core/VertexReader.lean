import GcnSim.Core.DataReader
import GcnSim.Core.Dram

/-!
# The vertex reader

`VertexReader` requests the row lines of one block, hands the row pointers of the
block to the edge reader once from its queue `vq` and then replays them from
`v_cache`, until the block was handed over `w_fold` times. `ReaderPort` collects
the request bookkeeping that it shares with the edge reader.
-/

namespace GcnSim

/-- `MAX_QUEUE_SIZE`. -/
def maxQueueSize : Nat := 1000000

/-- What `TransferData` returns when it has no row to hand over. -/
def sentinel : Nat := 9876543210

/-- `ReaderFlag`, `RCNT`, `q_space` and `req_address` of a reader. The counters of `RCNT` and the
`bound` of `ReceiveData` are `int`: no block has `2 ^ 31` lines and no line `2 ^ 31` entries. -/
structure ReaderPort where
  reqNeed : Bool
  qEmpty : Bool
  qSpace : Nat
  reqLine : Nat
  totReadCnt : Nat
  preReadCnt : Nat
  readCntAcm : Nat
  deriving DecidableEq, Repr

namespace ReaderPort

/-- The port a reader is constructed with, for a first block of `c` entries. -/
def init (clc c : Nat) : ReaderPort where
  reqNeed := true
  qEmpty := true
  qSpace := 0
  reqLine := 0
  totReadCnt := ceilDiv c clc
  preReadCnt := 0
  readCntAcm := 0

/-- `q_space--` after an entry was popped. -/
def release (p : ReaderPort) : ReaderPort := { p with qSpace := u64Sub p.qSpace 1 }

/-- The test after a pop that asks for the next line of the block. -/
def reopen (clc : Nat) (p : ReaderPort) : ReaderPort :=
  if p.preReadCnt < p.totReadCnt ∧ clc < u64Sub maxQueueSize p.qSpace then
    { p with reqNeed := true }
  else p

/-- `ReceiveData` books one line. -/
def receive (p : ReaderPort) : ReaderPort :=
  { p with readCntAcm := p.readCntAcm + 1, qEmpty := false }

/-- `Request` of the next line of a region. -/
def request (clc : Nat) (r : Region) (p : ReaderPort) : ReaderPort × List Transaction :=
  let q := { p with qSpace := u64Add p.qSpace clc, preReadCnt := p.preReadCnt + 1
                    reqLine := p.reqLine + 1 }
  (if u64Sub maxQueueSize q.qSpace < clc ∨ q.preReadCnt = q.totReadCnt then
    { q with reqNeed := false } else q, [readLine r p.reqLine])

/-- `IsEndOperation`, with the emptiness of the reader's count queue. -/
def isEndOperation (p : ReaderPort) (exhausted : Bool) : Bool :=
  p.preReadCnt = p.totReadCnt && exhausted

/-- `TurnOffFlag`. -/
def turnOffFlag (p : ReaderPort) : ReaderPort := { p with reqNeed := false }

/-- The main loop's request turn of a reader. -/
def turn (clc : Nat) (r : Region) (exhausted : Bool) (p : ReaderPort) :
    ReaderPort × List Transaction :=
  let p := if p.isEndOperation exhausted then p.turnOffFlag else p
  if p.reqNeed then p.request clc r else (p, [])

/-- The counts of the next block; more lines are wanted unless the last row is done. -/
def restart (clc c : Nat) (p : ReaderPort) : ReaderPort :=
  { p with totReadCnt := ceilDiv c clc, preReadCnt := 0 }

@[simp] theorem release_totReadCnt (p : ReaderPort) :
    p.release.totReadCnt = p.totReadCnt := by simp only [release]

@[simp] theorem release_preReadCnt (p : ReaderPort) :
    p.release.preReadCnt = p.preReadCnt := by simp only [release]

@[simp] theorem reopen_totReadCnt (clc : Nat) (p : ReaderPort) :
    (p.reopen clc).totReadCnt = p.totReadCnt := by
  unfold reopen
  split <;> rfl

@[simp] theorem reopen_preReadCnt (clc : Nat) (p : ReaderPort) :
    (p.reopen clc).preReadCnt = p.preReadCnt := by
  unfold reopen
  split <;> rfl

@[simp] theorem reopen_qEmpty (clc : Nat) (p : ReaderPort) :
    (p.reopen clc).qEmpty = p.qEmpty := by
  unfold reopen
  split <;> rfl

end ReaderPort

/-- `VertexReader` with the globals it owns: `v_cache`, `vertex_req_count` and `f_flag`. `pre_row`,
`pop_count` and `x_repeat` are `int`: there are fewer than `2 ^ 31` rows, and a block is replayed
fewer than `2 ^ 31` times, also for `w_w = 1`, where the replays have no end. -/
structure VertexReader where
  port : ReaderPort
  xRepeat : Nat
  preRowArchive : Nat
  vCacheIdx : Nat
  popCount : Nat
  reqFLine : Nat
  preRow : Nat
  vq : List Nat
  vCache : List Nat
  vertexReqCount : List Nat
  fFlag : Bool
  faults : List Access
  deriving DecidableEq, Repr

namespace VertexReader

/-- The constructor; `x_repeat` is never initialised and read as `0`. -/
def init (P : Params) : VertexReader :=
  let front := popFront .vertexReqCount (fun _ => 0) P.vertexReqCount
  { port := .init P.cacheLineCount front.1
    xRepeat := 0
    preRowArchive := 0
    vCacheIdx := 0
    popCount := 0
    reqFLine := 0
    preRow := 0
    vq := []
    vCache := []
    vertexReqCount := front.2.1
    fFlag := false
    faults := front.2.2 }

/-- `RequestF`: one feature line of XW. -/
def requestF (vr : VertexReader) : VertexReader × List Transaction :=
  ({ vr with reqFLine := vr.reqFLine + 1, fFlag := false }, [readLine .xw vr.reqFLine])

/-- The `pop_count` steps after a row was taken. -/
def countPop (P : Params) (vr : VertexReader) : VertexReader × List Transaction :=
  let r := if vr.popCount + 1 = P.cacheLineCount - 1 ∨ vr.preRow = P.aH - 1 then vr.requestF
    else (vr, [])
  ({ r.1 with
    popCount := if vr.popCount + 1 = P.cacheLineCount ∨ vr.preRow = P.aH - 1 then 0
      else vr.popCount + 1 }, r.2)

/-- The end of the last replay of a block: the counts of the next block are popped. -/
def nextBlock (P : Params) (junk : Junk) (vr : VertexReader) : VertexReader :=
  let front := popFront .vertexReqCount junk vr.vertexReqCount
  { vr with
    preRowArchive := vr.preRow
    vCacheIdx := 0
    vCache := []
    xRepeat := 0
    vertexReqCount := front.2.1
    faults := vr.faults ++ front.2.2
    port := { vr.port.restart P.cacheLineCount front.1 with
      qEmpty := true, reqNeed := vr.preRow ≠ P.aH } }

/-- `TransferData`: the value handed over, the reader after it and its feature requests. -/
def transferData (P : Params) (junk : Junk) (vr : VertexReader) :
    Nat × VertexReader × List Transaction :=
  if vr.vq ≠ [] ∧ vr.xRepeat = 0 then
    let front := popFront .vq junk vr.vq
    let r := countPop P { vr with
      preRow := vr.preRow + 1
      vCache := vr.vCache ++ [front.1]
      vq := front.2.1
      faults := vr.faults ++ front.2.2
      port := vr.port.release }
    let vr := { r.1 with port := r.1.port.reopen P.cacheLineCount }
    if vr.preRow % P.maxV = 0 ∨ vr.preRow = P.aH then
      (front.1, { vr with preRow := vr.preRowArchive, xRepeat := vr.xRepeat + 1 }, r.2)
    else (front.1, vr, r.2)
  else if vr.vq = [] ∧ 0 < vr.xRepeat then
    let read := readAt .vCache junk vr.vCache vr.vCacheIdx
    let r := countPop P { vr with
      preRow := vr.preRow + 1
      vCacheIdx := vr.vCacheIdx + 1
      faults := vr.faults ++ read.2 }
    if r.1.vCacheIdx = P.maxV ∨ r.1.preRow = P.aH then
      if r.1.xRepeat ≠ P.wFold - 1 then
        (read.1, { r.1 with preRow := r.1.preRowArchive, xRepeat := r.1.xRepeat + 1,
                            vCacheIdx := 0 }, r.2)
      else (read.1, r.1.nextBlock P junk, r.2)
    else (read.1, r.1, r.2)
  else (sentinel, vr, [])

/-- `ReceiveData`: a line that starts with `0` loses its first entry. -/
def receiveData (vr : VertexReader) (data : List Nat) : VertexReader :=
  { vr with vq := vr.vq ++ (if data.head? = some 0 then data.tail else data)
            port := vr.port.receive }

/-- `IsEndOperation`, `TurnOffFlag` and `Request` as the main loop calls them. -/
def requestTurn (P : Params) (vr : VertexReader) : VertexReader × List Transaction :=
  let r := vr.port.turn P.cacheLineCount .aRow vr.vertexReqCount.isEmpty
  ({ vr with port := r.1 }, r.2)

section countPop

variable (P : Params) (vr : VertexReader)

/-- Counting a taken row touches only the feature bookkeeping. -/
theorem countPop_frame : ∃ popCount reqFLine fFlag, (countPop P vr).1 =
    { vr with popCount := popCount, reqFLine := reqFLine, fFlag := fFlag } := by
  refine ⟨(countPop P vr).1.popCount, (countPop P vr).1.reqFLine, (countPop P vr).1.fFlag, ?_⟩
  by_cases h : vr.popCount + 1 = P.cacheLineCount - 1 ∨ vr.preRow = P.aH - 1
  · simp only [countPop, if_pos h, requestF]
  · simp only [countPop, if_neg h]

/-- A taken row requests nothing but feature lines. -/
theorem countPop_requests : (countPop P vr).2 = [] ∨
    (countPop P vr).2 = [readLine .xw vr.reqFLine] := by
  by_cases h : vr.popCount + 1 = P.cacheLineCount - 1 ∨ vr.preRow = P.aH - 1
  · exact Or.inr (by simp only [countPop, if_pos h, requestF])
  · exact Or.inl (by simp only [countPop, if_neg h])

end countPop

end VertexReader

end GcnSim
