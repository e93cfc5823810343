import GcnSim.Core.VertexReader

/-!
# The edge reader

`EdgeReader` takes one row pointer at a time, derives the degree of the row and
consumes that many columns, one per cycle: from the queue `eq` in the first pass
over a block, from `e_cache` in the later ones. A completed pass sets `do_write`,
and `Write` then issues one result line per cycle until an episode is drained.
The `log` is history that the source does not keep.
-/

namespace GcnSim

/-- A column consumed by `OuterProduct`, with the block and the pass it was consumed in. -/
structure EdgeEvent where
  block : Nat
  pass : Nat
  col : Nat
  deriving DecidableEq, Repr

/-- A row accepted by `ReceiveData(vertex)` and the `remain_col_num` it was given. -/
structure RowEvent where
  block : Nat
  pass : Nat
  row : Nat
  remain : Nat
  deriving DecidableEq, Repr

/-- The write history: `do_write` is set, or one result line is requested. -/
inductive WriteEvent where
  | passEnd | line
  deriving DecidableEq, Repr

/-- History of the edge reader. -/
structure EdgeLog where
  edges : List EdgeEvent
  rows : List RowEvent
  writes : List WriteEvent
  /-- The block `req_stat` belonged to at each `Request`. -/
  requests : List Nat
  /-- The block `req_stat` belonged to at each line received, with the line. -/
  received : List (Nat × List Nat)
  deriving DecidableEq, Repr

/-- `EdgeReader` with the globals it owns: `e_cache`, `edge_req_count`, `last_v`,
`v_arch` and `block_cnt`. `pre_row`, `write_count` and `x_repeat` are `int`, with the bounds they
have in `VertexReader`. -/
structure EdgeReader where
  port : ReaderPort
  canReceive : Bool
  xRepeat : Nat
  eCacheIdx : Nat
  preRowArchive : Nat
  writeCount : Nat
  doWrite : Bool
  preRow : Nat
  curV : Nat
  prevV : Nat
  remainColNum : Nat
  eq : List Nat
  eCache : List Nat
  edgeReqCount : List Nat
  lastV : Nat
  vArch : Nat
  blockCnt : Nat
  faults : List Access
  log : EdgeLog
  deriving DecidableEq, Repr

namespace EdgeReader

/-- The constructor; `x_repeat` is never initialised and read as `0`. -/
def init (P : Params) : EdgeReader :=
  let front := popFront .edgeReqCount (fun _ => 0) P.edgeReqCount
  { port := .init P.cacheLineCount front.1
    canReceive := true
    xRepeat := 0
    eCacheIdx := 0
    preRowArchive := 0
    writeCount := P.writeLines
    doWrite := false
    preRow := 0
    curV := 0
    prevV := 0
    remainColNum := 0
    eq := []
    eCache := []
    edgeReqCount := front.2.1
    lastV := 0
    vArch := 0
    blockCnt := 0
    faults := front.2.2
    log := ⟨[], [], [], [], []⟩ }

/-- `do_write = true` at the end of a pass. -/
def setDoWrite (er : EdgeReader) : EdgeReader :=
  { er with doWrite := true
            log := { er.log with writes := er.log.writes ++ [.passEnd] } }

/-- The end of the last pass over a block. -/
def nextBlock (P : Params) (junk : Junk) (er : EdgeReader) : EdgeReader :=
  let front := popFront .edgeReqCount junk er.edgeReqCount
  let port := er.port.restart P.cacheLineCount front.1
  let er := { er with
    blockCnt := er.blockCnt + 1
    edgeReqCount := front.2.1
    faults := er.faults ++ front.2.2
    canReceive := if er.preRow = P.aH then false else er.canReceive
    port := if er.preRow = P.aH then port else { port with reqNeed := true }
    preRowArchive := er.preRow
    lastV := er.vArch
    eCacheIdx := 0
    eCache := []
    xRepeat := 0 }
  er.setDoWrite

/-- `OuterProduct`. -/
def outerProduct (P : Params) (junk : Junk) (er : EdgeReader) : EdgeReader :=
  if er.eq ≠ [] ∧ er.remainColNum ≠ 0 ∧ er.xRepeat = 0 then
    let front := popFront .eq junk er.eq
    let er := { er with
      eq := front.2.1
      eCache := er.eCache ++ [front.1]
      port := er.port.release.reopen P.cacheLineCount
      remainColNum := er.remainColNum - 1
      faults := er.faults ++ front.2.2
      log := { er.log with edges := er.log.edges ++ [⟨er.blockCnt, er.xRepeat, front.1⟩] } }
    if er.remainColNum = 0 then
      let er := { er with canReceive := true }
      if er.preRow % P.maxV = 0 ∨ er.preRow = P.aH then
        setDoWrite { er with preRow := er.preRowArchive, xRepeat := er.xRepeat + 1 }
      else er
    else er
  else if 0 < er.xRepeat ∧ er.remainColNum ≠ 0 then
    let read := readAt .eCache junk er.eCache er.eCacheIdx
    let er := { er with
      eCacheIdx := er.eCacheIdx + 1
      remainColNum := er.remainColNum - 1
      faults := er.faults ++ read.2
      log := { er.log with edges := er.log.edges ++ [⟨er.blockCnt, er.xRepeat, read.1⟩] } }
    if er.remainColNum = 0 ∧ er.xRepeat ≠ P.wFold - 1 then
      let er := { er with canReceive := true }
      if er.preRow % P.maxV = 0 ∨ er.preRow = P.aH then
        setDoWrite { er with preRow := er.preRowArchive, xRepeat := er.xRepeat + 1,
                             eCacheIdx := 0 }
      else er
    else if er.remainColNum = 0 ∧ er.xRepeat = P.wFold - 1 then
      let er := { er with canReceive := true }
      if er.preRow % P.maxV = 0 ∨ er.preRow = P.aH then er.nextBlock P junk
      else er
    else er
  else er

/-- `Write`: one result line per cycle while `do_write` is set. -/
def write (P : Params) (er : EdgeReader) : EdgeReader × List Transaction :=
  if er.doWrite then
    let er := { er with
      writeCount := er.writeCount - 1
      log := { er.log with writes := er.log.writes ++ [.line] } }
    (if er.writeCount = 0 then { er with writeCount := P.writeLines, doWrite := false }
      else er, [writeAxw])
  else (er, [])

/-- `ReceiveData` of a column line. -/
def receiveData (er : EdgeReader) (data : List Nat) : EdgeReader :=
  { er with eq := er.eq ++ data
            port := er.port.receive
            log := { er.log with received := er.log.received ++ [(er.blockCnt, data)] } }

/-- `ReceiveData` of a row pointer. -/
def receiveVertex (P : Params) (er : EdgeReader) (vertex : Nat) : EdgeReader :=
  if vertex < sentinel then
    let prevV := if vertex < er.curV then er.lastV else er.curV
    let remain := u64Sub vertex prevV
    let er := { er with
      prevV := prevV
      curV := vertex
      remainColNum := remain
      canReceive := false
      preRow := er.preRow + 1
      vArch := vertex
      log := { er.log with
        rows := er.log.rows ++ [⟨er.blockCnt, er.xRepeat, er.preRow + 1, remain⟩] } }
    if er.remainColNum = 0 then
      let er := { er with canReceive := true }
      if er.preRow = P.aH then setDoWrite { er with preRow := 0 } else er
    else er
  else er

/-- `IsEndOperation`, `TurnOffFlag` and `Request` as the main loop calls them. -/
def requestTurn (P : Params) (er : EdgeReader) : EdgeReader × List Transaction :=
  let r := er.port.turn P.cacheLineCount .aCol er.edgeReqCount.isEmpty
  ({ er with port := r.1
             log := { er.log with
               requests := er.log.requests ++ List.replicate r.2.length er.blockCnt } }, r.2)

end EdgeReader

end GcnSim
