import GcnSim.Core.EdgeReader
import GcnSim.Reader.BasisEdge

/-!
# The edge reader by blocks of folds

`EdgeReader::TransferData` hands out the columns of a row once for each of the
`UNIT_W_READ` folds of a block of folds, and goes on to the next block after
`a_col_size * UNIT_W_READ` items. The columns of the row are kept in `ev` until the row ends.
The other calls of the reader do not touch the counters of the folds.
-/

namespace GcnSim

/-- What an edge reader is configured with that hands out items. -/
structure FoldConfig extends Params where
  /-- `UNIT_W_READ`. -/
  unitWRead : Nat
  /-- `x_h`. -/
  xH : Nat
  /-- `XW_START`. -/
  xwStart : Nat
  /-- `CACHE_LINE_BYTE`. -/
  cacheLineByte : Nat
  /-- `a_col_size`. -/
  aColSize : Nat
  /-- `row_info.row_end`. -/
  rowEnd : Nat
  unitWRead_pos : 0 < unitWRead
  cacheLineByte_pos : 0 < cacheLineByte

/-- `EdgeReader` with the fields of `TransferData`. -/
structure FoldReader where
  core : EdgeReader
  ev : List Nat
  colNumArchive : Nat
  transferCnt : Int
  preWFold : Int
  preWFoldStart : Int
  preRepeat : Int
  deriving DecidableEq, Repr

namespace FoldReader

variable (C : FoldConfig)

/-- The constructor. -/
def init : FoldReader where
  core := .init C.toParams
  ev := []
  colNumArchive := 0
  transferCnt := 0
  preWFold := 0
  preWFoldStart := 0
  preRepeat := 0

/-- `start_w_fold`. -/
def startWFold (r : FoldReader) : Int := int32 (r.preRepeat * C.unitWRead)

/-- `limit_w_fold`. -/
def limitWFold (r : FoldReader) : Int :=
  let limit := int32 (int32 (r.preRepeat * C.unitWRead) + C.unitWRead)
  if C.wFold < u64OfInt limit then intOfU64 C.wFold else limit

/-- The next column is moved to `ev` in front of its first fold of the block. An empty `eq`
must not be read. -/
def fetch (r : FoldReader) : Option FoldReader :=
  if r.preWFold % C.unitWRead = 0 then
    match r.core.eq with
    | [] => none
    | c :: eq => some { r with
        core := { r.core with eq := eq }
        ev := r.ev ++ [c] }
  else some r

/-- The address of the line of a column, a `uint64_t`. -/
def lineAddress (col : Nat) (r : FoldReader) : Nat :=
  (C.xwStart + (C.xH * u64OfInt r.preRepeat * C.unitWRead + col * C.unitWRead +
    u64OfInt (int32 (r.preWFold - r.preWFoldStart)) / C.cacheLineCount) * C.cacheLineByte) %
      u64Size

/-- The item of a column. -/
def item (col : Nat) (r : FoldReader) : RowItem where
  colindex := col
  address := r.lineAddress C col
  preWFold := intOfU64 (u64OfInt r.preWFold / C.cacheLineCount)
  rowindex := r.core.preRow
  preWFoldStart := r.preWFoldStart
  preRepeat := r.preRepeat
  isEnd := r.core.remainColNum = 1

/-- The request flag after an item is handed out. -/
def reopen (r : FoldReader) : FoldReader :=
  { r with core := { r.core with port := r.core.port.reopen C.cacheLineCount } }

/-- The last fold of the last column of a row is handed out. -/
def endRow (start : Int) (r : FoldReader) : FoldReader :=
  let more := r.core.preRow ≠ C.rowEnd ∨ u64OfInt start ≠ C.wFold
  { r with
    core := { r.core with
      remainColNum := r.core.remainColNum - 1
      canReceive := if more then true else r.core.canReceive
      port := { r.core.port with
        qSpace := u64Sub r.core.port.qSpace r.ev.length
        qEmpty := if more then r.core.port.qEmpty else true } }
    ev := []
    preWFold := start }

/-- The counters after an item is handed out. -/
def advance (start limit : Int) (r : FoldReader) : FoldReader :=
  let r := { r with preWFold := int32 (r.preWFold + 1) }
  if r.core.remainColNum = 1 then
    if r.preWFold = limit then r.endRow C start else r
  else if r.preWFold = limit then { r with
    core := { r.core with remainColNum := u64Sub r.core.remainColNum 1 }
    preWFold := start }
  else r

/-- The test of an empty `eq`. -/
def checkEmpty (start : Int) (r : FoldReader) : FoldReader :=
  if r.preWFold = start ∧ r.core.eq = [] then
    { r with core := { r.core with port := { r.core.port with qEmpty := true } } }
  else r

/-- The next block of folds starts after as many items as a full block has. -/
def nextRepeat (r : FoldReader) : FoldReader :=
  if u64OfInt r.transferCnt = C.aColSize * C.unitWRead % u64Size then
    let preRepeat := int32 (r.preRepeat + 1)
    { r with
      preRepeat := preRepeat
      preWFold := int32 (preRepeat * C.unitWRead)
      preWFoldStart := int32 (preRepeat * C.unitWRead)
      transferCnt := 0 }
  else r

/-- The counters of `TransferData` behind the item it returns. -/
def finish (start limit : Int) (r : FoldReader) : FoldReader :=
  nextRepeat C (((r.reopen C).advance C start limit).checkEmpty start)

/-- `TransferData`; `none` if it reads an empty `eq` or past the end of `ev`. -/
def transferData (r : FoldReader) : Option (RowItem × FoldReader) :=
  let start := r.startWFold C
  let limit := r.limitWFold C
  match fetch C { r with transferCnt := int32 (r.transferCnt + 1) } with
  | none => none
  | some r =>
    match r.ev[u64Sub r.colNumArchive r.core.remainColNum]? with
    | none => none
    | some col => some (r.item C col, r.finish C start limit)

/-- `ReceiveData(vertex)`. -/
def receiveVertex (vertex : Nat) (r : FoldReader) : FoldReader :=
  let core := r.core.receiveVertex C.toParams vertex
  { r with
    core := core
    colNumArchive := if vertex < sentinel then core.remainColNum else r.colNumArchive }

end FoldReader

/-- A call of the reader. -/
inductive FoldOp where
  | chunk (data : List Nat)
  | vertex (vertex : Nat)
  | transfer
  | requestTurn
  | outerProduct (junk : Junk)
  | write

/-- The reader with the items it handed out; `undefinedRead` says that it read what is not
there. -/
structure FoldSystem where
  reader : FoldReader
  emitted : List RowItem
  undefinedRead : Bool
  deriving DecidableEq, Repr

namespace FoldSystem

variable (C : FoldConfig)

/-- The start. -/
def init : FoldSystem := ⟨.init C, [], false⟩

/-- An item is taken, if the reader has one and does not wait for a row pointer. -/
def transfer (s : FoldSystem) : FoldSystem :=
  if s.reader.core.port.qEmpty = false ∧ s.reader.core.canReceive = false then
    match s.reader.transferData C with
    | some (d, reader) => { s with
        reader := reader
        emitted := s.emitted ++ [d] }
    | none => { s with undefinedRead := true }
  else s

/-- A row pointer is given, if `CanVertexReceive`. -/
def vertex (vertex : Nat) (s : FoldSystem) : FoldSystem :=
  if s.reader.core.canReceive then { s with reader := s.reader.receiveVertex C vertex } else s

/-- One call. -/
def step (s : FoldSystem) : FoldOp → FoldSystem
  | .chunk data => { s with
      reader := { s.reader with core := s.reader.core.receiveData data } }
  | .vertex v => s.vertex C v
  | .transfer => s.transfer C
  | .requestTurn => { s with
      reader := { s.reader with core := (s.reader.core.requestTurn C.toParams).1 } }
  | .outerProduct junk => { s with
      reader := { s.reader with core := s.reader.core.outerProduct C.toParams junk } }
  | .write => { s with reader := { s.reader with core := (s.reader.core.write C.toParams).1 } }

end FoldSystem

end GcnSim
