import GcnSim.Core.Machine
import GcnSim.Cache.Lines
import GcnSim.Lib.Buckets
import GcnSim.Lib.Run

/-!
# The basis edge reader

`BasisEdgeReader` gets the columns of the adjacency line by line and the row pointers one
by one. For every column of the current row it hands out one item for each fold of the
features. The columns of the row are kept in `ev` until the row ends, and `eq` holds the
columns that arrived and are not used yet.
-/

namespace GcnSim

/-- `struct ERData` with the fields the cache does not read. -/
structure RowItem extends ERData where
  rowindex : Nat
  preWFoldStart : Int
  preRepeat : Int
  isEnd : Bool
  deriving DecidableEq, Repr

/-- What a basis edge reader is configured with. -/
structure BasisConfig where
  wFold : Nat
  /-- `XW_START`. -/
  xwStart : Nat
  /-- `CACHE_LINE_BYTE`. -/
  cacheLineByte : Nat
  /-- `CACHE_LINE_COUNT`. -/
  cacheLineCount : Nat
  /-- `A_COL_START + offset`. -/
  reqStart : Nat
  aColSize : Nat
  rowStart : Nat
  rowEnd : Nat
  wFold_pos : 0 < wFold

/-- `BasisEdgeReader` with the global `tot_axw_count`. Row numbers are of type `int`. -/
structure BasisEdgeReader where
  preWFold : Nat
  canReceive : Bool
  reqNeed : Bool
  qEmpty : Bool
  qSpace : Int
  reqAddress : Nat
  preRow : Int
  curV : Nat
  prevV : Nat
  remainColNum : Nat
  colNumArchive : Nat
  preReadCnt : Nat
  readCntAcm : Nat
  eq : List Nat
  ev : List Nat
  totAxwCount : Nat
  deriving DecidableEq, Repr

namespace BasisEdgeReader

variable (C : BasisConfig)

/-- `MAX_QUEUE_SIZE`. -/
def maxQueueSize : Int := 1000000

/-- `req_stat.tot_read_cnt`. -/
def totReadCnt : Nat := ceilDiv C.aColSize C.cacheLineCount

/-- The constructor. -/
def init (totAxwCount : Nat) : BasisEdgeReader where
  preWFold := 0
  canReceive := true
  reqNeed := true
  qEmpty := true
  qSpace := 0
  reqAddress := C.reqStart
  preRow := C.rowStart - 1
  curV := 0
  prevV := 0
  remainColNum := 0
  colNumArchive := 0
  preReadCnt := 0
  readCntAcm := 0
  eq := []
  ev := []
  totAxwCount := totAxwCount

/-- The address of the line of a column and a fold, a `uint64_t`. -/
def lineAddress (col fold : Nat) : Nat :=
  (C.xwStart + (col * C.wFold + fold) * C.cacheLineByte) % u64Size

/-- The first lines of `TransferData`: the next column is moved to `ev` in front of its
first fold. An empty `eq` must not be read. -/
def fetch (r : BasisEdgeReader) : Option BasisEdgeReader :=
  if r.preWFold = 0 then
    match r.eq with
    | [] => none
    | c :: eq => some { r with eq := eq, ev := r.ev ++ [c] }
  else some r

/-- The request flag after an item is handed out. The free space is compared as a
`uint64_t`. -/
def reopen (r : BasisEdgeReader) : BasisEdgeReader :=
  if r.preReadCnt < totReadCnt C ∧ C.cacheLineCount < u64OfInt (maxQueueSize - r.qSpace) then
    { r with reqNeed := true }
  else r

/-- The last fold of the last column of a row is handed out. -/
def endRow (r : BasisEdgeReader) : BasisEdgeReader :=
  { r with
    qSpace := r.qSpace - r.ev.length
    ev := []
    preWFold := 0
    remainColNum := r.remainColNum - 1
    canReceive := if u64OfInt r.preRow = C.rowEnd then r.canReceive else true
    qEmpty := if u64OfInt r.preRow = C.rowEnd then true else r.qEmpty }

/-- The counters after an item is handed out. -/
def advance (r : BasisEdgeReader) : BasisEdgeReader :=
  let r := { r with preWFold := r.preWFold + 1 }
  if r.remainColNum = 1 then
    if r.preWFold = C.wFold then r.endRow C else r
  else if r.preWFold = C.wFold then
    { r with preWFold := 0, remainColNum := u64Sub r.remainColNum 1 }
  else r

/-- The last test of `TransferData`. -/
def checkEmpty (r : BasisEdgeReader) : BasisEdgeReader :=
  if r.preWFold = 0 ∧ r.eq = [] then { r with qEmpty := true } else r

/-- `TransferData`; `none` if it reads an empty `eq` or past the end of `ev`. -/
def transferData (r : BasisEdgeReader) : Option (RowItem × BasisEdgeReader) :=
  match r.fetch with
  | none => none
  | some r =>
    match r.ev[u64Sub r.colNumArchive r.remainColNum]? with
    | none => none
    | some col =>
      some ({ colindex := col
              address := lineAddress C col r.preWFold
              preWFold := r.preWFold
              rowindex := u64OfInt r.preRow
              preWFoldStart := 0
              preRepeat := 0
              isEnd := r.remainColNum = 1 },
        (((r.reopen C).advance C).checkEmpty))

/-- `ReceiveData(queue)`. -/
def receiveQueue (data : List Nat) (r : BasisEdgeReader) : BasisEdgeReader :=
  { r with
    readCntAcm := r.readCntAcm + 1
    eq := r.eq ++ data
    qEmpty := false }

/-- `ReceiveData(vertex)`. A row without columns counts as written at once. -/
def receiveVertex (vertex : Nat) (r : BasisEdgeReader) : BasisEdgeReader :=
  let remain := u64Sub vertex r.curV
  { r with
    prevV := r.curV
    curV := vertex
    remainColNum := remain
    colNumArchive := remain
    preRow := r.preRow + 1
    canReceive := remain = 0
    totAxwCount := if remain = 0 then u64Sub r.totAxwCount C.wFold else r.totAxwCount }

/-- `Request`, without the read that it puts on the memory's queue. -/
def request (r : BasisEdgeReader) : BasisEdgeReader :=
  let qSpace := r.qSpace + C.cacheLineCount
  let preReadCnt := r.preReadCnt + 1
  { r with
    qSpace := qSpace
    preReadCnt := preReadCnt
    reqNeed := if u64OfInt (maxQueueSize - qSpace) < C.cacheLineCount ∨ preReadCnt = totReadCnt C
      then false else r.reqNeed
    reqAddress := u64Add r.reqAddress C.cacheLineByte }

/-- `TurnOffFlag`. -/
def turnOffFlag (r : BasisEdgeReader) : BasisEdgeReader := { r with reqNeed := false }

end BasisEdgeReader

/-- A call of the reader. `chunk n` delivers the next `n` columns. -/
inductive BasisOp where
  | chunk (n : Nat) | vertex | transfer | request | turnOffFlag
  deriving DecidableEq, Repr

/-- The reader with the columns and the row pointers it has not got yet. `emitted` are the
items it handed out, and `undefinedRead` says that it read what is not there. -/
structure BasisSystem where
  reader : BasisEdgeReader
  cols : List Nat
  ptrs : List Nat
  emitted : List RowItem
  undefinedRead : Bool
  deriving DecidableEq, Repr

namespace BasisSystem

variable (C : BasisConfig)

/-- The start for the rows of a unit: all their columns and the cumulative row pointers. -/
def init (totAxwCount : Nat) (rows : List (List Nat)) : BasisSystem where
  reader := .init C totAxwCount
  cols := rows.flatten
  ptrs := Buckets.ends 0 rows
  emitted := []
  undefinedRead := false

/-- A chunk that is not empty is delivered. -/
def chunk (n : Nat) (s : BasisSystem) : BasisSystem :=
  if 0 < n ∧ n ≤ s.cols.length then
    { s with
      reader := s.reader.receiveQueue (s.cols.take n)
      cols := s.cols.drop n }
  else s

/-- The next row pointer is given, if `CanVertexReceive`. -/
def vertex (s : BasisSystem) : BasisSystem :=
  match s.reader.canReceive, s.ptrs with
  | true, p :: ptrs => { s with
      reader := s.reader.receiveVertex C p
      ptrs := ptrs }
  | _, _ => s

/-- An item is taken, if the reader has one and does not wait for a row pointer. -/
def transfer (s : BasisSystem) : BasisSystem :=
  if s.reader.qEmpty = false ∧ s.reader.canReceive = false then
    match s.reader.transferData C with
    | some (d, reader) => { s with
        reader := reader
        emitted := s.emitted ++ [d] }
    | none => { s with undefinedRead := true }
  else s

/-- One call. -/
def step (s : BasisSystem) : BasisOp → BasisSystem
  | .chunk n => s.chunk n
  | .vertex => s.vertex C
  | .transfer => s.transfer C
  | .request => { s with reader := s.reader.request C }
  | .turnOffFlag => { s with reader := s.reader.turnOffFlag }

end BasisSystem

end GcnSim
