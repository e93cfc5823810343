import GcnSim.Cache.GlobalBuffer
import GcnSim.Reader.BasisEdge

/-!
# The hybrid replacement policies

With `BF_ALGO` and `MOVING_MED_ALGO` the lines of fold 0 are kept in the books of LRU, and
their columns are counted in bloom filters, resp. averaged over blocks of rows. A line of
another fold takes the way of the line with the smallest count, resp. of the line farthest
from the average; the books of LRU are not told of it.
-/

namespace GcnSim

/-- The values of `CACHE_REPL_ALGO` that mix two policies. -/
inductive HybridAlgo where
  | bf | movingMed
  deriving DecidableEq, Repr

/-- The shape of the cache and of the filters. `BF_LEN` and the numbers of blocks are
divisors. -/
structure HybridConfig where
  algo : HybridAlgo
  setN : Nat
  wayN : Nat
  aH : Nat
  bloomFilterNum : Nat
  bfLen : Nat
  bfOverlap : Nat
  movMedBlockNum : Nat
  setN_pos : 0 < setN
  wayN_pos : 0 < wayN
  bloomFilterNum_pos : 0 < bloomFilterNum
  bfLen_pos : 0 < bfLen
  movMedBlockNum_pos : 0 < movMedBlockNum

/-- What undefined reads return while a reply is received. -/
structure HybridJunk extends ReplyJunk where
  word : Int
  bit : Bool
  deriving DecidableEq, Repr

/-- `min_element`: the index of the first smallest entry. -/
def minElement (l : List Int) : Nat := l.findIdx fun x => l.all (x ≤ ·)

/-- `max_element`: the index of the first largest entry. -/
def maxElement (l : List Int) : Nat := l.findIdx fun x => l.all (· ≤ x)

namespace HybridConfig

variable (C : HybridConfig)

/-- The cache under LRU. -/
def lru : GbConfig := ⟨.lru, C.setN, C.wayN, C.setN_pos, C.wayN_pos⟩

/-- `total` vertices over `num` blocks, the first blocks one larger: `blkIdxVector` and
`mvmBlkIdxVector`. -/
def spread (total num : Nat) : List Nat :=
  (List.range num).map fun i => total / num + if i < total - num * (total / num) then 1 else 0

/-- `ovlStartIdx`. -/
def ovlStartIdx : Int :=
  intOfU64 (C.aH / C.bloomFilterNum * u64Sub 100 C.bfOverlap % u64Size / 100 + 1)

/-- `ovlStartIdx - 1`. -/
def ovlSkip : Int := int32 (C.ovlStartIdx - 1)

/-- `ovlBlkIdxVector`. -/
def ovlBlkIdxVector : List Int :=
  let blockVertexN : Int := (C.aH / C.bloomFilterNum : Nat)
  List.replicate (C.bloomFilterNum - 1) blockVertexN ++
    [int32 (C.aH - (C.bloomFilterNum - 1) * blockVertexN - C.ovlSkip)]

/-- `bfIdx`: the filter of every vertex. -/
def bfIdx : List Int :=
  (spread C.aH C.bloomFilterNum).zipIdx.flatMap fun b => List.replicate b.1 (b.2 : Int)

/-- `ovlBFIdx`: the overlapping filter of every vertex, `-1` at the front. -/
def ovlBFIdx : List Int :=
  List.replicate C.ovlSkip.toNat (-1) ++
    C.ovlBlkIdxVector.zipIdx.flatMap fun b => List.replicate b.1.toNat (b.2 : Int)

/-- `useOvlBF`: whether a vertex uses its overlapping filter. -/
def useOvlBF : List Bool :=
  (spread C.aH C.bloomFilterNum).flatMap fun n : Nat =>
    List.replicate C.ovlSkip.toNat false ++
      List.replicate ((n : Int) - C.ovlSkip).toNat true

end HybridConfig

/-- The counts of the filters, `bfList` and `olBfList`. -/
structure BloomFilter where
  bfList : List (List Int)
  olBfList : List (List Int)
  deriving DecidableEq, Repr

namespace BloomFilter

variable (C : HybridConfig)

/-- The constructor. -/
def init : BloomFilter where
  bfList := List.replicate C.bloomFilterNum (List.replicate C.bfLen 0)
  olBfList := List.replicate C.bloomFilterNum (List.replicate C.bfLen 0)

/-- The count of a column in a filter goes up, unless the vertex has no filter. -/
def bump (lists : List (List Int)) (filter : Option Int) (i : Nat) : List (List Int) :=
  match filter with
  | some f => if 0 ≤ f then lists.modify f.toNat (·.modify i fun n => int32 (n + 1)) else lists
  | none => lists

/-- `firstCycleAccess`. -/
def firstCycleAccess (row col : Nat) (bf : BloomFilter) : BloomFilter where
  bfList := bump bf.bfList C.bfIdx[row]? (col % C.bfLen)
  olBfList := bump bf.olBfList C.ovlBFIdx[row]? (col % C.bfLen)

/-- The count of a column in a filter; `junk` is what a read past the end returns. -/
def count (junk : Int) (blkIdx : Int) (useOvl : Bool) (bf : BloomFilter) (col : Int) : Int :=
  let lists := if useOvl then bf.olBfList else bf.bfList
  if 0 ≤ blkIdx then
    ((lists[blkIdx.toNat]?).bind (·[u64OfInt col % C.bfLen]?)).getD junk
  else junk

/-- `BloomFilter::replace`. -/
def replace (junk : Int) (blkIdx : Int) (useOvl : Bool) (tags : List Tag) (bf : BloomFilter) :
    Tag :=
  tags.getD (minElement (tags.map fun t => bf.count C junk blkIdx useOvl t.col)) .empty

end BloomFilter

/-- `mvmTmp`, `medians` and `mvmCurIdx`. A median is kept as the `int` it is converted to;
`none` is the average of no columns. -/
structure MovingMedian where
  tmp : List Int
  medians : List (Option Int)
  curIdx : Nat
  deriving DecidableEq, Repr

namespace MovingMedian

variable (C : HybridConfig)

/-- The constructor. -/
def init : MovingMedian := ⟨[], [], 0⟩

/-- The block of a row: the first one with as many vertices up to its end. -/
def blockOf (row : Nat) : Nat :=
  ((List.range C.movMedBlockNum).find? fun i =>
    row ≤ ((HybridConfig.spread C.aH C.movMedBlockNum).take (i + 1)).sum).getD 0

/-- The average of the columns of a block. -/
def average (tmp : List Int) : Option Int :=
  if tmp = [] then none
  else some (((tmp.map u64OfInt).sum % u64Size / tmp.length : Nat) : Int)

/-- `firstCycleAccess`. The first column of a block is not averaged. -/
def firstCycleAccess (row col : Nat) (m : MovingMedian) : MovingMedian :=
  if m.curIdx ≠ blockOf C row then
    { tmp := []
      medians := m.medians ++ [average m.tmp]
      curIdx := blockOf C row }
  else { m with tmp := m.tmp ++ [intOfU64 col] }

/-- `MovingMedian::replace`. The medians are indexed by the row. -/
def replace (junk : Int) (row : Nat) (tags : List Tag) (m : MovingMedian) : Tag :=
  let median := (m.medians[row]?.join).getD junk
  tags.getD (maxElement (tags.map fun t => ((median - t.col).natAbs : Int))) .empty

end MovingMedian

/-- `GlobalBuffer` with a hybrid policy. `outstanding` are the reads the memory has not
answered. -/
structure HybridBuffer where
  cache : Cache
  bf : BloomFilter
  mvm : MovingMedian
  wq : List RowItem
  wMap : Nat → RowItem
  wReqTable : Nat → Bool
  canTransfer : Bool
  canReceive : Bool
  qEmpty : Bool
  outstanding : List Nat

namespace HybridBuffer

variable (C : HybridConfig)

/-- The constructor. -/
def init : HybridBuffer where
  cache := Cache.init C.lru
  bf := .init C
  mvm := .init
  wq := []
  wMap _ := ⟨⟨0, 0, 0⟩, 0, 0, 0, false⟩
  wReqTable _ := false
  canTransfer := false
  canReceive := true
  qEmpty := true
  outstanding := []

/-- `Request`. -/
def request (d : RowItem) (hb : HybridBuffer) : HybridBuffer :=
  { hb with
    wMap := Function.update hb.wMap d.address d
    wReqTable := Function.update hb.wReqTable d.address true
    outstanding := hb.outstanding ++ [d.address] }

/-- `Request`, unless the line is under way. -/
def requestOnce (d : RowItem) (hb : HybridBuffer) : HybridBuffer :=
  if hb.wReqTable d.address then hb else hb.request d

/-- The first lines of `ReceiveData(ERData)`: an item of fold 0 is scanned by the policy. -/
def push (d : RowItem) (hb : HybridBuffer) : HybridBuffer :=
  { hb with
    wq := hb.wq ++ [d]
    qEmpty := false
    canReceive := if hb.wq.length + 1 = GlobalBuffer.limitWqSize then false else hb.canReceive
    bf := if C.algo = .bf ∧ d.preWFold = 0 then hb.bf.firstCycleAccess C d.rowindex d.colindex
      else hb.bf
    mvm := if C.algo = .movingMed ∧ d.preWFold = 0 then
        hb.mvm.firstCycleAccess C d.rowindex d.colindex
      else hb.mvm }

/-- `ReceiveData(ERData)`. LRU learns of a hit of fold 0. -/
def receiveItem (d : RowItem) (hb : HybridBuffer) : HybridBuffer :=
  match hb.cache.way? C.lru d.toERData with
  | some way => { hb.push C d with
      cache := if d.preWFold = 0 then hb.cache.hit C.lru d.toERData way else hb.cache
      canTransfer := true }
  | none => (hb.push C d).requestOnce d

/-- The victim of the second policy in a full set. -/
def victim (junk : HybridJunk) (row : Nat) (tags : List Tag) (hb : HybridBuffer) : Tag :=
  match C.algo with
  | .bf =>
    if C.bfOverlap = 0 ∨ C.useOvlBF.getD row junk.bit = false then
      hb.bf.replace C junk.word (C.bfIdx.getD row junk.word) false tags
    else hb.bf.replace C junk.word (C.ovlBFIdx.getD row junk.word) true tags
  | .movingMed => hb.mvm.replace junk.word row tags

/-- The line of an item of another fold than 0 is written: to the first empty way, or to the
way of the victim. -/
def installVictim (junk : HybridJunk) (d : RowItem) (hb : HybridBuffer) : Cache :=
  match (hb.cache.tags (Cache.setIdx C.lru d.toERData)).findIdx? Tag.isEmpty with
  | some way => hb.cache.install C.lru d.toERData way
  | none =>
    match (hb.cache.tags (Cache.setIdx C.lru d.toERData)).findIdx? (· = hb.victim C junk d.rowindex
        (hb.cache.tags (Cache.setIdx C.lru d.toERData))) with
    | some way => hb.cache.install C.lru d.toERData way
    | none => hb.cache

/-- The part of `ReceiveData(address)` that writes the line of `d = w_map[address]`. -/
def installLine (junk : HybridJunk) (d : RowItem) (hb : HybridBuffer) : Cache :=
  if d.preWFold = 0 then hb.cache.installLine C.lru junk.victim d.address d.toERData
  else hb.installVictim C junk d

/-- `ReceiveData(address)`. -/
def receiveReply (junk : HybridJunk) (address : Nat) (hb : HybridBuffer) : HybridBuffer :=
  let isHead := match hb.wq with
    | [] => junk.head
    | d :: _ => decide (address = d.address)
  { hb with
    cache := hb.installLine C junk (hb.wMap address)
    wReqTable := Function.update hb.wReqTable address false
    canTransfer := hb.canTransfer || isHead
    outstanding := hb.outstanding.erase address }

/-- A reply of the memory; only outstanding reads are answered. -/
def reply (junk : HybridJunk) (address : Nat) (hb : HybridBuffer) : HybridBuffer :=
  if address ∈ hb.outstanding then hb.receiveReply C junk address else hb

/-- `CanTransfer`. -/
def checkTransfer (hb : HybridBuffer) : HybridBuffer :=
  match hb.qEmpty, hb.wq with
  | false, d :: _ =>
    if hb.cache.resident C.lru d.toERData then { hb with canTransfer := true }
    else { hb.requestOnce d with canTransfer := false }
  | _, _ => { hb with canTransfer := false }

/-- `TransferAData`. -/
def transferAData (hb : HybridBuffer) : HybridBuffer :=
  { hb with
    canReceive := true
    wq := hb.wq.tail
    qEmpty := hb.qEmpty || hb.wq.tail.isEmpty }

/-- The calls of a buffer. -/
inductive Call where
  | receiveItem (d : RowItem)
  | canTransfer
  | transferAData
  | reply (address : Nat) (junk : HybridJunk)

/-- The effect of a call. -/
def call (hb : HybridBuffer) : Call → HybridBuffer
  | .receiveItem d => hb.receiveItem C d
  | .canTransfer => hb.checkTransfer C
  | .transferAData => hb.transferAData
  | .reply address junk => hb.reply C junk address

/-- The buffer after a list of calls. -/
def calls (cs : List Call) : HybridBuffer := Transition.run (call C) (init C) cs

variable {C}

theorem requestOnce_cache (d : RowItem) (hb : HybridBuffer) :
    (hb.requestOnce d).cache = hb.cache := by
  unfold requestOnce
  split <;> rfl

end HybridBuffer

end GcnSim
