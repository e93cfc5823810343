import GcnSim.Cache.Lines

/-!
# The global buffer

`GlobalBuffer` keeps a queue `wq` of items that wait for their line in front of the
cache. A line is requested when an item arrives and misses, and again when the item
at the head of the queue is found to be missing; `w_req_table` marks the addresses
that are under way and `w_map` the items they were requested for. A reply installs
the line.
-/

namespace GcnSim

/-- What undefined reads return while a reply is received: the victim of an empty policy
list, and whether the head of an empty `wq` has the address. -/
structure ReplyJunk where
  victim : Int × Int
  head : Bool
  deriving DecidableEq, Repr

/-- `GlobalBuffer`. `outstanding` are the reads the memory has not answered; `popped` is
history. -/
structure GlobalBuffer where
  cache : Cache
  wq : List ERData
  wMap : Nat → ERData
  wReqTable : Nat → Bool
  canTransfer : Bool
  canReceive : Bool
  qEmpty : Bool
  outstanding : List Nat
  /-- The items handed over, with whether their line was in the cache. -/
  popped : List (ERData × Bool)

namespace GlobalBuffer

variable (C : GbConfig)

/-- `LIMIT_WQ_SIZE`. -/
def limitWqSize : Nat := 32

/-- The constructor. -/
def init : GlobalBuffer where
  cache := Cache.init C
  wq := []
  wMap _ := ⟨0, 0, 0⟩
  wReqTable _ := false
  canTransfer := false
  canReceive := true
  qEmpty := true
  outstanding := []
  popped := []

/-- `Request`. -/
def request (d : ERData) (gb : GlobalBuffer) : GlobalBuffer :=
  { gb with
    wMap := Function.update gb.wMap d.address d
    wReqTable := Function.update gb.wReqTable d.address true
    outstanding := gb.outstanding ++ [d.address] }

/-- `Request`, unless the line is under way. -/
def requestOnce (d : ERData) (gb : GlobalBuffer) : GlobalBuffer :=
  if gb.wReqTable d.address then gb else gb.request d

/-- The first lines of `ReceiveData(ERData)`. -/
def push (d : ERData) (gb : GlobalBuffer) : GlobalBuffer :=
  { gb with
    wq := gb.wq ++ [d]
    qEmpty := false
    canReceive := if gb.wq.length + 1 = limitWqSize then false else gb.canReceive }

/-- `ReceiveData(ERData)`. -/
def receiveItem (d : ERData) (gb : GlobalBuffer) : GlobalBuffer :=
  match gb.cache.way? C d with
  | some way => { gb.push d with cache := gb.cache.hit C d way, canTransfer := true }
  | none => (gb.push d).requestOnce d

/-- `ReceiveData(address)`. -/
def receiveReply (junk : ReplyJunk) (address : Nat) (gb : GlobalBuffer) : GlobalBuffer :=
  let isHead := match gb.wq with
    | [] => junk.head
    | d :: _ => decide (address = d.address)
  { gb with
    cache := gb.cache.installLine C junk.victim address (gb.wMap address)
    wReqTable := Function.update gb.wReqTable address false
    canTransfer := gb.canTransfer || isHead
    outstanding := gb.outstanding.erase address }

/-- A reply of the memory; only outstanding reads are answered. -/
def reply (gb : GlobalBuffer) (r : Nat × ReplyJunk) : GlobalBuffer :=
  if r.1 ∈ gb.outstanding then gb.receiveReply C r.2 r.1 else gb

/-- `CanTransfer`: the head of `wq` is looked up, and requested if it is missing. -/
def checkTransfer (gb : GlobalBuffer) : GlobalBuffer :=
  match gb.qEmpty, gb.wq with
  | false, d :: _ =>
    if gb.cache.resident C d then { gb with canTransfer := true }
    else { gb.requestOnce d with canTransfer := false }
  | _, _ => { gb with canTransfer := false }

/-- `TransferAData`. -/
def transferAData (gb : GlobalBuffer) : GlobalBuffer :=
  match gb.wq with
  | [] => { gb with canReceive := true, qEmpty := true }
  | d :: wq => { gb with
      canReceive := true
      wq := wq
      qEmpty := gb.qEmpty || wq.isEmpty
      popped := gb.popped ++ [(d, gb.cache.resident C d)] }

variable {C}

theorem requestOnce_cache (d : ERData) (gb : GlobalBuffer) :
    (gb.requestOnce d).cache = gb.cache := by
  unfold requestOnce
  split <;> rfl

theorem checkTransfer_cache (gb : GlobalBuffer) : (gb.checkTransfer C).cache = gb.cache := by
  unfold checkTransfer
  split
  next d _ _ _ =>
    split
    next => rfl
    next => exact requestOnce_cache d gb
  next => rfl

theorem transferAData_cache (gb : GlobalBuffer) : (gb.transferAData C).cache = gb.cache := by
  unfold transferAData
  split <;> rfl

end GlobalBuffer

end GcnSim
