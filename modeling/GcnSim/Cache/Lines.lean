import GcnSim.Cache.Replacement

/-!
# The tag arrays of the global buffer

The cache of `GlobalBuffer` is set-associative: `cache` and `weight_blk_idx` hold for
each way the column and the fold of the line in it. Beside them stand the books of
the replacement policy. The sets are indexed by `colindex % setN`, so vectors over
the sets are functions here.
-/

namespace GcnSim

/-- `CACHE_REPL_ALGO`, without the bloom filter and the moving average. -/
inductive ReplAlgo where
  | fifo | lru | rrip | ship
  deriving DecidableEq, Repr

/-- The shape of the cache. -/
structure GbConfig where
  algo : ReplAlgo
  setN : Nat
  wayN : Nat
  setN_pos : 0 < setN
  wayN_pos : 0 < wayN

/-- One set of one way. -/
def GbConfig.oneWay (algo : ReplAlgo) : GbConfig := ⟨algo, 1, 1, Nat.one_pos, Nat.one_pos⟩

/-- One set of two ways. -/
def GbConfig.twoWays (algo : ReplAlgo) : GbConfig := ⟨algo, 1, 2, Nat.one_pos, Nat.two_pos⟩

/-- `struct ERData`, as far as the buffer reads it. -/
structure ERData where
  colindex : Nat
  address : Nat
  preWFold : Int
  deriving DecidableEq, Repr

/-- An entry of `cache` with the entry of `weight_blk_idx` beside it. -/
structure Tag where
  col : Int
  fold : Int
  deriving DecidableEq, Repr

namespace Tag

/-- An unused way. -/
def empty : Tag := ⟨-1, -1⟩

/-- The way is not in use: `cache[set][way] == -1`. -/
def isEmpty (t : Tag) : Bool := t.col = -1

/-- The way holds the line of the item. -/
def holds (t : Tag) (d : ERData) : Bool := u64OfInt t.col = d.colindex && t.fold = d.preWFold

end Tag

/-- The tag a line is installed with. -/
def ERData.tag (d : ERData) : Tag := ⟨intOfU64 d.colindex, d.preWFold⟩

/-- What happened to the lines of a set. -/
inductive LineEvent where
  | install (t : Tag) | hit (t : Tag)
  deriving DecidableEq, Repr

/-- The tag arrays with the books of the policy. `events` is history. -/
structure Cache where
  tags : Nat → List Tag
  lists : Nat → PolicyList
  rrpvList : Nat → List Nat
  ship : Ship
  events : Nat → List LineEvent

namespace Cache

variable (C : GbConfig)

/-- The cache of a new buffer. -/
def init : Cache where
  tags _ := List.replicate C.wayN .empty
  lists _ := ⟨[], []⟩
  rrpvList _ := List.replicate C.wayN 3
  ship := ⟨List.replicate C.wayN false, List.replicate C.wayN (-1), fun _ => none⟩
  events _ := []

/-- The set of an item. -/
def setIdx (d : ERData) : Nat := d.colindex % C.setN

/-- The first way of its set that holds the line of the item. -/
def way? (c : Cache) (d : ERData) : Option Nat :=
  (c.tags (setIdx C d)).findIdx? (·.holds d)

/-- The line of the item is in the cache. -/
def resident (c : Cache) (d : ERData) : Bool :=
  (c.tags (setIdx C d)).any (·.holds d)

/-- The policy learns of a hit in a way. -/
def hit (d : ERData) (way : Nat) (c : Cache) : Cache :=
  let idx := setIdx C d
  let c := { c with
    events := Function.update c.events idx (c.events idx ++ [.hit d.tag]) }
  match C.algo with
  | .fifo => c
  | .lru => { c with
      lists := Function.update c.lists idx (Lru.access d.tag.col d.tag.fold (c.lists idx)) }
  | .rrip => { c with
      rrpvList := Function.update c.rrpvList idx (Rrip.access way (c.rrpvList idx)) }
  | .ship =>
    let r := c.ship.access way d.address (c.rrpvList idx)
    { c with rrpvList := Function.update c.rrpvList idx r.1, ship := r.2 }

/-- The line of the item is written to a way of its set. -/
def install (d : ERData) (way : Nat) (c : Cache) : Cache :=
  let idx := setIdx C d
  { c with
    tags := Function.update c.tags idx ((c.tags idx).set way d.tag)
    events := Function.update c.events idx (c.events idx ++ [.install d.tag]) }

/-- The FIFO and LRU branches of `ReceiveData(address)`: the first empty way, or the way of
the policy's victim, if there is one. -/
def installScan (access : Int → Int → PolicyList → PolicyList)
    (replace : PolicyList → (Int × Int) × PolicyList) (d : ERData) (c : Cache) : Cache :=
  match (c.tags (setIdx C d)).findIdx? Tag.isEmpty with
  | some way => { c.install C d way with
      lists := Function.update c.lists (setIdx C d)
        (access d.tag.col d.tag.fold (c.lists (setIdx C d))) }
  | none =>
    match replace (c.lists (setIdx C d)) with
    | ((val, blkIdx), list) =>
      match (c.tags (setIdx C d)).findIdx? (· = ⟨val, blkIdx⟩) with
      | some way => { c.install C d way with
          lists := Function.update c.lists (setIdx C d) (access d.tag.col d.tag.fold list) }
      | none => { c with lists := Function.update c.lists (setIdx C d) list }

/-- The part of `ReceiveData(address)` that writes the line of `d = w_map[address]`. `junk` is
what the policy reads from an empty list. -/
def installLine (junk : Int × Int) (address : Nat) (d : ERData) (c : Cache) : Cache :=
  match C.algo with
  | .fifo => c.installScan C Fifo.access (Fifo.replace junk) d
  | .lru => c.installScan C Lru.access (Lru.replace junk) d
  | .rrip =>
    match Rrip.replace (c.rrpvList (setIdx C d)) with
    | some (way, rrpv) => { c.install C d way with
        rrpvList := Function.update c.rrpvList (setIdx C d) rrpv }
    | none => c
  | .ship =>
    match c.ship.replace address (c.rrpvList (setIdx C d)) with
    | some (way, rrpv, ship) => { c.install C d way with
        rrpvList := Function.update c.rrpvList (setIdx C d) rrpv
        ship := ship }
    | none => c

variable {C}

/-- The lookup of an item finds its line exactly if it is in the cache. -/
theorem way?_eq_none_iff (c : Cache) (d : ERData) :
    c.way? C d = none ↔ c.resident C d = false := by
  rw [way?, resident, List.findIdx?_eq_none_iff, List.any_eq_false]
  simp

theorem resident_of_way? {c : Cache} {d : ERData} {way : Nat} (h : c.way? C d = some way) :
    c.resident C d = true := by
  by_contra hres
  rw [(way?_eq_none_iff c d).mpr (eq_false_of_ne_true hres)] at h
  exact Option.some_ne_none way h.symm

/-- A hit is no change of the tags. -/
@[simp] theorem hit_tags (d : ERData) (way : Nat) (c : Cache) : (c.hit C d way).tags = c.tags := by
  unfold hit
  cases C.algo <;> rfl

@[simp] theorem hit_events (d : ERData) (way : Nat) (c : Cache) :
    (c.hit C d way).events =
      Function.update c.events (setIdx C d) (c.events (setIdx C d) ++ [.hit d.tag]) := by
  unfold hit
  cases C.algo <;> rfl

theorem resident_congr {c c' : Cache} (h : c'.tags = c.tags) (d : ERData) :
    c'.resident C d = c.resident C d := by
  rw [resident, resident, h]

end Cache

end GcnSim
