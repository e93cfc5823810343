import GcnSim.Core.Machine
import Mathlib.Data.List.Perm.Basic

/-!
# DRAM transactions and the memory interface

An address is kept as a region of the address map and a line number in it; the
configurations put the regions `2^60` bytes apart. `DRAMsim3` itself is the
environment: each cycle it accepts some of the waiting transactions, in order,
and completes any of the accepted ones, each once, in any order.
-/

namespace GcnSim

/-- The regions of the address map that the A*XW loop uses, in address order. -/
inductive Region where
  | aRow | aCol | xw | axw
  deriving DecidableEq, Repr

/-- `address < WEIGHT_START`. -/
def Region.belowWeight : Region → Bool
  | .aRow | .aCol => true
  | .xw | .axw => false

/-- A line of a region. -/
structure Address where
  region : Region
  line : Nat
  deriving DecidableEq, Repr

/-- `struct Transaction`. -/
structure Transaction where
  address : Address
  isWrite : Bool
  deriving DecidableEq, Repr

/-- `dram->DRAMRequest(address, READ)` of a line. -/
def readLine (r : Region) (line : Nat) : Transaction := ⟨⟨r, line⟩, false⟩

/-- `dram->DRAMRequest(write_address, WRITE)`: `write_address` stays `AXW_START`. -/
def writeAxw : Transaction := ⟨⟨.axw, 0⟩, true⟩

/-- `DRAMInterface` with one memory, and the write counters its callbacks decrement. -/
structure Dram where
  /-- Requests waiting for the memory, `t_queue`. -/
  tQueue : List Transaction
  /-- Accepted and not yet completed transactions, inside `DRAMsim3`. -/
  inFlight : List Transaction
  fReadComplete : Bool
  wReadComplete : Bool
  fAddress : List Address
  wAddress : List Address
  totAxwCount : Nat
  totXwCount : Nat
  deriving DecidableEq, Repr

namespace Dram

/-- `DRAMRequest` for a list of requests. -/
def request (d : Dram) (ts : List Transaction) : Dram := { d with tQueue := d.tQueue ++ ts }

/-- `AddTransaction` with one memory that accepts `n` more transactions. -/
def addTransaction (d : Dram) (n : Nat) : Dram :=
  { d with tQueue := d.tQueue.drop n, inFlight := d.inFlight ++ d.tQueue.take n }

/-- `ReadCompleteCallback`. -/
def readCompleteCallback (d : Dram) (a : Address) : Dram :=
  if a.region.belowWeight then
    { d with fReadComplete := true, fAddress := d.fAddress ++ [a] }
  else { d with wReadComplete := true, wAddress := d.wAddress ++ [a] }

/-- `WriteCompleteCallback`: `address >= AXW_START` counts the result writes down. -/
def writeCompleteCallback (d : Dram) (a : Address) : Dram :=
  if a.region = .axw then { d with totAxwCount := u64Sub d.totAxwCount 1 }
  else { d with totXwCount := u64Sub d.totXwCount 1 }

/-- Completion of the accepted transaction at position `i`, if there is one. -/
def complete (d : Dram) (i : Nat) : Dram :=
  match d.inFlight[i]? with
  | none => d
  | some t =>
    let d := { d with inFlight := d.inFlight.eraseIdx i }
    if t.isWrite then d.writeCompleteCallback t.address else d.readCompleteCallback t.address

/-- `UpdateCycle`: the memory completes the listed transactions, one after the other. -/
def updateCycle (d : Dram) (done : List Nat) : Dram := done.foldl complete d

/-- `GetReadData`. -/
def getReadData (d : Dram) (isW : Bool) : Option Address × Dram :=
  if isW then
    (d.wAddress.head?, { d with wAddress := d.wAddress.tail,
                                wReadComplete := d.wReadComplete && !d.wAddress.tail.isEmpty })
  else
    (d.fAddress.head?, { d with fAddress := d.fAddress.tail,
                                fReadComplete := d.fReadComplete && !d.fAddress.tail.isEmpty })

/-- Reads of a region that were requested and not yet handed to the simulator. -/
def readsOut (d : Dram) (r : Region) : Nat :=
  d.tQueue.countP (fun t => !t.isWrite && t.address.region = r) +
    d.inFlight.countP (fun t => !t.isWrite && t.address.region = r) +
    d.fAddress.countP (fun a => a.region = r)

/-- Result writes that were requested and not yet completed. -/
def writesOut (d : Dram) : Nat :=
  d.tQueue.countP (fun t => t.isWrite && t.address.region = .axw) +
    d.inFlight.countP (fun t => t.isWrite && t.address.region = .axw)

/-- A region below the weights is served through the feature queue. -/
theorem complete_readsOut (d : Dram) (i : Nat) {r : Region} (hr : r.belowWeight = true) :
    (d.complete i).readsOut r = d.readsOut r := by
  unfold complete
  cases hi : d.inFlight[i]? with
  | none => rfl
  | some t =>
    obtain ⟨hlt, hget⟩ := List.getElem?_eq_some_iff.mp hi
    have hperm := (List.getElem_cons_eraseIdx_perm hlt).countP_eq
      (fun t => !t.isWrite && t.address.region = r)
    rw [hget, List.countP_cons] at hperm
    obtain ⟨⟨reg, line⟩, w⟩ := t
    cases w <;> cases reg <;> cases r <;>
      simp_all [readsOut, writeCompleteCallback, readCompleteCallback, Region.belowWeight] <;>
      omega

theorem updateCycle_readsOut (d : Dram) (done : List Nat) {r : Region}
    (hr : r.belowWeight = true) : (d.updateCycle done).readsOut r = d.readsOut r := by
  induction done generalizing d with
  | nil => rfl
  | cons i done ih =>
    change ((d.complete i).updateCycle done).readsOut r = _
    rw [ih, complete_readsOut d i hr]

theorem addTransaction_readsOut (d : Dram) (n : Nat) (r : Region) :
    (d.addTransaction n).readsOut r = d.readsOut r := by
  have h : (d.tQueue.take n ++ d.tQueue.drop n).countP
      (fun t => !t.isWrite && t.address.region = r) = _ :=
    congrArg (List.countP (fun t => !t.isWrite && t.address.region = r))
      (List.take_append_drop n d.tQueue)
  rw [List.countP_append] at h
  simp only [readsOut, addTransaction, List.countP_append]
  omega

theorem request_readsOut (d : Dram) (ts : List Transaction) (r : Region) :
    (d.request ts).readsOut r =
      d.readsOut r + ts.countP (fun t => !t.isWrite && t.address.region = r) := by
  simp only [readsOut, request, List.countP_append]
  omega

/-- Every completed write was outstanding: the counter and the outstanding writes go
down together, unless the counter wraps. -/
theorem complete_writesOut (d : Dram) (i : Nat) (hle : d.writesOut ≤ d.totAxwCount) :
    (d.complete i).writesOut ≤ (d.complete i).totAxwCount ∧
      (d.complete i).totAxwCount ≤ d.totAxwCount ∧
      d.totAxwCount + (d.complete i).writesOut = (d.complete i).totAxwCount + d.writesOut := by
  unfold complete
  cases hi : d.inFlight[i]? with
  | none => exact ⟨hle, le_rfl, rfl⟩
  | some t =>
    obtain ⟨hil, hget⟩ := List.getElem?_eq_some_iff.mp hi
    have hperm := (List.getElem_cons_eraseIdx_perm hil).countP_eq
      (fun t => t.isWrite && t.address.region = .axw)
    rw [hget, List.countP_cons] at hperm
    obtain ⟨⟨reg, line⟩, w⟩ := t
    simp only [writesOut] at hle
    cases w <;> cases reg <;>
      simp_all [writesOut, writeCompleteCallback, readCompleteCallback, Region.belowWeight]
    rw [u64Sub_of_le (by omega)]
    omega

theorem updateCycle_writesOut (d : Dram) (done : List Nat) (hle : d.writesOut ≤ d.totAxwCount) :
    (d.updateCycle done).writesOut ≤ (d.updateCycle done).totAxwCount ∧
      (d.updateCycle done).totAxwCount ≤ d.totAxwCount ∧
      d.totAxwCount + (d.updateCycle done).writesOut =
        (d.updateCycle done).totAxwCount + d.writesOut := by
  induction done generalizing d with
  | nil => exact ⟨hle, le_rfl, rfl⟩
  | cons i done ih =>
    obtain ⟨h1, h2, h3⟩ := complete_writesOut d i hle
    obtain ⟨k1, k2, k3⟩ := ih (d.complete i) h1
    change _ ≤ ((d.complete i).updateCycle done).totAxwCount ∧ _ ∧ _
    refine ⟨k1, k2.trans h2, ?_⟩
    change d.totAxwCount + ((d.complete i).updateCycle done).writesOut =
      ((d.complete i).updateCycle done).totAxwCount + d.writesOut
    omega

theorem addTransaction_writesOut (d : Dram) (n : Nat) :
    (d.addTransaction n).writesOut = d.writesOut := by
  have h : (d.tQueue.take n ++ d.tQueue.drop n).countP
      (fun t => t.isWrite && t.address.region = .axw) = _ :=
    congrArg (List.countP (fun t => t.isWrite && t.address.region = .axw))
      (List.take_append_drop n d.tQueue)
  rw [List.countP_append] at h
  simp only [writesOut, addTransaction, List.countP_append]
  omega

theorem request_writesOut (d : Dram) (ts : List Transaction) :
    (d.request ts).writesOut =
      d.writesOut + ts.countP (fun t => t.isWrite && t.address.region = .axw) := by
  simp only [writesOut, request, List.countP_append]
  omega

end Dram

end GcnSim
