import GcnSim.Core.AddressMap
import GcnSim.Core.DramInterface
import GcnSim.Dramsim.JedecDramSystem

/-!
# The memory interface over its memories

`DRAMInterface` with the `DRAMsim3` memories in it and machine addresses in its queues. Whether
a memory accepts a transaction, when it calls back and when its write buffers drain is what the
controllers do.
-/

namespace GcnSim.Dramsim

/-- `DRAMInterface` with `MAX_DRAM` memories, and the write counters its callbacks decrement. -/
structure Interface (cfg : Config) where
  tQueue : List (Nat × Bool)
  drams : List (JedecDramSystem cfg)
  dramIdx : Nat
  fReadComplete : Bool
  wReadComplete : Bool
  fAddress : List Nat
  wAddress : List Nat
  totAxwCount : Nat
  totXwCount : Nat
  dramIdx_lt : dramIdx < drams.length

namespace Interface

variable {cfg : Config}

/-- The constructor. -/
def init (maxDram channels totAxwCount totXwCount : Nat) (hmax : 0 < maxDram)
    (hchannels : cfg.mapping.chMask < channels) : Interface cfg where
  tQueue := []
  drams := List.replicate maxDram (.init channels hchannels)
  dramIdx := 0
  fReadComplete := false
  wReadComplete := false
  fAddress := []
  wAddress := []
  totAxwCount := totAxwCount
  totXwCount := totXwCount
  dramIdx_lt := by rwa [List.length_replicate]

/-- `DRAMRequest`. -/
def request (d : Interface cfg) (address : Nat) (isWrite : Bool) : Interface cfg :=
  { d with tQueue := d.tQueue ++ [(address, isWrite)] }

/-- `CanRequest` for the front transaction `t`. -/
def canRequest (d : Interface cfg) (t : Nat × Bool) (i : Fin d.drams.length) : Bool :=
  d.drams[i].willAcceptTransaction t.1 t.2

/-- `dram[dram_idx]->AddTransaction` and the next index. -/
def place (d : Interface cfg) (i : Fin d.drams.length) (t : Nat × Bool) : Interface cfg :=
  { d with
    drams := d.drams.modify i fun m => (m.addTransaction t.1 t.2).2
    dramIdx := DramInterface.nextIdx i
    dramIdx_lt := by
      rw [List.length_modify]
      exact (DramInterface.nextIdx i).isLt }

/-- The loop of `AddTransaction` over the waiting transactions. -/
def addLoop (check : Nat) : List (Nat × Bool) → Interface cfg → Interface cfg
  | [], d => { d with tQueue := [] }
  | t :: ts, d =>
    let r := DramInterface.findDram check (d.canRequest t) d.drams.length
      ⟨d.dramIdx, d.dramIdx_lt⟩
    if r.1 then addLoop check ts (d.place r.2 t)
    else { d with
      tQueue := t :: ts
      dramIdx := r.2
      dramIdx_lt := r.2.isLt }

/-- `AddTransaction`. -/
def addTransaction (d : Interface cfg) : Interface cfg := addLoop d.dramIdx d.tQueue d

variable (M : AddressMap)

/-- `ReadCompleteCallback`. -/
def readCompleteCallback (d : Interface cfg) (address : Nat) : Interface cfg :=
  if address < M.weightStart then
    { d with
      fReadComplete := true
      fAddress := d.fAddress ++ [address] }
  else
    { d with
      wReadComplete := true
      wAddress := d.wAddress ++ [address] }

/-- `WriteCompleteCallback`. -/
def writeCompleteCallback (d : Interface cfg) (address : Nat) : Interface cfg :=
  if M.axwStart ≤ address then { d with totAxwCount := u64Sub d.totAxwCount 1 }
  else { d with totXwCount := u64Sub d.totXwCount 1 }

/-- The callback of a memory for a transaction. -/
def callback (d : Interface cfg) (t : Transaction) : Interface cfg :=
  if t.isWrite then d.writeCompleteCallback M t.addr else d.readCompleteCallback M t.addr

/-- The loop of `UpdateCycle`: what the callbacks get, in order, and the memories. -/
def tickDrams (timing : Timing) :
    List (JedecDramSystem cfg) → Except Abort (List Transaction × List (JedecDramSystem cfg))
  | [] => .ok ([], [])
  | m :: ms =>
    match m.clockTick timing with
    | .error e => .error e
    | .ok (done, m) =>
      match tickDrams timing ms with
      | .error e => .error e
      | .ok (dones, ms) => .ok (done ++ dones, m :: ms)

theorem length_tickDrams {timing : Timing} {ms ms' : List (JedecDramSystem cfg)}
    {done : List Transaction} (h : tickDrams timing ms = .ok (done, ms')) :
    ms'.length = ms.length := by
  induction ms generalizing done ms' with
  | nil =>
    cases h
    rfl
  | cons m ms ih =>
    rw [tickDrams] at h
    split at h
    · cases h
    · split at h
      · cases h
      · rename_i hms
        cases h
        rw [List.length_cons, List.length_cons, ih hms]

/-- `UpdateCycle`. The callbacks of a memory come before the next one ticks; they do not touch
the memories. -/
def updateCycle (timing : Timing) (d : Interface cfg) : Except Abort (Interface cfg) :=
  match h : tickDrams timing d.drams with
  | .error e => .error e
  | .ok (done, drams) => .ok (done.foldl (callback M) { d with
      drams := drams
      dramIdx_lt := by
        rw [length_tickDrams h]
        exact d.dramIdx_lt })

/-- `GetReadData`. -/
def getReadData (d : Interface cfg) (isW : Bool) : Option Nat × Interface cfg :=
  if isW then
    (d.wAddress.head?, { d with
      wAddress := d.wAddress.tail
      wReadComplete := d.wReadComplete && !d.wAddress.tail.isEmpty })
  else
    (d.fAddress.head?, { d with
      fAddress := d.fAddress.tail
      fReadComplete := d.fReadComplete && !d.fAddress.tail.isEmpty })

/-- `WriteExist`: only the first memory is asked. -/
def writeExist (d : Interface cfg) : Bool :=
  (d.drams.get ⟨0, Nat.zero_lt_of_lt d.dramIdx_lt⟩).isQueueFill

end Interface

/-- What the rest of the simulator does with the interface. `AddTransaction` is called right
before `UpdateCycle` everywhere. -/
inductive InterfaceCall where
  | request (address : Nat) (isWrite : Bool)
  | cycle
  | getReadData (isW : Bool)
  deriving DecidableEq, Repr

/-- What the rest of the simulator sees: the address of a reply and the two flags, and after a
cycle also the write counters and whether a write is left. -/
inductive Observation where
  | requested
  | cycled (fReadComplete wReadComplete : Bool) (totAxwCount totXwCount : Nat) (writeExist : Bool)
  | reply (address : Option Nat) (fReadComplete wReadComplete : Bool)
  deriving DecidableEq, Repr

namespace Interface

variable {cfg : Config} (M : AddressMap) (timing : Timing)

/-- One call of the interface. -/
def step (d : Interface cfg) : InterfaceCall → Except Abort (Observation × Interface cfg)
  | .request address isWrite => .ok (.requested, d.request address isWrite)
  | .cycle =>
    match d.addTransaction.updateCycle M timing with
    | .error e => .error e
    | .ok d => .ok (.cycled d.fReadComplete d.wReadComplete d.totAxwCount d.totXwCount d.writeExist,
        d)
  | .getReadData isW =>
    let r := d.getReadData isW
    .ok (.reply r.1 r.2.fReadComplete r.2.wReadComplete, r.2)

end Interface

end GcnSim.Dramsim
