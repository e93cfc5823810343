import GcnSim.Core.Simulator
import GcnSim.Core.DramInterface

/-!
# The A*XW loop with several memories

The loop of one unit for any `MAX_DRAM`. An iteration polls the interface once for every
memory. The replies of the data controller are collected first; the row lines go to the
vertex reader before its request turn, the column lines to the edge reader after it.
-/

namespace GcnSim

/-- What the environment decides in one iteration: which transactions the memories accept,
what they do in the cycle, and what undefined reads return. -/
structure ParallelEnv where
  accepts : Accepts
  ticks : Nat → List MemoryEvent
  junk : Junk

/-- The state of the simulator. -/
structure ParallelState where
  vr : VertexReader
  er : EdgeReader
  dc : DataController
  dram : DramInterface
  /-- The loop was left. -/
  ended : Bool

namespace ParallelState

variable (P : Params)

/-- The state after the constructors and `vr[0]->RequestF()`. -/
def init (maxDram : Nat) (hmax : 0 < maxDram) : ParallelState :=
  let r := (VertexReader.init P).requestF
  { vr := r.1
    er := .init P
    dc := ⟨⟨P.row, P.vertexReqCount, 0⟩, ⟨P.col, P.edgeReqCount, 0⟩, [], 0, []⟩
    dram := (DramInterface.init maxDram P.totAxwCount (P.aH * P.wFold) hmax).request r.2
    ended := false }

/-- One poll: row and column lines before features. -/
def poll (s : ParallelState) : Option Address × ParallelState :=
  if s.dram.fReadComplete then
    let r := s.dram.getReadData false
    (r.1, { s with dram := r.2 })
  else if s.dram.wReadComplete then
    (none, { s with
      dram := (s.dram.getReadData true).2
      vr := { s.vr with fFlag := true } })
  else (none, s)

/-- `n` polls, with the row and column lines they return. -/
def polls : Nat → ParallelState → List Address × ParallelState
  | 0, s => ([], s)
  | n + 1, s =>
    let r := s.poll
    let rest := polls n r.2
    (r.1.toList ++ rest.1, rest.2)

/-- The DRAM turn: a poll for every memory. -/
def dramTurn (s : ParallelState) : List Address × ParallelState :=
  s.polls s.dram.drams.length

/-- Polls change only the interface and `f_flag`. -/
theorem polls_frame (n : Nat) (s : ParallelState) : ∃ dram fFlag, (s.polls n).2 =
    { s with
      dram := dram
      vr := { s.vr with fFlag := fFlag } } := by
  induction n generalizing s with
  | zero => exact ⟨s.dram, s.vr.fFlag, rfl⟩
  | succ n ih =>
    obtain ⟨dram, fFlag, heq⟩ := ih s.poll.2
    refine ⟨dram, fFlag, heq.trans ?_⟩
    rw [poll]
    split
    · rfl
    · split <;> rfl

/-- The replies of the data controller to the lines that were polled. -/
def dataReturns (junk : Junk) :
    List Address → DataController → List (Region × List Nat) × DataController
  | [], dc => ([], dc)
  | ⟨.aRow, _⟩ :: as, dc =>
    let r := dc.adjRowDataReturn P.cacheLineCount junk
    let rest := dataReturns junk as r.2
    ((.aRow, r.1) :: rest.1, rest.2)
  | ⟨.aCol, _⟩ :: as, dc =>
    let r := dc.adjColDataReturn P.cacheLineCount junk
    let rest := dataReturns junk as r.2
    ((.aCol, r.1) :: rest.1, rest.2)
  | _ :: as, dc => dataReturns junk as dc

/-- The DataController turn. -/
def controllerTurn (junk : Junk) (as : List Address) (s : ParallelState) :
    List (Region × List Nat) × ParallelState :=
  let r := dataReturns P junk as s.dc
  (r.1, { s with dc := r.2 })

/-- The replies with lines of a region. -/
def linesOf (region : Region) (replies : List (Region × List Nat)) : List (List Nat) :=
  (replies.filter (·.1 = region)).map (·.2)

/-- The VertexReader turn. -/
def vertexTurn (replies : List (Region × List Nat)) (s : ParallelState) : ParallelState :=
  let r := ((linesOf .aRow replies).foldl VertexReader.receiveData s.vr).requestTurn P
  { s with
    vr := r.1
    dram := s.dram.request r.2 }

/-- The edge reader gets the column lines. -/
def columnTurn (replies : List (Region × List Nat)) (s : ParallelState) : ParallelState :=
  { s with er := (linesOf .aCol replies).foldl EdgeReader.receiveData s.er }

/-- `CanVertexReceive() && !q_empty && f_flag`: a row may be handed over. -/
def canHandOver (s : ParallelState) : Bool := s.er.canReceive && !s.vr.port.qEmpty && s.vr.fFlag

/-- The hand-over of a row from the vertex reader to the edge reader. -/
def handOver (junk : Junk) (s : ParallelState) : ParallelState :=
  if s.canHandOver then
    let r := s.vr.transferData P junk
    { s with
      vr := r.2.1
      er := s.er.receiveVertex P r.1
      dram := s.dram.request r.2.2 }
  else s

/-- The rest of the edge reader's turn: `Request`, `OuterProduct`, `Write`. -/
def edgeTurn (junk : Junk) (s : ParallelState) : ParallelState :=
  let r := s.er.requestTurn P
  let w := (r.1.outerProduct P junk).write P
  { s with
    er := w.1
    dram := (s.dram.request r.2).request w.2 }

/-- `AddTransaction`. -/
def addTurn (accepts : Accepts) (s : ParallelState) : ParallelState :=
  { s with dram := s.dram.addTransaction accepts }

/-- `UpdateCycle` and the exit test. -/
def cycleEnd (ticks : Nat → List MemoryEvent) (s : ParallelState) : ParallelState :=
  let d := s.dram.updateCycle ticks
  { s with
    dram := d
    ended := d.totAxwCount = 0 ∧ d.writeExist = false }

/-- The state in which the iteration decides whether a row is handed over. -/
def beforeHandOver (junk : Junk) (s : ParallelState) : ParallelState :=
  let polled := s.dramTurn
  let replied := polled.2.controllerTurn P junk polled.1
  (replied.2.vertexTurn P replied.1).columnTurn replied.1

/-- The state in front of `AddTransaction`. -/
def beforeAdd (junk : Junk) (s : ParallelState) : ParallelState :=
  ((s.beforeHandOver P junk).handOver P junk).edgeTurn P junk

/-- One iteration of the main loop; a loop that was left does nothing more. -/
def step (s : ParallelState) (env : ParallelEnv) : ParallelState :=
  if s.ended then s
  else ((s.beforeAdd P env.junk).addTurn env.accepts).cycleEnd env.ticks

/-- The state after a list of iterations. -/
def run (maxDram : Nat) (hmax : 0 < maxDram) (envs : List ParallelEnv) : ParallelState :=
  Transition.run (step P) (init P maxDram hmax) envs

end ParallelState

end GcnSim
