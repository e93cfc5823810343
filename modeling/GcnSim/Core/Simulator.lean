import GcnSim.Core.EdgeReader
import GcnSim.Core.DataController
import GcnSim.Lib.Run

/-!
# The A*XW loop

One unit and one memory (`tot_acc = 1`, `MAX_DRAM = 1`, `DIVISION_TYPE` and
`MECHA_TYPE` zero). An iteration of the main loop is a function of the state and
of what the memory does at the end of the iteration. The turns that the source
has commented out are not part of the loop.
-/

namespace GcnSim

/-- What the environment decides in one iteration: how many waiting transactions the
memory accepts, which accepted ones it completes, whether its write buffer is filled,
and what undefined reads return. -/
structure Env where
  accepted : Nat
  completed : List Nat
  writeExist : Bool
  junk : Junk

/-- The state of the simulator at the end of an iteration. -/
structure State where
  vr : VertexReader
  er : EdgeReader
  dc : DataController
  dram : Dram
  /-- The loop was left. -/
  ended : Bool
  deriving DecidableEq, Repr

namespace State

variable (P : Params)

/-- The state after the constructors and `vr[0]->RequestF()`. -/
def init : State :=
  let r := (VertexReader.init P).requestF
  { vr := r.1
    er := .init P
    dc := ⟨⟨P.row, P.vertexReqCount, 0⟩, ⟨P.col, P.edgeReqCount, 0⟩, [], 0, []⟩
    dram := Dram.request ⟨[], [], false, false, [], [], P.totAxwCount, P.aH * P.wFold⟩ r.2
    ended := false }

/-- The DRAM turn: one completed read is polled, row and column lines before features. -/
def dramTurn (s : State) : Option Address × State :=
  if s.dram.fReadComplete then
    let r := s.dram.getReadData false
    (r.1, { s with dram := r.2 })
  else if s.dram.wReadComplete then
    let r := s.dram.getReadData true
    (none, { s with dram := r.2, vr := { s.vr with fFlag := true } })
  else (none, s)

/-- The DataController and VertexReader turns of an iteration, and the edge reader's
`ReceiveData` of a column line. -/
def replyTurn (junk : Junk) (a : Option Address) (s : State) : State :=
  match a with
  | some ⟨.aRow, _⟩ =>
    let r := s.dc.adjRowDataReturn P.cacheLineCount junk
    { s with dc := r.2, vr := s.vr.receiveData r.1 }
  | some ⟨.aCol, _⟩ =>
    let r := s.dc.adjColDataReturn P.cacheLineCount junk
    { s with dc := r.2, er := s.er.receiveData r.1 }
  | _ => s

/-- The vertex reader's request turn. -/
def vertexTurn (s : State) : State :=
  let r := s.vr.requestTurn P
  { s with vr := r.1, dram := s.dram.request r.2 }

/-- `CanVertexReceive() && !q_empty && f_flag`: a row may be handed over. -/
def canHandOver (s : State) : Bool := s.er.canReceive && !s.vr.port.qEmpty && s.vr.fFlag

/-- The hand-over of a row from the vertex reader to the edge reader. -/
def handOver (junk : Junk) (s : State) : State :=
  if s.canHandOver then
    let r := s.vr.transferData P junk
    { s with vr := r.2.1, er := s.er.receiveVertex P r.1, dram := s.dram.request r.2.2 }
  else s

/-- The rest of the edge reader's turn: `Request`, `OuterProduct`, `Write`. -/
def edgeTurn (junk : Junk) (s : State) : State :=
  let r := s.er.requestTurn P
  let w := (r.1.outerProduct P junk).write P
  { s with er := w.1, dram := (s.dram.request r.2).request w.2 }

/-- `AddTransaction`, `UpdateCycle` and the exit test. -/
def cycleEnd (env : Env) (s : State) : State :=
  let d := (s.dram.addTransaction env.accepted).updateCycle env.completed
  { s with dram := d, ended := d.totAxwCount = 0 ∧ env.writeExist = false }

/-- The state in which the iteration decides whether a row is handed over. -/
def beforeHandOver (junk : Junk) (s : State) : State :=
  let r := s.dramTurn
  (r.2.replyTurn P junk r.1).vertexTurn P

/-- One iteration of the main loop; a loop that was left does nothing more. -/
def step (s : State) (env : Env) : State :=
  if s.ended then s
  else (((s.beforeHandOver P env.junk).handOver P env.junk).edgeTurn P env.junk).cycleEnd env

/-- The state after a list of iterations. -/
def run (envs : List Env) : State := Transition.run (step P) (init P) envs

/-- The undefined accesses made so far. -/
def faults (s : State) : List Access := s.vr.faults ++ s.er.faults ++ s.dc.faults

end State

end GcnSim
