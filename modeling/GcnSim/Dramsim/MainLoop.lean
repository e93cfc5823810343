import GcnSim.Dramsim.Refinement
import GcnSim.Loop.Exit
import GcnSim.Loop.LinesInFlight

/-!
# The A*XW loop over the memories

The loop of one unit with the `DRAMsim3` controllers as its memories, and with machine addresses
between the readers and the memories. The process ends where a memory ends it, or where `ReturnID`
takes a polled address for one of another unit. As long as it does not, a run is one of the loop
whose memories decide freely, so what holds of all runs of that loop holds of this one.
-/

namespace GcnSim

section Lines

/-- A request turn asks for the next line at most. -/
theorem ReaderPort.turn_lines (clc : Nat) (r : Region) (exhausted : Bool) (p : ReaderPort) :
    (p.turn clc r exhausted).1.reqLine ≤ p.reqLine + 1 ∧
      ∀ t ∈ (p.turn clc r exhausted).2, t.address.line = p.reqLine := by
  have hrequest : ∀ p : ReaderPort,
      (if p.reqNeed then p.request clc r else (p, [])).1.reqLine ≤ p.reqLine + 1 ∧
        ∀ t ∈ (if p.reqNeed then p.request clc r else (p, [])).2, t.address.line = p.reqLine := by
    intro p
    split
    · refine ⟨?_, fun t ht => ?_⟩
      · rw [ReaderPort.request]
        split <;> exact Nat.le_refl _
      · rw [List.mem_singleton.mp ht]
        rfl
    · exact ⟨Nat.le_succ _, fun t ht => (List.not_mem_nil ht).elim⟩
  rw [ReaderPort.turn]
  by_cases hend : p.isEndOperation exhausted = true
  · rw [if_pos hend]
    exact hrequest p.turnOffFlag
  · rw [if_neg hend]
    exact hrequest p

@[simp] theorem ReaderPort.reopen_reqLine (clc : Nat) (p : ReaderPort) :
    (p.reopen clc).reqLine = p.reqLine := by
  unfold ReaderPort.reopen
  split <;> rfl

namespace VertexReader

variable {P : Params} {junk : Junk}

theorem foldl_receiveData_lines (lines : List (List Nat)) (vr : VertexReader) :
    (lines.foldl receiveData vr).port.reqLine = vr.port.reqLine ∧
      (lines.foldl receiveData vr).reqFLine = vr.reqFLine := by
  induction lines generalizing vr with
  | nil => exact ⟨rfl, rfl⟩
  | cons line lines ih => exact ih (vr.receiveData line)

theorem countPop_lineNumbers (vr : VertexReader) :
    (countPop P vr).1.port = vr.port ∧ (countPop P vr).1.reqFLine ≤ vr.reqFLine + 1 ∧
      ∀ t ∈ (countPop P vr).2, t.address.line = vr.reqFLine := by
  by_cases h : vr.popCount + 1 = P.cacheLineCount - 1 ∨ vr.preRow = P.aH - 1
  · simp only [countPop, if_pos h, requestF]
    exact ⟨trivial, Nat.le_refl _, fun t ht => by rw [List.mem_singleton.mp ht]; rfl⟩
  · simp only [countPop, if_neg h]
    exact ⟨trivial, Nat.le_succ _, fun t ht => (List.not_mem_nil ht).elim⟩

/-- A hand-over asks for the next feature line at most. -/
theorem transferData_lineNumbers (vr : VertexReader) :
    (vr.transferData P junk).2.1.port.reqLine = vr.port.reqLine ∧
      (vr.transferData P junk).2.1.reqFLine ≤ vr.reqFLine + 1 ∧
      ∀ t ∈ (vr.transferData P junk).2.2, t.address.line = vr.reqFLine := by
  have hpop : ∀ vr' : VertexReader, vr'.port.reqLine = vr.port.reqLine →
      vr'.reqFLine = vr.reqFLine →
      (countPop P vr').1.port.reqLine = vr.port.reqLine ∧
        (countPop P vr').1.reqFLine ≤ vr.reqFLine + 1 ∧
        ∀ t ∈ (countPop P vr').2, t.address.line = vr.reqFLine := by
    intro vr' hport hfeature
    obtain ⟨hsame, hle, hlines⟩ := @countPop_lineNumbers P vr'
    rw [hsame, ← hfeature]
    exact ⟨hport, hle, hlines⟩
  unfold transferData
  split
  · dsimp only
    split <;> (dsimp only; rw [ReaderPort.reopen_reqLine]; exact hpop _ rfl rfl)
  · split
    · dsimp only
      split
      · split <;> exact hpop _ rfl rfl
      · exact hpop _ rfl rfl
    · exact ⟨rfl, Nat.le_succ _, fun t ht => (List.not_mem_nil ht).elim⟩

end VertexReader

namespace EdgeReader

variable {P : Params} {junk : Junk}

theorem foldl_receiveData_reqLine (lines : List (List Nat)) (er : EdgeReader) :
    (lines.foldl receiveData er).port.reqLine = er.port.reqLine := by
  induction lines generalizing er with
  | nil => rfl
  | cons line lines ih => exact ih (er.receiveData line)

theorem receiveVertex_reqLine (vertex : Nat) (er : EdgeReader) :
    (er.receiveVertex P vertex).port.reqLine = er.port.reqLine := by
  unfold receiveVertex
  split
  · generalize (if vertex < er.curV then er.lastV else er.curV) = prevV
    dsimp only
    split
    · split <;> rfl
    · rfl
  · rfl

theorem nextBlock_reqLine (er : EdgeReader) :
    (er.nextBlock P junk).port.reqLine = er.port.reqLine := by
  unfold nextBlock setDoWrite
  dsimp only
  split <;> rfl

theorem outerProduct_reqLine (er : EdgeReader) :
    (er.outerProduct P junk).port.reqLine = er.port.reqLine := by
  have hreopen : (er.port.release.reopen P.cacheLineCount).reqLine = er.port.reqLine :=
    ReaderPort.reopen_reqLine _ _
  unfold outerProduct
  split
  · dsimp only
    split
    · split <;> exact hreopen
    · exact hreopen
  · split
    · dsimp only
      split
      · split <;> rfl
      · split
        · split
          · exact nextBlock_reqLine _
          · rfl
        · rfl
    · rfl

theorem write_reqLine (er : EdgeReader) : (er.write P).1.port.reqLine = er.port.reqLine := by
  rw [write]
  split
  · dsimp only
    split <;> rfl
  · rfl

end EdgeReader

end Lines

end GcnSim

namespace GcnSim.Dramsim

/-- The readers of the unit and their controller. -/
structure Readers where
  vr : VertexReader
  er : EdgeReader
  dc : DataController

namespace Readers

variable (P : Params)

/-- The constructors and `vr[0]->RequestF()`. -/
def init : Readers × List GcnSim.Transaction :=
  let r := (VertexReader.init P).requestF
  ({ vr := r.1
     er := .init P
     dc := ⟨⟨P.row, P.vertexReqCount, 0⟩, ⟨P.col, P.edgeReqCount, 0⟩, [], 0, []⟩ }, r.2)

/-- The DataController turn for the addresses that were polled. -/
def dataReturns (junk : Junk) : List Nat → DataController →
    List (Region × List Nat) × DataController
  | [], dc => ([], dc)
  | address :: as, dc =>
    match AddressMap.shipped.returnDataType address with
    | some .aRow =>
      let r := dc.adjRowDataReturn P.cacheLineCount junk
      let rest := dataReturns junk as r.2
      ((.aRow, r.1) :: rest.1, rest.2)
    | some .aCol =>
      let r := dc.adjColDataReturn P.cacheLineCount junk
      let rest := dataReturns junk as r.2
      ((.aCol, r.1) :: rest.1, rest.2)
    | _ => dataReturns junk as dc

/-- The hand-over of a row from the vertex reader to the edge reader, with its requests. -/
def handOver (junk : Junk) (vr : VertexReader) (er : EdgeReader) :
    VertexReader × EdgeReader × List GcnSim.Transaction :=
  if er.canReceive && !vr.port.qEmpty && vr.fFlag then
    let r := vr.transferData P junk
    (r.2.1, er.receiveVertex P r.1, r.2.2)
  else (vr, er, [])

/-- The turns between the polls and `AddTransaction`, with the requests in their order. -/
def turn (junk : Junk) (addresses : List Nat) (r : Readers) :
    Readers × List GcnSim.Transaction :=
  let replies := dataReturns P junk addresses r.dc
  let vr := (ParallelState.linesOf .aRow replies.1).foldl VertexReader.receiveData r.vr
  let er := (ParallelState.linesOf .aCol replies.1).foldl EdgeReader.receiveData r.er
  let v := vr.requestTurn P
  let t := handOver P junk v.1 er
  let q := t.2.1.requestTurn P
  let w := (q.1.outerProduct P junk).write P
  ({ vr := t.1, er := w.1, dc := replies.2 }, v.2 ++ t.2.2 ++ q.2 ++ w.2)

section Turn

variable {P : Params} {junk : Junk}

/-- The next lines of the readers after `k` iterations. -/
structure Within (k : Nat) (r : Readers) : Prop where
  row : r.vr.port.reqLine ≤ k
  feature : r.vr.reqFLine ≤ k + 1
  col : r.er.port.reqLine ≤ k

theorem Within.mono {k k' : Nat} {r : Readers} (h : r.Within k) (hk : k ≤ k') : r.Within k' :=
  ⟨h.row.trans hk, h.feature.trans (Nat.add_le_add_right hk 1), h.col.trans hk⟩

theorem within_init : (init P).1.Within 0 := ⟨Nat.le_refl _, Nat.le_refl _, Nat.le_refl _⟩

theorem handOver_lines (vr : VertexReader) (er : EdgeReader) :
    (handOver P junk vr er).1.port.reqLine = vr.port.reqLine ∧
      (handOver P junk vr er).1.reqFLine ≤ vr.reqFLine + 1 ∧
      (handOver P junk vr er).2.1.port.reqLine = er.port.reqLine ∧
      ∀ t ∈ (handOver P junk vr er).2.2, t.address.line = vr.reqFLine := by
  rw [handOver]
  split
  · obtain ⟨hport, hnext, hlines⟩ := @VertexReader.transferData_lineNumbers P junk vr
    exact ⟨hport, hnext, EdgeReader.receiveVertex_reqLine _ er, hlines⟩
  · exact ⟨rfl, Nat.le_succ _, rfl, fun t ht => (List.not_mem_nil ht).elim⟩

/-- An iteration asks for the next line of each kind at most. -/
theorem Within.turn {k : Nat} {r : Readers} (h : r.Within k) (addresses : List Nat) :
    (r.turn P junk addresses).1.Within (k + 1) ∧
      ∀ t ∈ (r.turn P junk addresses).2, t.address.line ≤ k + 1 := by
  unfold Readers.turn
  dsimp only
  generalize dataReturns P junk addresses r.dc = replies
  obtain ⟨hrow, hfeature⟩ := VertexReader.foldl_receiveData_lines
    (ParallelState.linesOf .aRow replies.1) r.vr
  have hcol := EdgeReader.foldl_receiveData_reqLine (ParallelState.linesOf .aCol replies.1) r.er
  generalize (ParallelState.linesOf .aRow replies.1).foldl VertexReader.receiveData r.vr = vr at *
  generalize (ParallelState.linesOf .aCol replies.1).foldl EdgeReader.receiveData r.er = er at *
  have hrow' : vr.port.reqLine ≤ k := hrow ▸ h.row
  have hfeature' : vr.reqFLine ≤ k + 1 := hfeature ▸ h.feature
  have hcol' : er.port.reqLine ≤ k := hcol ▸ h.col
  obtain ⟨hvertex, hvertexLines⟩ := ReaderPort.turn_lines P.cacheLineCount .aRow
    vr.vertexReqCount.isEmpty vr.port
  obtain ⟨hport, hnext, hsame, hlines⟩ := @handOver_lines P junk (vr.requestTurn P).1 er
  generalize handOver P junk (vr.requestTurn P).1 er = t at *
  obtain ⟨hedge, hedgeLines⟩ := ReaderPort.turn_lines P.cacheLineCount .aCol
    t.2.1.edgeReqCount.isEmpty t.2.1.port
  refine ⟨⟨?_, ?_, ?_⟩, fun x hx => ?_⟩
  · dsimp only
    rw [hport]
    exact hvertex.trans (Nat.add_le_add_right hrow' 1)
  · exact hnext.trans (Nat.add_le_add_right hfeature' 1)
  · dsimp only
    rw [EdgeReader.write_reqLine, EdgeReader.outerProduct_reqLine]
    exact hedge.trans (Nat.add_le_add_right (hsame ▸ hcol') 1)
  · simp only [List.mem_append] at hx
    rcases hx with ((hx | hx) | hx) | hx
    · rw [hvertexLines x hx]
      exact hrow'.trans (Nat.le_succ k)
    · rw [hlines x hx]
      exact hfeature'
    · rw [hedgeLines x hx, hsame]
      exact hcol'.trans (Nat.le_succ k)
    · rw [EdgeReader.mem_write_requests hx]
      exact Nat.zero_le _

end Turn

end Readers

/-- `DRAMRequest` for the requests of the readers, at their machine addresses. -/
def Interface.requests {cfg : Config} (cacheLineByte : Nat) (ts : List GcnSim.Transaction)
    (d : Interface cfg) : Interface cfg :=
  ts.foldl (fun d t => d.request (AddressMap.lineAddress cacheLineByte t.address) t.isWrite) d

/-- The state of the simulator. -/
structure Machine (cfg : Config) where
  readers : Readers
  dram : Interface cfg
  /-- The loop was left. -/
  ended : Bool

namespace Machine

variable {cfg : Config} (P : Params) (cacheLineByte : Nat) (timing : Timing)

/-- The state in front of the loop. -/
def init (maxDram channels : Nat) (hmax : 0 < maxDram) (hchannels : cfg.mapping.chMask < channels) :
    Machine cfg where
  readers := (Readers.init P).1
  dram := (Interface.init maxDram channels P.totAxwCount (P.aH * P.wFold) hmax hchannels).requests
    cacheLineByte (Readers.init P).2
  ended := false

/-- One poll of the interface. -/
def poll (s : Machine cfg) : Option Nat × Machine cfg :=
  if s.dram.fReadComplete then
    let r := s.dram.getReadData false
    (r.1, { s with dram := r.2 })
  else if s.dram.wReadComplete then
    (none, { s with
      dram := (s.dram.getReadData true).2
      readers := { s.readers with vr := { s.readers.vr with fFlag := true } } })
  else (none, s)

/-- `n` polls, with the addresses they return. -/
def polls : Nat → Machine cfg → List Nat × Machine cfg
  | 0, s => ([], s)
  | n + 1, s =>
    let r := s.poll
    let rest := polls n r.2
    (r.1.toList ++ rest.1, rest.2)

/-- One iteration of the main loop; a loop that was left does nothing more. -/
def step (s : Machine cfg) (junk : Junk) : Except Abort (Machine cfg) :=
  if s.ended then .ok s
  else
    let polled := s.polls s.dram.drams.length
    -- there is `dc[0]` only
    if polled.1.any fun address => AddressMap.returnID address != 0 then .error .noUnit
    else
      let t := polled.2.readers.turn P junk polled.1
      let dram := (polled.2.dram.requests cacheLineByte t.2).addTransaction
      match dram.updateCycle .shipped timing with
      | .error e => .error e
      | .ok d => .ok {
          readers := t.1
          dram := d
          ended := d.totAxwCount = 0 ∧ d.writeExist = false }

/-- The state after an iteration for each choice of what undefined reads return. -/
def run (maxDram channels : Nat) (hmax : 0 < maxDram) (hchannels : cfg.mapping.chMask < channels)
    (junks : List Junk) : Except Abort (Machine cfg) :=
  Transition.runM (step P cacheLineByte timing)
    (init P cacheLineByte maxDram channels hmax hchannels) junks

end Machine

section Decode

variable {P : Params} {cacheLineByte : Nat}

/-- The line lies in the place that the first unit has in its region. -/
def InPlace (cacheLineByte : Nat) (a : GcnSim.Address) : Prop :=
  a.line * cacheLineByte < 0x0010000000000000

instance : DecidablePred (InPlace cacheLineByte) :=
  fun a => inferInstanceAs (Decidable (a.line * cacheLineByte < 0x0010000000000000))

/-- The line lies behind the place. -/
def outside (cacheLineByte : Nat) (a : GcnSim.Address) : Bool :=
  !decide (InPlace cacheLineByte a)

@[simp] theorem outside_eq_false {a : GcnSim.Address} :
    outside cacheLineByte a = false ↔ InPlace cacheLineByte a := by
  rw [outside, Bool.not_eq_false', decide_eq_true_iff]

theorem InPlace.inRegion {a : GcnSim.Address} (h : InPlace cacheLineByte a) :
    a.line * cacheLineByte < 0x1000000000000000 :=
  Nat.lt_of_lt_of_le h (by decide)

theorem InPlace.fits {a : GcnSim.Address} (h : InPlace cacheLineByte a) :
    Fits (AddressMap.encode cacheLineByte) .shipped a := fits_shipped h.inRegion

/-- All polled addresses are of the first unit. -/
theorem any_returnID_encode {as : List GcnSim.Address} (h : ∀ a ∈ as, InPlace cacheLineByte a) :
    ((as.map (AddressMap.encode cacheLineByte)).any fun address =>
      AddressMap.returnID address != 0) = false := by
  rw [List.any_eq_false]
  intro address haddress
  obtain ⟨a, ha, rfl⟩ := List.mem_map.mp haddress
  rw [AddressMap.returnID_encode (h a ha)]
  decide

/-- The controller takes the polled addresses for the lines that were requested. -/
theorem dataReturns_encode (junk : Junk) {as : List GcnSim.Address}
    (h : ∀ a ∈ as, InPlace cacheLineByte a) (dc : DataController) :
    Readers.dataReturns P junk (as.map (AddressMap.encode cacheLineByte)) dc =
      ParallelState.dataReturns P junk as dc := by
  induction as generalizing dc with
  | nil => rfl
  | cons a as ih =>
    rw [List.forall_mem_cons] at h
    have htype := (AddressMap.encode_spec h.1.inRegion).2.2
    obtain ⟨region, line⟩ := a
    cases region <;>
      simp only [List.map_cons, Readers.dataReturns, ParallelState.dataReturns, htype,
        AddressMap.regionType, ih h.2]

end Decode

section Strays

variable (q : GcnSim.Address → Bool) (d : DramInterface)

/-- The addresses with `q` of the transactions that wait or are inside a memory, and of the
replies. -/
def strays : Nat := d.out (fun t => q t.address) + d.fAddress.countP q

theorem strays_request {ts : List GcnSim.Transaction} (hts : ∀ t ∈ ts, q t.address = false) :
    strays q (d.request ts) = strays q d := by
  rw [strays, DramInterface.request_out_of_none _ _ hts]
  rfl

theorem strays_addTransaction (accepts : Accepts) :
    strays q (d.addTransaction accepts) = strays q d := by
  obtain ⟨tQueue, drams, dramIdx, hlt, heq⟩ :=
    DramInterface.addLoop_frame accepts d.dramIdx d.tQueue d
  have hf : (d.addTransaction accepts).fAddress = d.fAddress := by
    rw [DramInterface.addTransaction, heq]
  rw [strays, strays, DramInterface.addTransaction_out, hf]

/-- A transaction that leaves a memory is one reply at most. -/
theorem strays_event (i : Nat) (e : MemoryEvent) : strays q (d.event i e) ≤ strays q d := by
  rcases d.event_cases i e with ⟨drams, hlt, heq, hout⟩ | ⟨t, drams, hlt, heq, hout⟩
  · have hsame := hout fun t => q t.address
    have hf : (d.event i e).fAddress = d.fAddress := by rw [heq]
    rw [strays, strays, hsame, hf]
  · have hone := hout fun t => q t.address
    have hf : (d.event i e).fAddress.countP q ≤
        d.fAddress.countP q + if q t.address then 1 else 0 := by
      rw [heq, DramInterface.callback, DramInterface.writeCompleteCallback,
        DramInterface.readCompleteCallback]
      split
      · split <;> exact Nat.le_add_right _ _
      · split
        · rw [List.countP_append, List.countP_singleton]
        · exact Nat.le_add_right _ _
    rw [strays, strays]
    omega

theorem strays_updateCycle (ticks : Nat → List MemoryEvent) :
    strays q (d.updateCycle ticks) ≤ strays q d :=
  @DramInterface.updateCycle_invariant (fun d' => strays q d' ≤ strays q d)
    (fun d' i e h => (strays_event q d' i e).trans h) ticks d (Nat.le_refl _)

theorem strays_getReadData (isW : Bool) : strays q (d.getReadData isW).2 ≤ strays q d := by
  cases isW with
  | false => exact Nat.add_le_add_left (List.tail_sublist d.fAddress).countP_le _
  | true => exact Nat.le_refl _

end Strays

/-- The readers of the loop. -/
def readersOf (s : ParallelState) : Readers := ⟨s.vr, s.er, s.dc⟩

theorem request_request (d : DramInterface) (ts ts' : List GcnSim.Transaction) :
    (d.request ts).request ts' = d.request (ts ++ ts') := by
  simp only [DramInterface.request, List.append_assoc]

theorem handOver_eq {P : Params} {junk : Junk} (s : ParallelState) :
    s.handOver P junk = { s with
      vr := (Readers.handOver P junk s.vr s.er).1
      er := (Readers.handOver P junk s.vr s.er).2.1
      dram := s.dram.request (Readers.handOver P junk s.vr s.er).2.2 } := by
  have hnone : s.dram.request [] = s.dram := by rw [DramInterface.request, List.append_nil]
  have hreaders : Readers.handOver P junk s.vr s.er = if s.canHandOver then
      ((s.vr.transferData P junk).2.1, s.er.receiveVertex P (s.vr.transferData P junk).1,
        (s.vr.transferData P junk).2.2)
      else (s.vr, s.er, []) := rfl
  rw [ParallelState.handOver, hreaders]
  by_cases hcan : s.canHandOver = true
  · rw [if_pos hcan, if_pos hcan]
  · rw [if_neg hcan, if_neg hcan, hnone]

/-- Between the polls and `AddTransaction` the loop does what the readers do. -/
theorem beforeAdd_eq {P : Params} {junk : Junk} {addresses : List Nat} (s : ParallelState)
    (hreplies : Readers.dataReturns P junk addresses s.dramTurn.2.dc =
      ParallelState.dataReturns P junk s.dramTurn.1 s.dramTurn.2.dc) :
    readersOf (s.beforeAdd P junk) = ((readersOf s.dramTurn.2).turn P junk addresses).1 ∧
      (s.beforeAdd P junk).dram =
        s.dramTurn.2.dram.request ((readersOf s.dramTurn.2).turn P junk addresses).2 ∧
      (s.beforeAdd P junk).ended = s.dramTurn.2.ended := by
  unfold Readers.turn
  simp only [readersOf, hreplies, ParallelState.beforeAdd, handOver_eq, ParallelState.edgeTurn,
    ParallelState.beforeHandOver, ParallelState.columnTurn, ParallelState.vertexTurn,
    ParallelState.controllerTurn, request_request, and_self]

/-- The machine shows the loop the state it would have over the memories of the model. -/
structure Shows {cfg : Config} (cacheLineByte k : Nat) (S : Machine cfg) (s : ParallelState) :
    Prop where
  readers : S.readers = readersOf s
  ended : S.ended = s.ended
  dram : Refines (AddressMap.encode cacheLineByte) .shipped S.dram s.dram
  strays : strays (outside cacheLineByte) s.dram = 0
  within : S.readers.Within k

namespace Shows

variable {cfg : Config} {P : Params} {cacheLineByte k : Nat} {timing : Timing} {S : Machine cfg}
  {s : ParallelState}

/-- A reply lies in its place. -/
theorem inPlace (h : Shows cacheLineByte k S s) :
    ∀ a ∈ s.dram.fAddress, InPlace cacheLineByte a := by
  have hnone := (Nat.add_eq_zero_iff.mp h.strays).2
  intro a ha
  exact outside_eq_false.mp (Bool.eq_false_of_not_eq_true (List.countP_eq_zero.mp hnone a ha))

theorem strays_le (h : Shows cacheLineByte k S s) {d : DramInterface}
    (hle : Dramsim.strays (outside cacheLineByte) d ≤
      Dramsim.strays (outside cacheLineByte) s.dram) :
    Dramsim.strays (outside cacheLineByte) d = 0 :=
  Nat.le_zero.mp (hle.trans h.strays.le)

/-- A poll returns the address of the line that the loop gets. -/
theorem poll (h : Shows cacheLineByte k S s) :
    S.poll.1 = s.poll.1.map (AddressMap.encode cacheLineByte) ∧
      (∀ a ∈ s.poll.1, InPlace cacheLineByte a) ∧ Shows cacheLineByte k S.poll.2 s.poll.2 := by
  obtain ⟨hreply, hread⟩ := h.dram.getReadData false
  obtain ⟨-, hread'⟩ := h.dram.getReadData true
  rw [Machine.poll, ParallelState.poll, h.dram.replies.fReadComplete, h.dram.replies.wReadComplete]
  split
  · refine ⟨hreply, fun a ha => ?_, ⟨h.readers, h.ended, hread, ?_, h.within⟩⟩
    · exact h.inPlace a (List.mem_of_head? ha)
    · exact h.strays_le (strays_getReadData _ _ _)
  · split
    · refine ⟨rfl, fun a ha => ?_, ⟨?_, h.ended, hread', ?_, ?_⟩⟩
      · cases ha
      · rw [h.readers]
        rfl
      · exact h.strays_le (strays_getReadData _ _ _)
      · exact ⟨h.within.row, h.within.feature, h.within.col⟩
    · exact ⟨rfl, fun a ha => (Option.not_mem_none a ha).elim, h⟩

theorem polls (h : Shows cacheLineByte k S s) (n : Nat) :
    (S.polls n).1 = (s.polls n).1.map (AddressMap.encode cacheLineByte) ∧
      (∀ a ∈ (s.polls n).1, InPlace cacheLineByte a) ∧
      Shows cacheLineByte k (S.polls n).2 (s.polls n).2 := by
  induction n generalizing S s with
  | zero => exact ⟨rfl, fun a ha => (List.not_mem_nil ha).elim, h⟩
  | succ n ih =>
    obtain ⟨haddress, hin, hpoll⟩ := h.poll
    obtain ⟨haddresses, hins, hpolls⟩ := ih hpoll
    refine ⟨?_, fun a ha => ?_, hpolls⟩
    · rw [Machine.polls, ParallelState.polls]
      dsimp only
      rw [haddress, haddresses, List.map_append]
      cases s.poll.1 <;> rfl
    · rcases List.mem_append.mp ha with ha | ha
      · exact hin a (Option.mem_toList.mp ha)
      · exact hins a ha

theorem requests_refines {D : Interface cfg} {d : DramInterface}
    (h : Refines (AddressMap.encode cacheLineByte) .shipped D d) {ts : List GcnSim.Transaction}
    (hts : ∀ t ∈ ts, InPlace cacheLineByte t.address) :
    Refines (AddressMap.encode cacheLineByte) .shipped (D.requests cacheLineByte ts)
      (d.request ts) := by
  induction ts generalizing D d with
  | nil =>
    rw [DramInterface.request, List.append_nil]
    exact h
  | cons t ts ih =>
    rw [List.forall_mem_cons] at hts
    have hrest := ih (h.request hts.1.fits) hts.2
    have happend : (d.request [t]).request ts = d.request (t :: ts) := by
      simp only [DramInterface.request, List.append_assoc, List.singleton_append]
    rw [← happend, Interface.requests, List.foldl_cons, AddressMap.lineAddress_eq_encode hts.1]
    exact hrest

/-- The polls of an iteration. -/
theorem dramTurn (h : Shows cacheLineByte k S s) :
    (S.polls S.dram.drams.length).1 = s.dramTurn.1.map (AddressMap.encode cacheLineByte) ∧
      (∀ a ∈ s.dramTurn.1, InPlace cacheLineByte a) ∧
      Shows cacheLineByte k (S.polls S.dram.drams.length).2 s.dramTurn.2 := by
  rw [← h.dram.drams.length_eq]
  exact h.polls _

/-- An iteration of the machine is one of the loop, for some decisions of the memories. -/
theorem step (h : Shows cacheLineByte k S s) (hsafe : cfg.Safe timing)
    (hlines : (k + 1) * cacheLineByte < 0x0010000000000000) (junk : Junk) :
    ∃ accepts ticks S', S.step P cacheLineByte timing junk = .ok S' ∧
      Shows cacheLineByte (k + 1) S' (s.step P ⟨accepts, ticks, junk⟩) := by
  rw [Machine.step, h.ended]
  by_cases hended : s.ended = true
  · refine ⟨fun _ _ _ => false, fun _ => [], S, if_pos hended, ?_⟩
    rw [ParallelState.step, if_pos hended]
    exact ⟨h.readers, h.ended, h.dram, h.strays, h.within.mono (Nat.le_succ k)⟩
  · rw [if_neg hended]
    obtain ⟨haddresses, hin, hpolled⟩ := h.dramTurn
    obtain ⟨hreaders, hdram, -⟩ := @beforeAdd_eq P junk _ s (dataReturns_encode junk hin _)
    obtain ⟨hwithin, hnext⟩ := @Readers.Within.turn P junk _ _ hpolled.within
      (s.dramTurn.1.map (AddressMap.encode cacheLineByte))
    dsimp only
    rw [hpolled.readers] at hwithin hnext ⊢
    rw [haddresses]
    generalize (readersOf s.dramTurn.2).turn P junk
      (s.dramTurn.1.map (AddressMap.encode cacheLineByte)) = t at *
    have hplaced : ∀ x ∈ t.2, InPlace cacheLineByte x.address := fun x hx =>
      Nat.lt_of_le_of_lt (Nat.mul_le_mul_right _ (hnext x hx)) hlines
    obtain ⟨ticks, D', hD', hcycle, hwrites⟩ :=
      (requests_refines hpolled.dram hplaced).addTransaction.updateCycle hsafe
    rw [← hdram] at hcycle hwrites
    generalize acceptsOf _ _ _ = accepts at hcycle hwrites
    have hstep : s.step P ⟨accepts, ticks, junk⟩ =
        ((s.beforeAdd P junk).addTurn accepts).cycleEnd ticks := if_neg hended
    generalize s.beforeAdd P junk = b at hreaders hdram hcycle hwrites hstep
    refine ⟨accepts, ticks, ⟨t.1, D', D'.totAxwCount = 0 ∧ D'.writeExist = false⟩, ?_, ?_⟩
    · rw [hD', any_returnID_encode hin, if_neg Bool.false_ne_true]
    · rw [hstep]
      refine ⟨hreaders.symm, ?_, hcycle, ?_, hwithin⟩
      · rw [hcycle.replies.totAxwCount, hwrites]
        rfl
      · have hstray : Dramsim.strays (outside cacheLineByte) b.dram = 0 := by
          rw [hdram, strays_request _ _ fun x hx => outside_eq_false.mpr (hplaced x hx)]
          exact hpolled.strays
        have hadded := strays_addTransaction (outside cacheLineByte) b.dram accepts
        exact Nat.le_zero.mp ((strays_updateCycle _ _ ticks).trans (hadded.trans hstray).le)

/-- In front of the loop. -/
theorem init (maxDram channels : Nat) (hmax : 0 < maxDram)
    (hchannels : cfg.mapping.chMask < channels) :
    Shows cacheLineByte 0
      (.init P cacheLineByte maxDram channels hmax hchannels : Machine cfg)
      (.init P maxDram hmax) := by
  have hplaced : ∀ t ∈ (Readers.init P).2, InPlace cacheLineByte t.address := by
    intro t ht
    rw [List.mem_singleton.mp ht]
    change 0 * cacheLineByte < _
    rw [Nat.zero_mul]
    decide
  have hstart : Dramsim.strays (outside cacheLineByte)
      (.init maxDram P.totAxwCount (P.aH * P.wFold) hmax) = 0 := by
    rw [Dramsim.strays, DramInterface.init_out]
    rfl
  refine ⟨rfl, rfl, ?_, ?_, Readers.within_init⟩
  · exact requests_refines (refines_init _ _ _ _ hmax hchannels) hplaced
  · exact (strays_request _ _ fun t ht => outside_eq_false.mpr (hplaced t ht)).trans hstart

end Shows

/-- A run of the machine is one of the loop, for some decisions of the memories. -/
theorem Shows.run {cfg : Config} {P : Params} {cacheLineByte : Nat} {timing : Timing}
    (hsafe : cfg.Safe timing) (junks : List Junk) {k : Nat} {S : Machine cfg} {s : ParallelState}
    (h : Shows cacheLineByte k S s)
    (hlines : (k + junks.length) * cacheLineByte < 0x0010000000000000) :
    ∃ S' envs, Transition.runM (Machine.step P cacheLineByte timing) S junks = .ok S' ∧
      envs.map ParallelEnv.junk = junks ∧
      Shows cacheLineByte (k + junks.length) S' (Transition.run (ParallelState.step P) s envs) := by
  induction junks generalizing k S s with
  | nil => exact ⟨S, [], rfl, rfl, h⟩
  | cons junk junks ih =>
    have hlength : k + (junk :: junks).length = k + 1 + junks.length := by
      rw [List.length_cons, Nat.add_assoc, Nat.add_comm 1]
    rw [hlength] at hlines ⊢
    obtain ⟨accepts, ticks, S₁, hS₁, h₁⟩ := h.step hsafe
      (Nat.lt_of_le_of_lt (Nat.mul_le_mul_right _ (Nat.le_add_right _ _)) hlines) junk
    obtain ⟨S', envs, hS', henvs, hshows⟩ := ih h₁ hlines
    refine ⟨S', ⟨accepts, ticks, junk⟩ :: envs, ?_, ?_, hshows⟩
    · rw [Transition.runM, hS₁]
      exact hS'
    · rw [List.map_cons, henvs]

/-- No run of the loop over safe memories ends the process while the lines that are requested lie
in their places, and every such run is one of the loop over memories that decide freely. -/
theorem Machine.run_refines_loop {cfg : Config} {timing : Timing} (hsafe : cfg.Safe timing)
    (P : Params) (cacheLineByte maxDram channels : Nat) (hmax : 0 < maxDram)
    (hchannels : cfg.mapping.chMask < channels) (junks : List Junk)
    (hlines : junks.length * cacheLineByte < 0x0010000000000000) :
    ∃ S envs, (Machine.run P cacheLineByte timing maxDram channels hmax hchannels junks :
        Except Abort (Machine cfg)) = .ok S ∧
      envs.map ParallelEnv.junk = junks ∧
      Shows cacheLineByte junks.length S (ParallelState.run P maxDram hmax envs) := by
  have hinit : Shows cacheLineByte 0
      (.init P cacheLineByte maxDram channels hmax hchannels : Machine cfg)
      (.init P maxDram hmax) := Shows.init maxDram channels hmax hchannels
  have hrun := hinit.run (P := P) hsafe junks (by rwa [Nat.zero_add])
  rwa [Nat.zero_add] at hrun

theorem Machine.run_refines_loop_ddr4 :
    ∃ S envs, (Machine.run State.twoBlocks 64 ddr4Timing.timing 2 1 Nat.two_pos (by decide)
        (List.replicate 1000 fun _ => 0) : Except Abort (Machine ddr4)) = .ok S ∧
      envs.map ParallelEnv.junk = List.replicate 1000 (fun _ => 0) ∧
      Shows 64 1000 S (ParallelState.run State.twoBlocks 2 Nat.two_pos envs) := by
  have hall := Machine.run_refines_loop (ddr4_safe ddr4Timing.timing) State.twoBlocks 64 2 1
    Nat.two_pos (by decide) (List.replicate 1000 fun _ => 0)
    (by rw [List.length_replicate]; decide)
  rwa [List.length_replicate] at hall

/-- With one memory and at least two folds, on a graph with well shaped blocks: when the loop is
left, no write waits in the interface and none lies in a write buffer of a controller. -/
theorem Machine.run_exit {cfg : Config} {timing : Timing} (hsafe : cfg.Safe timing) {P : Params}
    (hrun : P.RunOk) (hw : 2 ≤ P.wW) (hcount : P.axwLines ≤ P.totAxwCount)
    (cacheLineByte channels : Nat) (hchannels : cfg.mapping.chMask < channels)
    (junks : List Junk) (hlines : junks.length * cacheLineByte < 0x0010000000000000) :
    ∃ S, (Machine.run P cacheLineByte timing 1 channels Nat.one_pos hchannels junks :
        Except Abort (Machine cfg)) = .ok S ∧
      (S.ended = true →
        (∀ t ∈ S.dram.tQueue, t.2 = false) ∧ ∀ m ∈ S.dram.drams, m.buffered = []) := by
  have hinit : Shows cacheLineByte 0
      (.init P cacheLineByte 1 channels Nat.one_pos hchannels : Machine cfg)
      (.init P 1 Nat.one_pos) := Shows.init 1 channels Nat.one_pos hchannels
  obtain ⟨S, envs, hS, -, h⟩ := hinit.run (P := P) hsafe junks (by rwa [Nat.zero_add])
  change Shows _ _ S (ParallelState.run P 1 Nat.one_pos envs) at h
  refine ⟨S, hS, fun hended => ?_⟩
  have hcovered : (ParallelState.run P 1 Nat.one_pos envs).Covered P :=
    Transition.run_invariant_of_guarded ParallelState.step_covered
      (ParallelState.init_covered P 1 Nat.one_pos)
      (ParallelState.guarded_of_one_memory hrun hw hcount envs)
  obtain ⟨hzero, hexist⟩ := hcovered.exit (h.ended ▸ hended)
  constructor
  · intro t ht
    rw [h.dram.tQueue] at ht
    obtain ⟨t', ht', rfl⟩ := List.mem_map.mp ht
    exact hcovered.ledger.reads_of_zero hzero t' ht'
  · intro m hm
    obtain ⟨i, hi, rfl⟩ := List.mem_iff_getElem.mp hm
    have hi' : i < (ParallelState.run P 1 Nat.one_pos envs).dram.drams.length :=
      h.dram.drams.length_eq ▸ hi
    have hbuffered := (h.dram.drams.get hi' hi).buffered
    have hempty := hcovered.ledger.buffers_of_not_writeExist hexist _ (List.get_mem _ ⟨i, hi'⟩)
    rw [hempty, List.map_nil] at hbuffered
    exact List.subperm_nil.mp hbuffered

theorem Machine.run_exit_ddr4 :
    ∃ S, (Machine.run State.twoBlocks 64 ddr4Timing.timing 1 1 Nat.one_pos (by decide)
        (List.replicate 1000 fun _ => 0) : Except Abort (Machine ddr4)) = .ok S ∧
      (S.ended = true →
        (∀ t ∈ S.dram.tQueue, t.2 = false) ∧ ∀ m ∈ S.dram.drams, m.buffered = []) :=
  Machine.run_exit (ddr4_safe _) (by decide +kernel) (by decide) (by decide +kernel) 64 1
    (by decide) (List.replicate 1000 fun _ => 0) (by rw [List.length_replicate]; decide)

end GcnSim.Dramsim
