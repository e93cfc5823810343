import GcnSim.Core.Simulator
import GcnSim.Reader.EdgeBlock
import GcnSim.Reader.VertexStream

/-!
# The readers in phase

`InPhase` couples the two readers: while the edge reader is not at the last row of
a pass, the vertex reader stands at the same row of the same pass, and otherwise
it stands at the start of the next pass. Every turn of an iteration keeps the
coupling as long as the blocks that are reached are well shaped, so it holds in
every state of every run.
-/

namespace GcnSim

open Params

/-- The vertex reader stands where the edge reader will ask for its next row, and the
lines on their way are those the two readers wait for. -/
def InPhase (P : Params) (outRow outCol : Nat) (vr : VertexReader) (er : EdgeReader)
    (dc : DataController) : Prop :=
  (∃ b d, EdgeAt P b d outCol er dc ∧
    (er.preRow < P.blockEnd b ∧ VertexPos P b er.xRepeat er.preRow outRow vr dc.row ∨
      er.preRow = P.blockEnd b ∧
        VertexPos P (P.nextPass b er.xRepeat).1 (P.nextPass b er.xRepeat).2
          (P.passStart (P.nextPass b er.xRepeat).1) outRow vr dc.row)) ∨
  (EdgeDone P outCol er dc ∧ VertexPos P P.blockCount 0 P.aH outRow vr dc.row)

/-- The pass after is one more. -/
theorem Params.nextPass_count (P : Params) (b p : Nat) :
    (P.nextPass b p).1 * P.wW + (P.nextPass b p).2 = b * P.wW + p + 1 := by
  have hw := P.wW_pos
  unfold nextPass
  split
  · rw [Nat.succ_mul]
    omega
  · rfl

namespace VertexPos

variable {P : Params} {b p r out : Nat} {vr : VertexReader} {feed : LineFeed}

theorem setFFlag (h : VertexPos P b p r out vr feed) (flag : Bool) :
    VertexPos P b p r out { vr with fFlag := flag } feed := by
  rcases h with ⟨d, hat, hp, hr⟩ | ⟨hb, hp, hr, hdone⟩
  · exact Or.inl ⟨d, { hat with }, hp, hr⟩
  · exact Or.inr ⟨hb, hp, hr, { hdone with }⟩

/-- The reader is at work exactly as long as it made no undefined access. -/
theorem faults_eq_nil_iff (h : VertexPos P b p r out vr feed) :
    vr.faults = [] ↔ b < P.blockCount := by
  rcases h with ⟨d, hat, -, -⟩ | ⟨hb, -, -, hdone⟩
  · exact iff_of_true hat.faults hat.reached.1
  · exact iff_of_false hdone.faults (by omega)

/-- A row line reply moves the reader and the feed on by one line. -/
theorem receiveData (h : VertexPos P b p r (out + 1) vr feed) (hpos : P.LinesStartPositive)
    (junk : Junk) :
    let r' := feed.dataReturn P.cacheLineCount .vertexReqCountCnt .adjrowindex junk
    r'.2.2 = [] ∧ VertexPos P b p r out (vr.receiveData r'.1) r'.2.1 := by
  rcases h with ⟨d, hat, hp, hr⟩ | ⟨-, -, -, hdone⟩
  · obtain ⟨hf, hat'⟩ := hat.receiveData hpos junk
    exact ⟨hf, Or.inl ⟨d + 1, hat', hp, hr⟩⟩
  · exact absurd hdone.out_eq (Nat.succ_ne_zero _)

/-- The request turn adds what it requests to the lines on their way. -/
theorem requestTurn (h : VertexPos P b p r out vr feed) :
    VertexPos P b p r (out + (vr.requestTurn P).2.length) (vr.requestTurn P).1 feed ∧
      ∀ t ∈ (vr.requestTurn P).2, ∃ line, t = readLine .aRow line := by
  rcases h with ⟨d, hat, hp, hr⟩ | ⟨hb, hp, hr, hdone⟩
  · rcases hat.requestTurn with ⟨hnil, hat'⟩ | ⟨hone, hat'⟩
    · rw [hnil]
      exact ⟨Or.inl ⟨d, hat', hp, hr⟩, by simp⟩
    · rw [hone]
      exact ⟨Or.inl ⟨d, hat', hp, hr⟩, by simp⟩
  · obtain ⟨hnil, hdone'⟩ := RowSystem.requestTurn_done hdone
    rw [hnil]
    exact ⟨Or.inr ⟨hb, hp, hr, hdone'⟩, by simp⟩

end VertexPos

theorem FeatureReads.reads {ts : List Transaction} (h : FeatureReads ts) :
    ∀ t ∈ ts, ∃ line, t = readLine .xw line := by
  intro t ht
  rcases h with rfl | ⟨line, rfl⟩
  · cases ht
  · exact ⟨line, List.mem_singleton.mp ht⟩

namespace Dram

/-- Requests for one region only. -/
theorem request_readsOut_eq (d : Dram) {ts : List Transaction} {r : Region}
    (h : ∀ t ∈ ts, ∃ line, t = readLine r line) (r' : Region) :
    (d.request ts).readsOut r' = d.readsOut r' + if r' = r then ts.length else 0 := by
  rw [request_readsOut]
  congr 1
  split
  · rename_i heq
    subst heq
    rw [List.countP_eq_length]
    intro t ht
    obtain ⟨line, rfl⟩ := h t ht
    simp [readLine]
  · rename_i hne
    rw [List.countP_eq_zero]
    intro t ht
    obtain ⟨line, rfl⟩ := h t ht
    simp [readLine, Ne.symm hne]

theorem request_readsOut_write (d : Dram) {ts : List Transaction}
    (h : ∀ t ∈ ts, t = writeAxw) (r : Region) : (d.request ts).readsOut r = d.readsOut r := by
  rw [request_readsOut, List.countP_eq_zero.mpr, Nat.add_zero]
  intro t ht
  rw [h t ht]
  simp [writeAxw]

/-- A polled read leaves the interface. -/
theorem getReadData_readsOut (d : Dram) {a : Address} {rest : List Address}
    (h : d.fAddress = a :: rest) (r : Region) :
    d.readsOut r = (d.getReadData false).2.readsOut r + if a.region = r then 1 else 0 := by
  simp only [readsOut, getReadData, h, List.countP_cons, decide_eq_true_eq, List.tail_cons,
    Bool.false_eq_true, if_false]
  omega

end Dram

/-- `Write` finishes no pass. -/
theorem EdgeReader.write_passes (P : Params) (er : EdgeReader) :
    ((er.write P).1.log.writes.count .passEnd =
      (er.write P).1.blockCnt * P.wW + (er.write P).1.xRepeat) =
    (er.log.writes.count .passEnd = er.blockCnt * P.wW + er.xRepeat) := by
  unfold write
  split
  · simp only
    split <;> simp [List.count_append]
  · rfl

namespace InPhase

variable {P : Params} {outRow outCol : Nat} {vr : VertexReader} {er : EdgeReader}
  {dc : DataController}

theorem setFFlag (h : InPhase P outRow outCol vr er dc) (flag : Bool) :
    InPhase P outRow outCol { vr with fFlag := flag } er dc := by
  rcases h with ⟨b, d, her, hvr⟩ | ⟨her, hvr⟩
  · exact Or.inl ⟨b, d, her, hvr.imp (And.imp_right (·.setFFlag flag))
      (And.imp_right (·.setFFlag flag))⟩
  · exact Or.inr ⟨her, hvr.setFFlag flag⟩

/-- A row line arrives. -/
theorem receiveRow (h : InPhase P (outRow + 1) outCol vr er dc) (hpos : P.LinesStartPositive)
    (junk : Junk) :
    let r := dc.adjRowDataReturn P.cacheLineCount junk
    r.2.faults = dc.faults ∧ InPhase P outRow outCol (vr.receiveData r.1) er r.2 := by
  have hstep : ∀ {b p r}, VertexPos P b p r (outRow + 1) vr dc.row →
      (dc.adjRowDataReturn P.cacheLineCount junk).2.faults = dc.faults ∧
        VertexPos P b p r outRow
          (vr.receiveData (dc.adjRowDataReturn P.cacheLineCount junk).1)
          (dc.adjRowDataReturn P.cacheLineCount junk).2.row := by
    intro b p r hvr
    obtain ⟨hf, hvr'⟩ := hvr.receiveData hpos junk
    exact ⟨by simp only [DataController.adjRowDataReturn, hf, List.append_nil], hvr'⟩
  rcases h with ⟨b, d, her, ⟨hlt, hvr⟩ | ⟨hend, hvr⟩⟩ | ⟨her, hvr⟩
  · obtain ⟨hf, hvr'⟩ := hstep hvr
    exact ⟨hf, Or.inl ⟨b, d, { her with }, Or.inl ⟨hlt, hvr'⟩⟩⟩
  · obtain ⟨hf, hvr'⟩ := hstep hvr
    exact ⟨hf, Or.inl ⟨b, d, { her with }, Or.inr ⟨hend, hvr'⟩⟩⟩
  · obtain ⟨hf, hvr'⟩ := hstep hvr
    exact ⟨hf, Or.inr ⟨{ her with }, hvr'⟩⟩

/-- A column line arrives. -/
theorem receiveCol (h : InPhase P outRow (outCol + 1) vr er dc) (junk : Junk) :
    let r := dc.adjColDataReturn P.cacheLineCount junk
    r.2.faults = dc.faults ∧ InPhase P outRow outCol vr (er.receiveData r.1) r.2 := by
  rcases h with ⟨b, d, her, hvr⟩ | ⟨her, -⟩
  · obtain ⟨hf, hrow, her'⟩ := her.receiveData junk
    refine ⟨hf, Or.inl ⟨b, d + 1, her', ?_⟩⟩
    rw [hrow]
    exact hvr
  · exact absurd her.out_eq (Nat.succ_ne_zero _)

/-- The request turn of the vertex reader. -/
theorem vertexTurn (h : InPhase P outRow outCol vr er dc) :
    InPhase P (outRow + (vr.requestTurn P).2.length) outCol (vr.requestTurn P).1 er dc ∧
      ∀ t ∈ (vr.requestTurn P).2, ∃ line, t = readLine .aRow line := by
  rcases h with ⟨b, d, her, ⟨hlt, hvr⟩ | ⟨hend, hvr⟩⟩ | ⟨her, hvr⟩
  · exact ⟨Or.inl ⟨b, d, her, Or.inl ⟨hlt, hvr.requestTurn.1⟩⟩, hvr.requestTurn.2⟩
  · exact ⟨Or.inl ⟨b, d, her, Or.inr ⟨hend, hvr.requestTurn.1⟩⟩, hvr.requestTurn.2⟩
  · exact ⟨Or.inr ⟨her, hvr.requestTurn.1⟩, hvr.requestTurn.2⟩

/-- An edge reader that waits for a row agrees with the vertex reader on the position. -/
theorem waiting (h : InPhase P outRow outCol vr er dc) (hcan : er.canReceive = true) :
    ∃ b d d', EdgeAt P b d outCol er dc ∧ er.remainColNum = 0 ∧
      VertexAt P b d' outRow vr dc.row ∧ vr.xRepeat = er.xRepeat ∧ vr.preRow = er.preRow := by
  rcases h with ⟨b, d, her, hvr⟩ | ⟨her, -⟩
  · have hz : er.remainColNum = 0 := by
      have := her.can
      rw [hcan] at this
      exact of_decide_eq_true this.symm
    have hlt := her.wait hz
    rcases hvr with ⟨-, hvr⟩ | ⟨hend, -⟩
    · rcases hvr with ⟨d', hat, hp, hr⟩ | ⟨hb, -, -, -⟩
      · exact ⟨b, d, d', her, hz, hat, hp, hr⟩
      · exact absurd her.reached.1 (by omega)
    · omega
  · rw [her.can] at hcan
    cases hcan

/-- A row is handed over, or the vertex reader has none and answers the sentinel. -/
theorem handOver (h : InPhase P outRow outCol vr er dc) (hrun : P.RunOk)
    (hcan : er.canReceive = true) (junk : Junk) :
    let r := vr.transferData P junk
    InPhase P outRow outCol r.2.1 (er.receiveVertex P r.1) dc ∧ FeatureReads r.2.2 ∧
      (er.receiveVertex P r.1).writeState = er.writeState ∧
      (er.receiveVertex P r.1).blockCnt = er.blockCnt ∧
      (er.receiveVertex P r.1).xRepeat = er.xRepeat := by
  obtain ⟨b, d, d', her, hz, hvr, hp, hr⟩ := h.waiting hcan
  have hok := hrun.blocks b her.reached.1 her.reached
  have hlt := her.wait hz
  rcases hvr.transferData junk with ⟨-, hwait⟩ | ⟨vr', ts, hts, heq, hcase⟩
  · have hsame : er.receiveVertex P sentinel = er := by
      rw [EdgeReader.receiveVertex, if_neg (Nat.lt_irrefl _)]
    simp only [hwait, hsame]
    exact ⟨h, Or.inl rfl, trivial, trivial, trivial⟩
  · have hacc := her.receiveVertex_eq hok hz
    have her' := her.receiveVertex hok hz
    simp only [heq, hr]
    rw [hr, hp] at hcase
    rw [hacc] at her' ⊢
    refine ⟨Or.inl ⟨b, d, her', ?_⟩, hts, rfl, rfl, rfl⟩
    exact hcase

/-- The edge reader works on: it consumes a column or starts the next pass. -/
theorem outerProduct (h : InPhase P outRow outCol vr er dc) (hrun : P.RunOk) (junk : Junk) :
    InPhase P outRow outCol vr (er.outerProduct P junk) dc := by
  rcases h with ⟨b, d, her, hvr⟩ | ⟨her, hvr⟩
  · rcases her.outerProduct hrun junk with hidle | ⟨her', hp, hr, -, -⟩ |
      ⟨hend, -, hpos, hz, -⟩
    · rw [hidle]
      exact Or.inl ⟨b, d, her, hvr⟩
    · refine Or.inl ⟨b, d, her', ?_⟩
      rw [hp, hr]
      exact hvr
    · have hvr' : VertexPos P (P.nextPass b er.xRepeat).1 (P.nextPass b er.xRepeat).2
          (P.passStart (P.nextPass b er.xRepeat).1) outRow vr dc.row := by
        rcases hvr with ⟨hlt, -⟩ | ⟨-, hvr⟩
        · omega
        · exact hvr
      rcases hpos with ⟨d', her', hp, hr⟩ | ⟨hb, hp, hr, her'⟩
      · exact Or.inl ⟨_, d', her', Or.inl ⟨her'.wait hz, by rw [hp, hr]; exact hvr'⟩⟩
      · rw [hb, hp, passStart_blockCount] at hvr'
        exact Or.inr ⟨her', hvr'⟩
  · rw [her.outerProduct junk]
    exact Or.inr ⟨her, hvr⟩

/-- The passes finished so far, counted by block and pass. -/
theorem outerProduct_passes (h : InPhase P outRow outCol vr er dc) (hrun : P.RunOk)
    (junk : Junk)
    (hpasses : er.log.writes.count .passEnd = er.blockCnt * P.wW + er.xRepeat) :
    (er.outerProduct P junk).log.writes.count .passEnd =
      (er.outerProduct P junk).blockCnt * P.wW + (er.outerProduct P junk).xRepeat := by
  rcases h with ⟨b, d, her, -⟩ | ⟨her, -⟩
  · rcases her.outerProduct hrun junk with hidle | ⟨her', hp, -, -, hw⟩ |
      ⟨-, -, hpos, -, hw⟩
    · rw [hidle]
      exact hpasses
    · have hwrites : (er.outerProduct P junk).log.writes = er.log.writes :=
        congrArg (·.2.2) hw
      rw [hwrites, her'.block, hp, ← her.block]
      exact hpasses
    · have hwrites : (er.outerProduct P junk).log.writes = er.log.writes ++ [.passEnd] :=
        congrArg (·.2.2) hw
      have hnext := P.nextPass_count b er.xRepeat
      have hblock : (er.outerProduct P junk).blockCnt = (P.nextPass b er.xRepeat).1 ∧
          (er.outerProduct P junk).xRepeat = (P.nextPass b er.xRepeat).2 := by
        rcases hpos with ⟨_, her', hp, -⟩ | ⟨hb, hp, -, her'⟩
        · exact ⟨her'.block, hp⟩
        · exact ⟨her'.block.trans hb.symm, her'.pass.trans hp.symm⟩
      rw [her.block] at hpasses
      rw [hwrites, List.count_append, hpasses, hblock.1, hblock.2, hnext]
      rfl
  · rw [her.outerProduct junk]
    exact hpasses

/-- The request turn of the edge reader. -/
theorem requestTurn (h : InPhase P outRow outCol vr er dc) :
    InPhase P outRow (outCol + (er.requestTurn P).2.length) vr (er.requestTurn P).1 dc ∧
      ∀ t ∈ (er.requestTurn P).2, ∃ line, t = readLine .aCol line := by
  rcases h with ⟨b, d, her, hvr⟩ | ⟨her, hvr⟩
  · rcases her.requestTurn with ⟨hnil, her'⟩ | ⟨hone, her'⟩
    · rw [hnil]
      exact ⟨Or.inl ⟨b, d, her', hvr⟩, by simp⟩
    · rw [hone]
      exact ⟨Or.inl ⟨b, d, her', hvr⟩, by simp⟩
  · obtain ⟨hnil, her'⟩ := her.requestTurn
    rw [hnil]
    exact ⟨Or.inr ⟨her', hvr⟩, by simp⟩

/-- `Write` leaves the readers in phase. -/
theorem write (h : InPhase P outRow outCol vr er dc) :
    InPhase P outRow outCol vr (er.write P).1 dc := by
  have hx : (er.write P).1.xRepeat = er.xRepeat ∧ (er.write P).1.preRow = er.preRow := by
    unfold EdgeReader.write
    split
    · simp only
      split <;> exact ⟨rfl, rfl⟩
    · exact ⟨rfl, rfl⟩
  rcases h with ⟨b, d, her, hvr⟩ | ⟨her, hvr⟩
  · refine Or.inl ⟨b, d, her.write, ?_⟩
    rw [hx.1, hx.2]
    exact hvr
  · exact Or.inr ⟨her.write, hvr⟩

/-- The constructed readers are in phase. -/
theorem init (hrun : P.RunOk) : InPhase P 0 0 (VertexReader.init P).requestF.1 (.init P)
    ⟨⟨P.row, P.vertexReqCount, 0⟩, ⟨P.col, P.edgeReqCount, 0⟩, [], 0, []⟩ := by
  have hB := P.blockCount_pos
  have hlt := blockStart_lt_blockEnd hB
  rw [blockStart_zero] at hlt
  have hok := hrun.blocks 0 hB ⟨hB, Or.inl rfl⟩
  refine Or.inl ⟨0, 0, EdgeAt.init hok _ rfl rfl rfl, Or.inl ⟨hlt, Or.inl ⟨0, ?_, rfl, rfl⟩⟩⟩
  exact { VertexAt.init P with }

end InPhase

namespace State

/-- The invariant of the A*XW loop under well-shaped blocks. -/
structure Inv (P : Params) (s : State) : Prop where
  phase : InPhase P (s.dram.readsOut .aRow) (s.dram.readsOut .aCol) s.vr s.er s.dc
  feeds : s.dc.faults = []
  /-- Every finished pass has set `do_write` once. -/
  passes : s.er.log.writes.count .passEnd = s.er.blockCnt * P.wW + s.er.xRepeat

variable {P : Params}

theorem init_inv (hrun : P.RunOk) : (init P).Inv P where
  phase := by
    have h := InPhase.init hrun
    have hout : ∀ r, r ≠ Region.xw → (init P).dram.readsOut r = 0 := by
      intro r hr
      cases r <;> simp_all [init, Dram.readsOut, Dram.request, VertexReader.requestF, readLine]
    rw [hout _ (by decide), hout _ (by decide)]
    exact h
  feeds := rfl
  passes := by simp [init, EdgeReader.init]

/-- The turns before the hand-over deliver at most one line. -/
theorem replyTurn_inv (hrun : P.RunOk) {s : State} (h : s.Inv P) (junk : Junk) :
    (s.dramTurn.2.replyTurn P junk s.dramTurn.1).Inv P := by
  unfold dramTurn
  split
  · cases hf : s.dram.fAddress with
    | nil =>
      have hout : ∀ r, (s.dram.getReadData false).2.readsOut r = s.dram.readsOut r := by
        intro r
        simp [Dram.getReadData, Dram.readsOut, hf]
      simp only [Dram.getReadData, hf, List.head?_nil, replyTurn, Bool.false_eq_true, if_false]
      refine ⟨?_, h.feeds, h.passes⟩
      have hphase := h.phase
      rw [← hout, ← hout] at hphase
      simpa [Dram.getReadData, hf] using hphase
    | cons a rest =>
      have hrow := Dram.getReadData_readsOut s.dram hf .aRow
      have hcol := Dram.getReadData_readsOut s.dram hf .aCol
      have hhead : (s.dram.getReadData false).1 = some a := by simp [Dram.getReadData, hf]
      have hphase := h.phase
      simp only [hhead]
      obtain ⟨region, line⟩ := a
      cases region with
      | aRow =>
        simp only [if_true, reduceCtorEq, if_false, Nat.add_zero] at hrow hcol
        rw [hrow, hcol] at hphase
        obtain ⟨hfaults, hphase'⟩ := hphase.receiveRow hrun.lines junk
        exact ⟨hphase', hfaults.trans h.feeds, h.passes⟩
      | aCol =>
        simp only [if_true, reduceCtorEq, if_false, Nat.add_zero] at hrow hcol
        rw [hrow, hcol] at hphase
        obtain ⟨hfaults, hphase'⟩ := hphase.receiveCol junk
        exact ⟨hphase', hfaults.trans h.feeds, h.passes⟩
      | xw =>
        simp only [reduceCtorEq, if_false, Nat.add_zero] at hrow hcol
        rw [hrow, hcol] at hphase
        exact ⟨hphase, h.feeds, h.passes⟩
      | axw =>
        simp only [reduceCtorEq, if_false, Nat.add_zero] at hrow hcol
        rw [hrow, hcol] at hphase
        exact ⟨hphase, h.feeds, h.passes⟩
  · split
    · exact ⟨h.phase.setFFlag true, h.feeds, h.passes⟩
    · exact h

theorem vertexTurn_inv {s : State} (h : s.Inv P) : (s.vertexTurn P).Inv P := by
  obtain ⟨hphase, hts⟩ := h.phase.vertexTurn
  refine ⟨?_, h.feeds, h.passes⟩
  simp only [vertexTurn, Dram.request_readsOut_eq s.dram hts, if_true, reduceCtorEq, if_false,
    Nat.add_zero]
  exact hphase

theorem beforeHandOver_inv (hrun : P.RunOk) {s : State} (h : s.Inv P) (junk : Junk) :
    (s.beforeHandOver P junk).Inv P :=
  vertexTurn_inv (replyTurn_inv hrun h junk)

theorem handOver_inv (hrun : P.RunOk) {s : State} (h : s.Inv P) (junk : Junk) :
    (s.handOver P junk).Inv P := by
  unfold handOver
  split
  · rename_i hcan
    have hcan : s.er.canReceive = true := by
      simp only [canHandOver, Bool.and_eq_true] at hcan
      exact hcan.1.1
    obtain ⟨hphase, hts, hwrite, hblock, hpass⟩ := h.phase.handOver hrun hcan junk
    refine ⟨?_, h.feeds, ?_⟩
    · simp only [Dram.request_readsOut_eq s.dram hts.reads, reduceCtorEq, if_false, Nat.add_zero]
      exact hphase
    · have hw : (s.er.receiveVertex P (s.vr.transferData P junk).1).log.writes =
          s.er.log.writes := congrArg (·.2.2) hwrite
      simp only [hw, hblock, hpass]
      exact h.passes
  · exact h

/-- `Request`, `OuterProduct` and `Write` of the edge reader. -/
theorem edgeTurn_inv (hrun : P.RunOk) {s : State} (h : s.Inv P) (junk : Junk) :
    (s.edgeTurn P junk).Inv P := by
  obtain ⟨hreq, hts⟩ := h.phase.requestTurn
  have hpasses := hreq.outerProduct_passes hrun junk h.passes
  have hphase := (hreq.outerProduct hrun junk).write
  have hwrites : ∀ t ∈ (((s.er.requestTurn P).1.outerProduct P junk).write P).2,
      t = writeAxw := by
    unfold EdgeReader.write
    split <;> simp
  refine ⟨?_, h.feeds, ?_⟩
  · simp only [edgeTurn, Dram.request_readsOut_write _ hwrites,
      Dram.request_readsOut_eq s.dram hts, if_true, reduceCtorEq, if_false, Nat.add_zero]
    exact hphase
  · rw [← EdgeReader.write_passes P] at hpasses
    exact hpasses

theorem cycleEnd_inv {s : State} (h : s.Inv P) (env : Env) : (s.cycleEnd env).Inv P := by
  refine ⟨?_, h.feeds, h.passes⟩
  simp only [cycleEnd]
  rw [Dram.updateCycle_readsOut _ _ (by rfl), Dram.addTransaction_readsOut,
    Dram.updateCycle_readsOut _ _ (by rfl), Dram.addTransaction_readsOut]
  exact h.phase

/-- Every iteration keeps the readers in phase. -/
theorem step_inv (hrun : P.RunOk) (s : State) (env : Env) (h : s.Inv P) :
    (s.step P env).Inv P := by
  unfold step
  split
  · exact h
  · have hbefore := beforeHandOver_inv hrun h env.junk
    have hended := handOver_inv hrun hbefore env.junk
    exact cycleEnd_inv (edgeTurn_inv hrun hended env.junk) env

/-- The invariant holds in every state of every run. -/
theorem run_inv (hrun : P.RunOk) (envs : List Env) : (run P envs).Inv P :=
  Transition.run_invariant (step_inv hrun) (init_inv hrun) envs

end State

end GcnSim
