import GcnSim.Loop.Phase
import Mathlib.Algebra.BigOperators.Intervals

/-!
# Result writes of the A*XW loop

A finished pass sets `do_write`, and `Write` then drains an episode of one line per
iteration. The flag has no memory: a pass that finishes while an episode is still
being drained is lost. `workAfter` bounds from below how many iterations the rest
of a pass takes, and as long as every pass takes at least as many iterations as an
episode has lines, no episode is lost and the write counter ends at zero.
-/

namespace GcnSim

namespace Params

variable (P : Params)

/-- The iterations that the rows of block `b` after row `r` take at least: one for every
edge, and one for every row without edges. -/
def workAfter (b r : Nat) : Nat := ∑ i ∈ Finset.Ico r (P.blockEnd b), max 1 (P.degree (i + 1))

/-- The iterations that a pass over block `b` takes at least. -/
def passWork (b : Nat) : Nat := P.workAfter b (P.blockStart b)

variable {P}

theorem workAfter_succ {b r : Nat} (hr : r < P.blockEnd b) :
    P.workAfter b r = max 1 (P.degree (r + 1)) + P.workAfter b (r + 1) :=
  Finset.sum_eq_sum_Ico_succ_bot hr _

@[simp] theorem workAfter_blockEnd (b : Nat) : P.workAfter b (P.blockEnd b) = 0 := by
  simp [workAfter]

theorem writeLines_pos : 0 < P.writeLines := ceilDiv_pos P.aH_pos P.cacheLineCount_pos

theorem axwLines_eq : P.axwLines = P.writeLines * (P.wW * P.blockCount) :=
  Nat.mul_assoc P.writeLines P.wW P.blockCount

end Params

open Params

namespace EdgeReader

variable (P : Params) (er : EdgeReader)

/-- A lower bound for the iterations until the current pass ends. -/
def workLeft : Nat := er.remainColNum + P.workAfter er.blockCnt er.preRow

/-- `Write` counts one line down, or does nothing. -/
theorem write_writeState : (er.write P).1.writeState =
    if er.doWrite then
      if er.writeCount - 1 = 0 then (false, P.writeLines, er.log.writes ++ [.line])
      else (true, er.writeCount - 1, er.log.writes ++ [.line])
    else er.writeState := by
  unfold write
  cases hw : er.doWrite with
  | true =>
    simp only [if_true]
    split <;> simp [writeState]
  | false => simp

/-- A `Write` that leaves the flag set had it set, and counted down. -/
theorem write_of_doWrite (h : (er.write P).1.doWrite = true) :
    er.doWrite = true ∧ (er.write P).1.writeCount = er.writeCount - 1 := by
  have hstate := write_writeState P er
  have hflag : (er.write P).1.doWrite = _ := congrArg (·.1) hstate
  have hnum : (er.write P).1.writeCount = _ := congrArg (·.2.1) hstate
  rw [h] at hflag
  split at hflag
  · rename_i hset
    rw [if_pos hset] at hnum
    split at hflag
    · cases hflag
    · rename_i hmore
      rw [if_neg hmore] at hnum
      exact ⟨hset, hnum⟩
  · rename_i hset
    exact absurd hflag.symm hset

theorem write_workLeft : (er.write P).1.workLeft P = er.workLeft P ∧
    (er.write P).1.blockCnt = er.blockCnt := by
  unfold write
  split
  · simp only
    split <;> exact ⟨rfl, rfl⟩
  · exact ⟨rfl, rfl⟩

theorem write_requests : (er.write P).2.countP (fun t => t.isWrite && t.address.region = .axw) =
    if er.doWrite then 1 else 0 := by
  unfold write
  split <;> simp [writeAxw]

end EdgeReader

theorem Dram.request_writesOut_reads (d : Dram) {ts : List Transaction} {r : Region}
    (h : ∀ t ∈ ts, ∃ line, t = readLine r line) : (d.request ts).writesOut = d.writesOut := by
  rw [request_writesOut, List.countP_eq_zero.mpr, Nat.add_zero]
  intro t ht
  obtain ⟨line, rfl⟩ := h t ht
  simp [readLine]

namespace State

variable {P : Params}

/-- The edge reader as the iteration's `OuterProduct` finds it. -/
def edgeInput (P : Params) (junk : Junk) (s : State) : EdgeReader :=
  (((s.beforeHandOver P junk).handOver P junk).er.requestTurn P).1

/-- The result lines requested so far. -/
def issued (s : State) : Nat := s.er.log.writes.count .line

/-- The passes finished so far. -/
def passEnds (s : State) : Nat := s.er.log.writes.count .passEnd

theorem step_er {s : State} (hended : s.ended = false) (env : Env) :
    (s.step P env).er = (((s.edgeInput P env.junk).outerProduct P env.junk).write P).1 := by
  simp only [step, hended, Bool.false_eq_true, if_false]
  rfl

/-- Before the hand-over the edge reader at most receives a line. -/
theorem beforeHandOver_er (s : State) (junk : Junk) :
    (s.beforeHandOver P junk).er = s.er ∨
      ∃ data, (s.beforeHandOver P junk).er = s.er.receiveData data := by
  have hdram : s.dramTurn.2.er = s.er := by
    unfold dramTurn
    split
    · rfl
    · split <;> rfl
  change (s.dramTurn.2.replyTurn P junk s.dramTurn.1).er = s.er ∨ ∃ data,
    (s.dramTurn.2.replyTurn P junk s.dramTurn.1).er = _
  unfold replyTurn
  split
  · exact Or.inl hdram
  · exact Or.inr ⟨_, congrArg (EdgeReader.receiveData · _) hdram⟩
  · exact Or.inl hdram

/-- The hand-over leaves the edge reader alone or lets it accept the next row. -/
theorem handOver_er (hrun : P.RunOk) {s : State} (h : s.Inv P) (junk : Junk) :
    (s.handOver P junk).er.writeState = s.er.writeState ∧
      (s.handOver P junk).er.blockCnt = s.er.blockCnt ∧
      s.er.workLeft P ≤ (s.handOver P junk).er.workLeft P + 1 ∧
      ((s.handOver P junk).er.remainColNum ≠ 0 →
        (s.handOver P junk).er.workLeft P = s.er.workLeft P) := by
  unfold handOver
  split
  · rename_i hended
    have hcan : s.er.canReceive = true := by
      simp only [canHandOver, Bool.and_eq_true] at hended
      exact hended.1.1
    obtain ⟨b, d, d', her, hz, hvr, -, hr⟩ := h.phase.waiting hcan
    have hok := hrun.blocks b her.reached.1 her.reached
    rcases hvr.transferData junk with ⟨-, hwait⟩ | ⟨vr', ts, -, heq, -⟩
    · have hsame : s.er.receiveVertex P sentinel = s.er := by
        rw [EdgeReader.receiveVertex, if_neg (Nat.lt_irrefl _)]
      simp only [hwait, hsame]
      exact ⟨trivial, trivial, by omega, fun _ => trivial⟩
    · have hwork := workAfter_succ (her.wait hz)
      simp only [heq, hr]
      rw [her.receiveVertex_eq hok hz]
      refine ⟨rfl, rfl, ?_, fun hne => ?_⟩
      · simp only [EdgeReader.workLeft, her.block, hz, hwork]
        omega
      · change P.degree (s.er.preRow + 1) ≠ 0 at hne
        simp only [EdgeReader.workLeft, her.block, hz, hwork]
        omega
  · exact ⟨rfl, rfl, by omega, fun _ => rfl⟩

/-- What an iteration has done to the edge reader before `OuterProduct`: nothing to the
result writes, and at most one unit of work. -/
theorem edgeInput_spec (hrun : P.RunOk) {s : State} (h : s.Inv P) (junk : Junk) :
    (s.edgeInput P junk).writeState = s.er.writeState ∧
      (s.edgeInput P junk).blockCnt = s.er.blockCnt ∧
      s.er.workLeft P ≤ (s.edgeInput P junk).workLeft P + 1 ∧
      ((s.edgeInput P junk).remainColNum ≠ 0 →
        (s.edgeInput P junk).workLeft P = s.er.workLeft P) := by
  have hbefore : (s.beforeHandOver P junk).er.writeState = s.er.writeState ∧
      (s.beforeHandOver P junk).er.blockCnt = s.er.blockCnt ∧
      (s.beforeHandOver P junk).er.workLeft P = s.er.workLeft P := by
    rcases s.beforeHandOver_er (P := P) junk with hsame | ⟨data, hdata⟩
    · rw [hsame]
      exact ⟨rfl, rfl, rfl⟩
    · rw [hdata]
      exact ⟨rfl, rfl, rfl⟩
  obtain ⟨hw, hb, hle, heq⟩ := handOver_er hrun (beforeHandOver_inv hrun h junk) junk
  rw [hbefore.1] at hw
  rw [hbefore.2.1] at hb
  rw [hbefore.2.2] at hle heq
  exact ⟨hw, hb, hle, heq⟩

/-- One iteration seen by the result writes: at most one unit of work is done, or the last
unit of the pass is done and `do_write` is set. -/
theorem step_work (hrun : P.RunOk) {s : State} (h : s.Inv P) (junk : Junk) :
    let er := (s.edgeInput P junk).outerProduct P junk
    (er.writeState = s.er.writeState ∧ er.blockCnt = s.er.blockCnt ∧
        s.er.workLeft P ≤ er.workLeft P + 1) ∨
      (s.er.workLeft P = 1 ∧ s.er.blockCnt < P.blockCount ∧
        er.writeState = (true, s.er.writeCount, s.er.log.writes ++ [.passEnd]) ∧
        (er.blockCnt < P.blockCount → er.workLeft P = P.passWork er.blockCnt)) := by
  intro er
  obtain ⟨hw, hb, hle, heq⟩ := edgeInput_spec hrun h junk
  have hphase := (handOver_inv hrun (beforeHandOver_inv hrun h junk) junk).phase.requestTurn.1
  change InPhase P _ _ _ (s.edgeInput P junk) _ at hphase
  rcases hphase with ⟨b, d, her, -⟩ | ⟨her, -⟩
  · rcases her.outerProduct hrun junk with hidle | ⟨her', -, hr, hrem, hw'⟩ |
      ⟨hend, hone, hpos, hz, hw'⟩
    · left
      simp only [er, hidle]
      exact ⟨hw, hb, hle⟩
    · left
      have hblock : er.blockCnt = (s.edgeInput P junk).blockCnt := her'.block.trans her.block.symm
      refine ⟨hw'.trans hw, hblock.trans hb, ?_⟩
      change er.preRow = _ at hr
      change er.remainColNum + 1 = _ at hrem
      rw [← heq (by omega), EdgeReader.workLeft, EdgeReader.workLeft, hblock, hr]
      omega
    · right
      have hone' : (s.edgeInput P junk).workLeft P = 1 := by
        rw [EdgeReader.workLeft, hend, her.block, workAfter_blockEnd, hone]
      obtain ⟨hcount, hlog⟩ : (s.edgeInput P junk).writeCount = s.er.writeCount ∧
          (s.edgeInput P junk).log.writes = s.er.log.writes :=
        ⟨congrArg (·.2.1) hw, congrArg (·.2.2) hw⟩
      refine ⟨by rw [← heq (by omega), hone'], by rw [← hb, her.block]; exact her.reached.1,
        by rw [hw', hcount, hlog], fun hlt => ?_⟩
      rcases hpos with ⟨d', her', -, hr⟩ | ⟨-, -, -, her'⟩
      · rw [EdgeReader.workLeft, hz, hr, her'.block, passStart_eq her'.reached.1, passWork,
          Nat.zero_add]
      · exact absurd her'.block (by change er.blockCnt ≠ _; omega)
  · left
    simp only [er, her.outerProduct junk]
    exact ⟨hw, hb, hle⟩

/-- One iteration seen by the memory: the line that `Write` requests is added to the
outstanding result writes before the memory completes some of them. -/
theorem step_dram (hrun : P.RunOk) {s : State} (h : s.Inv P) (hended : s.ended = false)
    (env : Env) : ∃ d : Dram, (s.step P env).dram = d.updateCycle env.completed ∧
      d.totAxwCount = s.dram.totAxwCount ∧
      d.writesOut = s.dram.writesOut +
        if ((s.edgeInput P env.junk).outerProduct P env.junk).doWrite then 1 else 0 := by
  have hreply : (s.dramTurn.2.replyTurn P env.junk s.dramTurn.1).dram.writesOut =
        s.dram.writesOut ∧
      (s.dramTurn.2.replyTurn P env.junk s.dramTurn.1).dram.totAxwCount =
        s.dram.totAxwCount := by
    have hdram : s.dramTurn.2.dram.writesOut = s.dram.writesOut ∧
        s.dramTurn.2.dram.totAxwCount = s.dram.totAxwCount := by
      unfold dramTurn
      split
      · exact ⟨rfl, rfl⟩
      · split <;> exact ⟨rfl, rfl⟩
    unfold replyTurn
    split <;> exact hdram
  have hreplyInv := replyTurn_inv hrun h env.junk
  have hbefore : (s.beforeHandOver P env.junk).dram.writesOut = s.dram.writesOut ∧
      (s.beforeHandOver P env.junk).dram.totAxwCount = s.dram.totAxwCount :=
    ⟨(Dram.request_writesOut_reads _ hreplyInv.phase.vertexTurn.2).trans hreply.1, hreply.2⟩
  have hbeforeInv := beforeHandOver_inv hrun h env.junk
  have hhand : ((s.beforeHandOver P env.junk).handOver P env.junk).dram.writesOut =
        s.dram.writesOut ∧
      ((s.beforeHandOver P env.junk).handOver P env.junk).dram.totAxwCount =
        s.dram.totAxwCount := by
    unfold handOver
    split
    · rename_i hcan
      have hcan : (s.beforeHandOver P env.junk).er.canReceive = true := by
        simp only [canHandOver, Bool.and_eq_true] at hcan
        exact hcan.1.1
      have hts := (hbeforeInv.phase.handOver hrun hcan env.junk).2.1
      exact ⟨(Dram.request_writesOut_reads _ hts.reads).trans hbefore.1, hbefore.2⟩
    · exact hbefore
  have hhandInv := handOver_inv hrun hbeforeInv env.junk
  refine ⟨(((s.beforeHandOver P env.junk).handOver P env.junk).edgeTurn P env.junk).dram.addTransaction
    env.accepted, by simp only [step, hended, Bool.false_eq_true, if_false]; rfl, hhand.2, ?_⟩
  rw [Dram.addTransaction_writesOut, edgeTurn, Dram.request_writesOut,
    Dram.request_writesOut_reads _ hhandInv.phase.requestTurn.2, hhand.1,
    EdgeReader.write_requests]
  rfl

/-- No more lines are requested than the finished passes allow. -/
def Bounded (n : Nat) (ws : Bool × Nat × List WriteEvent) : Prop :=
  0 < ws.2.1 ∧ ws.2.1 ≤ n ∧
    ws.2.2.count .line + (if ws.1 then ws.2.1 else 0) ≤ n * ws.2.2.count .passEnd

theorem Bounded.passEnd {n : Nat} {er : EdgeReader} (h : Bounded n er.writeState) :
    Bounded n (true, er.writeCount, er.log.writes ++ [.passEnd]) := by
  obtain ⟨hpos, hle, hbound⟩ := h
  refine ⟨hpos, hle, ?_⟩
  simp only [EdgeReader.writeState] at hbound hle
  simp only [List.count_append, List.count_singleton, Nat.mul_add]
  simp only [reduceCtorEq, beq_iff_eq, if_false, if_true, Nat.mul_one, Nat.add_zero]
  have hline : er.log.writes.count .line ≤ n * er.log.writes.count .passEnd := by omega
  omega

theorem Bounded.write {er : EdgeReader} (h : Bounded P.writeLines er.writeState) :
    Bounded P.writeLines (er.write P).1.writeState := by
  rw [EdgeReader.write_writeState]
  split
  · rename_i hw
    obtain ⟨hpos, hle, hbound⟩ := h
    simp only [EdgeReader.writeState, hw, if_true] at hpos hle hbound
    split
    · refine ⟨P.writeLines_pos, le_rfl, ?_⟩
      simp only [List.count_append, List.count_singleton]
      simp
      omega
    · refine ⟨by simp only; omega, by simp only; omega, ?_⟩
      simp only [List.count_append, List.count_singleton]
      simp
      omega
  · exact h

/-- The accounts of the result writes: lines against passes, and lines against the counter
that the memory counts down. -/
structure Accounted (P : Params) (s : State) : Prop extends s.Inv P where
  bounded : Bounded P.writeLines s.er.writeState
  ledger : s.issued ≤ P.totAxwCount → s.dram.writesOut ≤ s.issued ∧
    s.dram.totAxwCount + s.issued = P.totAxwCount + s.dram.writesOut
  exit : s.ended = true → s.dram.totAxwCount = 0

theorem init_accounted (hrun : P.RunOk) : (init P).Accounted P where
  toInv := init_inv hrun
  bounded := by
    refine ⟨P.writeLines_pos, le_rfl, ?_⟩
    simp [init, EdgeReader.init, EdgeReader.writeState]
  ledger := fun _ => by
    simp [init, issued, EdgeReader.init, Dram.writesOut, Dram.request, VertexReader.requestF,
      readLine]
  exit := fun h => by simp [init] at h

/-- The line requested by `Write` is issued. -/
theorem step_issued (hrun : P.RunOk) {s : State} (h : s.Inv P) (hended : s.ended = false)
    (env : Env) : (s.step P env).issued = s.issued +
      if ((s.edgeInput P env.junk).outerProduct P env.junk).doWrite then 1 else 0 := by
  have hlog : ((s.edgeInput P env.junk).outerProduct P env.junk).log.writes.count .line =
      s.issued := by
    rcases step_work hrun h env.junk with ⟨hw, -, -⟩ | ⟨-, -, hw, -⟩
    · exact congrArg (·.2.2.count .line) hw
    · have hw : ((s.edgeInput P env.junk).outerProduct P env.junk).log.writes =
          s.er.log.writes ++ [.passEnd] := congrArg (·.2.2) hw
      simp [hw, issued, List.count_append]
  have hwrite := EdgeReader.write_writeState P
    ((s.edgeInput P env.junk).outerProduct P env.junk)
  have hlines := congrArg (·.2.2.count .line) hwrite
  rw [issued, step_er hended]
  change _ = _ at hlines
  simp only [EdgeReader.writeState] at hlines
  rw [hlines]
  split
  · split <;> simp [List.count_append, hlog]
  · exact hlog

theorem step_accounted (hrun : P.RunOk) (s : State) (env : Env) (h : s.Accounted P) :
    (s.step P env).Accounted P := by
  have hinv := step_inv hrun s env h.toInv
  by_cases hended : s.ended = true
  · have hstep : s.step P env = s := by rw [step, if_pos hended]
    rw [hstep]
    exact h
  · rw [Bool.not_eq_true] at hended
    refine ⟨hinv, ?_, ?_, ?_⟩
    · rw [step_er hended]
      apply Bounded.write
      rcases step_work hrun h.toInv env.junk with ⟨hw, -, -⟩ | ⟨-, -, hw, -⟩
      · rw [hw]
        exact h.bounded
      · rw [hw]
        exact h.bounded.passEnd
    · intro hle
      obtain ⟨d, hd, htot, hout⟩ := step_dram hrun h.toInv hended env
      have hissued := step_issued hrun h.toInv hended env
      have hledger := h.ledger (by omega)
      have hupdate := d.updateCycle_writesOut env.completed (by omega)
      rw [hd]
      omega
    · intro hexit
      simp only [step, hended, Bool.false_eq_true, if_false, cycleEnd, decide_eq_true_eq] at hexit ⊢
      exact hexit.1

/-- The accounts hold in every state of every run. -/
theorem run_accounted (hrun : P.RunOk) (envs : List Env) : (run P envs).Accounted P :=
  Transition.run_invariant (step_accounted hrun) (init_accounted hrun) envs

/-- With `w_w` at least two no more passes end than there are. -/
theorem Inv.passEnds_le {s : State} (h : s.Inv P) (hw : 2 ≤ P.wW) :
    s.passEnds ≤ P.wW * P.blockCount := by
  rw [passEnds, h.passes]
  rcases h.phase with ⟨b, d, her, -⟩ | ⟨her, -⟩
  · have hfold := her.fold hw
    have hb := Nat.mul_le_mul_right P.wW (Nat.succ_le_of_lt her.reached.1)
    rw [Nat.succ_mul] at hb
    rw [her.block, Nat.mul_comm P.wW]
    omega
  · rw [her.block, her.pass, Nat.mul_comm P.wW]
    omega

theorem Accounted.issued_le_passEnds {s : State} (h : s.Accounted P) :
    s.issued ≤ P.writeLines * s.passEnds := by
  have hb := h.bounded.2.2
  simp only [EdgeReader.writeState] at hb
  exact (Nat.le_add_right _ _).trans hb

/-- When the loop is left, every pass has ended, unless `tot_axw_count` was rounded down by the
lines of a pass. -/
theorem Accounted.passEnds_ge {s : State} (h : s.Accounted P)
    (hcount : P.writeLines * (P.wW * P.blockCount - 1) < P.totAxwCount)
    (hended : s.ended = true) : P.wW * P.blockCount ≤ s.passEnds := by
  have hissued : P.totAxwCount ≤ s.issued := by
    by_contra hlt
    have := h.ledger (by omega)
    have := h.exit hended
    omega
  have hlt := Nat.lt_of_mul_lt_mul_left
    (hcount.trans_le (hissued.trans h.issued_le_passEnds))
  omega

/-- With `w_w` at least two no line is requested on top of those that all passes write. -/
theorem Accounted.issued_le {s : State} (h : s.Accounted P) (hw : 2 ≤ P.wW) :
    s.issued ≤ P.axwLines := by
  rw [axwLines_eq]
  exact h.issued_le_passEnds.trans (Nat.mul_le_mul_left _ (h.toInv.passEnds_le hw))

section Episodes

/-- `k` finished passes, each followed by `n` lines of its own. -/
def episodes (n k : Nat) : List WriteEvent :=
  (List.replicate k (.passEnd :: List.replicate n .line)).flatten

theorem episodes_succ (n k : Nat) :
    episodes n (k + 1) = episodes n k ++ .passEnd :: List.replicate n .line := by
  simp [episodes, List.replicate_succ']

theorem length_episodes (n k : Nat) : (episodes n k).length = (n + 1) * k := by
  simp [episodes, Nat.mul_comm]

/-- The write history consists of whole episodes and the one being drained. -/
def InEpisode (n : Nat) (ws : Bool × Nat × List WriteEvent) : Prop :=
  (ws.1 = false → ws.2.1 = n) ∧ ∃ k, ws.2.2 = episodes n k ++
    if ws.1 then .passEnd :: List.replicate (n - ws.2.1) .line else []

theorem InEpisode.passEnd {n : Nat} {er : EdgeReader} (h : InEpisode n er.writeState)
    (hw : er.doWrite = false) :
    InEpisode n (true, er.writeCount, er.log.writes ++ [.passEnd]) := by
  obtain ⟨hrest, k, hlog⟩ := h
  simp only [EdgeReader.writeState, hw, Bool.false_eq_true, if_false, List.append_nil,
    forall_const] at hrest hlog
  exact ⟨fun hc => by simp at hc, k, by simp [hlog, hrest]⟩

theorem InEpisode.write {er : EdgeReader} (h : InEpisode P.writeLines er.writeState)
    (hb : Bounded P.writeLines er.writeState) :
    InEpisode P.writeLines (er.write P).1.writeState := by
  rw [EdgeReader.write_writeState]
  split
  · rename_i hw
    obtain ⟨-, k, hlog⟩ := h
    obtain ⟨hpos, hle, -⟩ := hb
    simp only [EdgeReader.writeState, hw, if_true] at hlog hpos hle
    split
    · refine ⟨fun _ => rfl, k + 1, ?_⟩
      have hall : P.writeLines = P.writeLines - er.writeCount + 1 := by omega
      rw [episodes_succ, hlog]
      conv_rhs => rw [hall, List.replicate_succ']
      simp [← hall]
    · refine ⟨fun hc => by simp at hc, k, ?_⟩
      rw [hlog, show P.writeLines - (er.writeCount - 1) = P.writeLines - er.writeCount + 1
        by omega, List.replicate_succ']
      simp
  · exact h

/-- No episode is lost: the line counter of the current episode is ahead of the pass. -/
structure Drained (P : Params) (s : State) : Prop extends s.Accounted P where
  episode : InEpisode P.writeLines s.er.writeState
  slack : s.er.doWrite = true → s.er.blockCnt < P.blockCount →
    s.er.writeCount < s.er.workLeft P

theorem init_drained (hrun : P.RunOk) : (init P).Drained P where
  toAccounted := init_accounted hrun
  episode := ⟨fun _ => rfl, 0, rfl⟩
  slack := fun h => by simp [init, EdgeReader.init] at h

/-- The pass that ends in this iteration finds `do_write` clear. -/
theorem Drained.doWrite_eq_false {s : State} (h : s.Drained P) (hone : s.er.workLeft P = 1)
    (hb : s.er.blockCnt < P.blockCount) : s.er.doWrite = false := by
  by_contra hw
  rw [Bool.not_eq_false] at hw
  have hslack := h.slack hw hb
  have hpos : 0 < s.er.writeCount := h.bounded.1
  omega

theorem step_drained (hrun : P.RunOk) (hlong : ∀ b < P.blockCount, P.writeLines ≤ P.passWork b)
    (s : State) (env : Env) (h : s.Drained P) : (s.step P env).Drained P := by
  have hacc := step_accounted hrun s env h.toAccounted
  by_cases hended : s.ended = true
  · have hstep : s.step P env = s := by rw [step, if_pos hended]
    rw [hstep]
    exact h
  rw [Bool.not_eq_true] at hended
  have her := step_er (P := P) hended env
  set er := (s.edgeInput P env.junk).outerProduct P env.junk with hdef
  have hwork : (s.step P env).er.workLeft P = er.workLeft P ∧
      (s.step P env).er.blockCnt = er.blockCnt := by
    rw [her]
    exact EdgeReader.write_workLeft P er
  have hstate : (s.step P env).er.writeState = (er.write P).1.writeState := by rw [her]
  have hcount : 0 < s.er.writeCount := h.bounded.1
  have hdown : (s.step P env).er.doWrite = true →
      er.doWrite = true ∧ (s.step P env).er.writeCount = er.writeCount - 1 := by
    rw [her]
    exact EdgeReader.write_of_doWrite P er
  rcases step_work hrun h.toInv env.junk with ⟨hw, hb, hle⟩ | ⟨hone, hb, hw, hnext⟩
  · refine ⟨hacc, ?_, fun hflag hlt => ?_⟩
    · rw [hstate]
      exact InEpisode.write (by rw [hw]; exact h.episode) (by rw [hw]; exact h.bounded)
    · obtain ⟨hset, hnum⟩ := hdown hflag
      have hset' : s.er.doWrite = true := (congrArg (·.1) hw).symm.trans hset
      have hnum' : er.writeCount = s.er.writeCount := congrArg (·.2.1) hw
      have hslack := h.slack hset' (by rw [← hb, ← hwork.2]; exact hlt)
      rw [hwork.1, hnum, hnum']
      change s.er.workLeft P ≤ er.workLeft P + 1 at hle
      omega
  · have hclear := h.doWrite_eq_false hone hb
    refine ⟨hacc, ?_, fun hflag hlt => ?_⟩
    · rw [hstate]
      exact InEpisode.write (by rw [hw]; exact h.episode.passEnd hclear)
        (by rw [hw]; exact h.bounded.passEnd)
    · obtain ⟨-, hnum⟩ := hdown hflag
      have hnum' : er.writeCount = s.er.writeCount := congrArg (·.2.1) hw
      have hfull : s.er.writeCount = P.writeLines := h.episode.1 hclear
      rw [hwork.2] at hlt
      have hpass := hlong er.blockCnt hlt
      have hnew : er.workLeft P = P.passWork er.blockCnt := hnext hlt
      rw [hwork.1, hnum, hnum', hfull, hnew]
      omega

/-- No episode is lost in any run. -/
theorem run_drained (hrun : P.RunOk) (hlong : ∀ b < P.blockCount, P.writeLines ≤ P.passWork b)
    (envs : List Env) : (run P envs).Drained P :=
  Transition.run_invariant (step_drained hrun hlong) (init_drained hrun) envs

/-- The accounting of the result writes in every run, if every pass takes at least as many
iterations as an episode has lines and a `double` can hold the number of all lines: every
finished pass is followed by an episode of its own, the counter is the lines not yet completed
and never wraps, and when the loop is left exactly `tot_axw_count` lines were requested. -/
theorem writes_accounted (P : Params) (hrun : P.RunOk) (hw : 2 ≤ P.wW)
    (hlong : ∀ b < P.blockCount, P.writeLines ≤ P.passWork b) (h64 : P.axwLines < u64Size)
    (hrep : Rounding.Representable 53 P.axwLines) (envs : List Env) :
    (∃ k, (run P envs).er.log.writes = episodes P.writeLines k ++
        if (run P envs).er.doWrite then
          .passEnd :: List.replicate (P.writeLines - (run P envs).er.writeCount) .line
        else []) ∧
      (run P envs).dram.totAxwCount + ((run P envs).issued - (run P envs).dram.writesOut) =
        P.totAxwCount ∧
      (run P envs).dram.writesOut ≤ (run P envs).issued ∧
      ((run P envs).ended = true → (run P envs).issued = P.totAxwCount) ∧
      P.totAxwCount = P.writeLines * P.wW * P.blockCount := by
  have h := run_drained hrun hlong envs
  have hcount := totAxwCount_eq_axwLines h64 hrep
  have hle : (run P envs).issued ≤ P.totAxwCount := hcount ▸ h.toAccounted.issued_le hw
  have hledger := h.ledger hle
  refine ⟨h.episode.2, by omega, hledger.1, fun hended => ?_, hcount⟩
  have hzero := h.exit hended
  omega

theorem writes_accounted_twoBlocks : twoBlocks.RunOk ∧ 2 ≤ twoBlocks.wW ∧
    (∀ b < twoBlocks.blockCount, twoBlocks.writeLines ≤ twoBlocks.passWork b) ∧
    (run twoBlocks (List.replicate 20 fastMemory)).ended = true ∧
    (run twoBlocks (List.replicate 20 fastMemory)).issued = twoBlocks.totAxwCount ∧
    twoBlocks.totAxwCount = 6 := by
  have hrun : twoBlocks.RunOk := by decide +kernel
  have hlong : ∀ b < twoBlocks.blockCount, twoBlocks.writeLines ≤ twoBlocks.passWork b := by
    decide +kernel
  have hended : (run twoBlocks (List.replicate 20 fastMemory)).ended = true := by decide +kernel
  have hlt : twoBlocks.axwLines < 2 ^ 53 := by decide +kernel
  have hall := writes_accounted twoBlocks hrun (by decide) hlong
    (hlt.trans (by decide)) (Rounding.representable_of_lt hlt) (List.replicate 20 fastMemory)
  exact ⟨hrun, by decide, hlong, hended, hall.2.2.2.1 hended, hall.2.2.2.2⟩

/-- Four result lines for each pass, but passes of two iterations. -/
def shortPasses : Params := { twoBlocks with
  cacheLineCount := 1
  wW := 2
  cacheLineCount_pos := Nat.one_pos
  wW_pos := Nat.two_pos }

/-- The second pass ends after two of the four lines of the first one; its own episode is
absorbed. -/
theorem shortPasses_absorbed : ¬ ∃ k,
    (run shortPasses (List.replicate 10 fastMemory)).er.log.writes =
      episodes shortPasses.writeLines k ++
        if (run shortPasses (List.replicate 10 fastMemory)).er.doWrite then
          .passEnd :: List.replicate (shortPasses.writeLines -
            (run shortPasses (List.replicate 10 fastMemory)).er.writeCount) .line
        else [] := by
  have hlog : (run shortPasses (List.replicate 10 fastMemory)).er.log.writes =
      [.passEnd, .line, .line, .passEnd, .line] := by decide +kernel
  have hset : (run shortPasses (List.replicate 10 fastMemory)).er.doWrite = true ∧
      (run shortPasses (List.replicate 10 fastMemory)).er.writeCount = 1 ∧
      shortPasses.writeLines = 4 := by decide +kernel
  rintro ⟨k, hk⟩
  rw [hlog, hset.1, hset.2.1, hset.2.2, if_pos rfl] at hk
  have hlen := congrArg List.length hk
  rw [List.length_append, length_episodes] at hlen
  simp only [List.length_cons, List.length_nil, List.length_replicate] at hlen
  omega

end Episodes

end State

end GcnSim
