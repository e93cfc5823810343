import GcnSim.Reader.FeatureCount
import GcnSim.Reader.VertexStream

/-!
# Feature lines of a vertex reader

A vertex reader on its own, whatever it receives and whenever it is called. Every call of
`TransferData` that takes a row does the `pop_count` steps, so the feature lines that a
finished pass has requested are those of its shape, and every pass of every block is
finished in some use of the reader.
-/

namespace GcnSim

open Params

namespace VertexReader

variable {P : Params}

/-- The `pop_count` steps are those of the count. -/
theorem countPop_popStep (P : Params) (vr : VertexReader) :
    (countPop P vr).1.popCount = (P.popStep vr.preRow vr.popCount).1 ∧
      (countPop P vr).2.length = (P.popStep vr.preRow vr.popCount).2 := by
  refine ⟨rfl, ?_⟩
  by_cases h : vr.popCount + 1 = P.cacheLineCount - 1 ∨ vr.preRow = P.aH - 1
  · simp only [countPop, popStep, if_pos h]
    rfl
  · simp only [countPop, popStep, if_neg h]
    rfl

end VertexReader

/-- The reader has taken `k` rows in pass `p` over block `b`. -/
structure RowsAt (P : Params) (b p k : Nat) (vr : VertexReader) : Prop where
  pass : vr.xRepeat = p
  archive : vr.preRowArchive = P.blockStart b
  row : vr.preRow = P.blockStart b + k
  idx : vr.vCacheIdx = if p = 0 then 0 else k

/-- A call of `TransferData` takes a row. -/
def VertexReader.Takes (vr : VertexReader) : Prop :=
  vr.vq ≠ [] ∧ vr.xRepeat = 0 ∨ vr.vq = [] ∧ 0 < vr.xRepeat

/-- Without a row to take nothing changes. -/
theorem VertexReader.transferData_of_not_takes {vr : VertexReader} (h : ¬ vr.Takes) (P : Params)
    (junk : Junk) : vr.transferData P junk = (sentinel, vr, []) := by
  rw [Takes, not_or] at h
  rw [transferData, if_neg h.1, if_neg h.2]

/-- What taking row `k + 1` of a pass leads to: the next row, the next pass, or the next
block. -/
def NextRows (P : Params) (b p k : Nat) (vr : VertexReader) : Prop :=
  k + 1 < P.rows b ∧ RowsAt P b p (k + 1) vr ∨
  k + 1 = P.rows b ∧ p + 1 < P.wW ∧ RowsAt P b (p + 1) 0 vr ∨
  k + 1 = P.rows b ∧ p + 1 = P.wW ∧ vr.xRepeat = 0 ∧
    (b + 1 < P.blockCount → RowsAt P (b + 1) 0 0 vr)

/-- The result of a call that took row `k + 1` of a pass. -/
structure Taken (P : Params) (b p k : Nat) (vr : VertexReader)
    (r : Nat × VertexReader × List Transaction) : Prop where
  count : r.2.1.popCount = (P.popStep (P.blockStart b + k + 1) vr.popCount).1
  requests : r.2.2.length = (P.popStep (P.blockStart b + k + 1) vr.popCount).2
  vq : r.2.1.vq = vr.vq.tail
  next : NextRows P b p k r.2.1

namespace RowsAt

variable {P : Params} {b p k : Nat} {vr : VertexReader}

/-- A row taken from `vq`. -/
theorem transferData_first (h : RowsAt P b 0 k vr) (hk : k < P.rows b)
    (hw : 2 ≤ P.wW) (hq : vr.vq ≠ []) (junk : Junk) :
    Taken P b 0 k vr (vr.transferData P junk) := by
  obtain ⟨x, xs, hxs⟩ := List.exists_cons_of_ne_nil hq
  obtain ⟨hcount, hlen⟩ := VertexReader.countPop_popStep P { vr with
    preRow := vr.preRow + 1, vCache := vr.vCache ++ [x], vq := xs, port := vr.port.release }
  obtain ⟨popCount, reqFLine, fFlag, hframe⟩ := VertexReader.countPop_frame P { vr with
    preRow := vr.preRow + 1, vCache := vr.vCache ++ [x], vq := xs, port := vr.port.release }
  have hstep : P.popStep (vr.preRow + 1) vr.popCount =
      P.popStep (P.blockStart b + k + 1) vr.popCount := by rw [h.row]
  replace hlen := hlen.trans (congrArg Prod.snd hstep)
  replace hcount := hcount.trans (congrArg Prod.fst hstep)
  rw [hframe] at hcount
  rw [rows] at hk
  have htest : ((vr.preRow + 1) % P.maxV = 0 ∨ vr.preRow + 1 = P.aH) ↔
      P.blockStart b + k + 1 = P.blockEnd b := by
    rw [h.row]
    exact blockEnd_test (by omega) (by omega)
  rw [VertexReader.transferData, if_pos ⟨hq, h.pass⟩]
  simp only [hxs, popFront_cons, List.append_nil, hframe, htest]
  by_cases hend : P.blockStart b + k + 1 = P.blockEnd b
  · rw [if_pos hend]
    refine ⟨hcount, hlen, by rw [hxs, List.tail_cons], .inr (.inl ⟨?_, hw, ?_⟩)⟩
    · rw [rows]
      omega
    · exact ⟨congrArg Nat.succ h.pass, h.archive, h.archive, h.idx⟩
  · rw [if_neg hend]
    refine ⟨hcount, hlen, by rw [hxs, List.tail_cons], .inl ⟨?_, ?_⟩⟩
    · rw [rows]
      omega
    · exact ⟨h.pass, h.archive, congrArg Nat.succ h.row, h.idx⟩

/-- A row taken from `v_cache`. -/
theorem transferData_replay (h : RowsAt P b p k vr) (hk : k < P.rows b)
    (hp : p < P.wW) (hpos : 0 < p) (hq : vr.vq = []) (junk : Junk) :
    Taken P b p k vr (vr.transferData P junk) := by
  have hidx : vr.vCacheIdx = k := by rw [h.idx, if_neg (by omega)]
  obtain ⟨hcount, hlen⟩ := VertexReader.countPop_popStep P { vr with
    preRow := vr.preRow + 1, vCacheIdx := vr.vCacheIdx + 1
    faults := vr.faults ++ (readAt .vCache junk vr.vCache vr.vCacheIdx).2 }
  obtain ⟨popCount, reqFLine, fFlag, hframe⟩ := VertexReader.countPop_frame P { vr with
    preRow := vr.preRow + 1, vCacheIdx := vr.vCacheIdx + 1
    faults := vr.faults ++ (readAt .vCache junk vr.vCache vr.vCacheIdx).2 }
  have hstep : P.popStep (vr.preRow + 1) vr.popCount =
      P.popStep (P.blockStart b + k + 1) vr.popCount := by rw [h.row]
  replace hlen := hlen.trans (congrArg Prod.snd hstep)
  replace hcount := hcount.trans (congrArg Prod.fst hstep)
  rw [hframe] at hcount
  have hrow := h.row
  have hmin := P.blockEnd_eq_min b
  rw [rows] at hk
  have hcond : (vr.vCacheIdx + 1 = P.maxV ∨ vr.preRow + 1 = P.aH) ↔
      P.blockStart b + k + 1 = P.blockEnd b := by omega
  have hxpos : 0 < vr.xRepeat := by rw [h.pass]; exact hpos
  rw [VertexReader.transferData, if_neg (fun hc => hc.1 hq), if_pos ⟨hq, hxpos⟩]
  simp only [hframe, hcond]
  by_cases hend : P.blockStart b + k + 1 = P.blockEnd b
  · have hrows : k + 1 = P.rows b := by
      rw [rows]
      omega
    rw [if_pos hend]
    by_cases hlast : vr.xRepeat = P.wW - 1
    · rw [if_neg (not_not_intro hlast)]
      rw [h.pass] at hlast
      refine ⟨hcount, hlen, by simp [VertexReader.nextBlock, hq],
        .inr (.inr ⟨hrows, by omega, rfl, fun hnext => ?_⟩)⟩
      have hs : vr.preRow + 1 = P.blockStart (b + 1) := by
        have := blockEnd_eq_blockStart_succ hnext
        omega
      exact ⟨rfl, hs, hs, rfl⟩
    · rw [if_pos hlast]
      rw [h.pass] at hlast
      refine ⟨hcount, hlen, by rw [hq]; rfl, .inr (.inl ⟨hrows, by omega, ?_⟩)⟩
      exact ⟨congrArg Nat.succ h.pass, h.archive, h.archive, rfl⟩
  · rw [if_neg hend]
    refine ⟨hcount, hlen, by rw [hq]; rfl, .inl ⟨?_, ?_⟩⟩
    · rw [rows]
      omega
    · refine ⟨h.pass, h.archive, congrArg Nat.succ h.row, ?_⟩
      change vr.vCacheIdx + 1 = _
      rw [hidx, if_neg (by omega)]

/-- Every call that takes a row takes the next row of the pass. -/
theorem transferData (h : RowsAt P b p k vr) (hk : k < P.rows b)
    (hp : p < P.wW) (hw : 2 ≤ P.wW) (htakes : vr.Takes) (junk : Junk) :
    Taken P b p k vr (vr.transferData P junk) := by
  rcases htakes with ⟨hq, hx⟩ | ⟨hq, hx⟩
  · obtain rfl : p = 0 := h.pass.symm.trans hx
    exact h.transferData_first hk hw hq junk
  · exact h.transferData_replay hk hp (h.pass ▸ hx) hq junk

end RowsAt

/-- A call of a method of the vertex reader. -/
inductive ReaderCall where
  | receiveData (data : List Nat)
  | requestTurn
  | transferData (junk : Junk)

/-- A finished pass over a block and the `RequestF` calls it made. -/
structure PassEvent where
  block : Nat
  pass : Nat
  requests : Nat
  deriving DecidableEq, Repr

/-- A vertex reader with its history: the block it is in, the `RequestF` calls of the current
pass, and the finished passes. -/
structure PassSystem where
  vr : VertexReader
  block : Nat
  requests : Nat
  passes : List PassEvent
  deriving DecidableEq, Repr

namespace PassSystem

variable (P : Params)

/-- A constructed reader. -/
def init : PassSystem := ⟨.init P, 0, 0, []⟩

/-- One call. A pass ends where `x_repeat` changes, a block where it falls back to `0`. -/
def step (s : PassSystem) : ReaderCall → PassSystem
  | .receiveData data => { s with vr := s.vr.receiveData data }
  | .requestTurn => { s with vr := (s.vr.requestTurn P).1 }
  | .transferData junk =>
    let r := s.vr.transferData P junk
    let requests := s.requests + r.2.2.length
    if r.2.1.xRepeat = s.vr.xRepeat then { s with vr := r.2.1, requests := requests }
    else
      { vr := r.2.1
        block := if r.2.1.xRepeat = 0 then s.block + 1 else s.block
        requests := 0
        passes := s.passes ++ [⟨s.block, s.vr.xRepeat, requests⟩] }

/-- The reader after a list of calls. -/
def run (calls : List ReaderCall) : PassSystem := Transition.run (step P) (init P) calls

variable {P}

theorem block_le_step (s : PassSystem) (call : ReaderCall) : s.block ≤ (step P s call).block := by
  cases call with
  | receiveData data => exact le_rfl
  | requestTurn => exact le_rfl
  | transferData junk =>
    simp only [step]
    split
    · exact le_rfl
    · dsimp only
      split
      · exact Nat.le_succ _
      · exact le_rfl

/-- A call logs at most a pass over the current block. -/
theorem mem_passes_step {s : PassSystem} {call : ReaderCall} {e : PassEvent}
    (he : e ∈ (step P s call).passes) : e ∈ s.passes ∨ e.block = s.block := by
  cases call with
  | receiveData data => exact .inl he
  | requestTurn => exact .inl he
  | transferData junk =>
    simp only [step] at he
    split at he
    · exact .inl he
    · rcases List.mem_append.mp he with he | he
      · exact .inl he
      · rw [List.mem_singleton.mp he]
        exact .inr rfl

end PassSystem

/-- The reader has taken `k` rows in pass `p` over block `b`, with the count and the requests
of its shape. -/
structure PassAt (P : Params) (b p k : Nat) (s : PassSystem) : Prop where
  block : s.block = b
  rows : RowsAt P b p k s.vr
  lt : k < P.rows b
  pass_lt : p < P.wW
  count : s.vr.popCount = (P.walk (P.passCountStart b p) (P.blockStart b) k).1
  requests : s.requests = (P.walk (P.passCountStart b p) (P.blockStart b) k).2

/-- Pass `p` over block `b` has ended: it is logged, and the next one begins. -/
structure PassEnd (P : Params) (b p : Nat) (s s' : PassSystem) : Prop where
  passes : s'.passes = s.passes ++ [⟨b, p, P.passRequests b p⟩]
  next : p + 1 < P.wW ∧ PassAt P b (p + 1) 0 s' ∨
    p + 1 = P.wW ∧ s'.block = b + 1 ∧ (b + 1 < P.blockCount → PassAt P (b + 1) 0 0 s')

namespace PassAt

variable {P : Params} {b p k : Nat} {s : PassSystem}

/-- The start of a pass. -/
theorem start (hblock : s.block = b) (hrows : RowsAt P b p 0 s.vr) (hb : b < P.blockCount)
    (hp : p < P.wW) (hcount : s.vr.popCount = P.passCountStart b p) (hrequests : s.requests = 0) :
    PassAt P b p 0 s :=
  ⟨hblock, hrows, rows_pos hb, hp, hcount, hrequests⟩

/-- A call that takes a row leads to the next row or ends the pass. -/
theorem step (h : PassAt P b p k s) (hb : b < P.blockCount) (hw : 2 ≤ P.wW)
    (htakes : s.vr.Takes) (junk : Junk) :
    (s.step P (.transferData junk)).vr.vq = s.vr.vq.tail ∧
    (k + 1 < P.rows b ∧ (s.step P (.transferData junk)).passes = s.passes ∧
        PassAt P b p (k + 1) (s.step P (.transferData junk)) ∨
      k + 1 = P.rows b ∧ PassEnd P b p s (s.step P (.transferData junk))) := by
  have htaken := h.rows.transferData h.lt h.pass_lt hw htakes junk
  have hcount : (s.vr.transferData P junk).2.1.popCount =
      (P.walk (P.passCountStart b p) (P.blockStart b) (k + 1)).1 := by
    rw [htaken.count, walk, h.count]
  have hrequests : s.requests + (s.vr.transferData P junk).2.2.length =
      (P.walk (P.passCountStart b p) (P.blockStart b) (k + 1)).2 := by
    rw [htaken.requests, walk, ← h.count, h.requests]
  have hvq : (s.step P (.transferData junk)).vr.vq = s.vr.vq.tail := by
    simp only [PassSystem.step]
    split <;> exact htaken.vq
  refine ⟨hvq, ?_⟩
  rcases htaken.next with ⟨hlt, hnext⟩ | ⟨hend, hp, hnext⟩ | ⟨hend, hp, hzero, hnext⟩
  · have hstep : s.step P (.transferData junk) = { s with
        vr := (s.vr.transferData P junk).2.1
        requests := s.requests + (s.vr.transferData P junk).2.2.length } := by
      simp only [PassSystem.step, if_pos (hnext.pass.trans h.rows.pass.symm)]
    rw [hstep]
    exact .inl ⟨hlt, rfl, h.block, hnext, hlt, h.pass_lt, hcount, hrequests⟩
  · have hne : (s.vr.transferData P junk).2.1.xRepeat ≠ p := by
      rw [hnext.pass]
      omega
    have hmore : (s.vr.transferData P junk).2.1.xRepeat ≠ 0 := by
      rw [hnext.pass]
      omega
    rw [hend] at hcount hrequests
    simp only [PassSystem.step, if_neg hne, if_neg hmore, hrequests, h.block, h.rows.pass]
    exact .inr ⟨hend, rfl, .inl ⟨hp, start rfl hnext hb hp hcount rfl⟩⟩
  · have hne : (s.vr.transferData P junk).2.1.xRepeat ≠ p := by
      rw [hzero]
      omega
    rw [hend] at hcount hrequests
    simp only [PassSystem.step, if_neg hne, if_pos hzero, hrequests, h.block, h.rows.pass]
    refine .inr ⟨hend, rfl, .inr ⟨hp, rfl, fun hb' => ?_⟩⟩
    refine start rfl (hnext hb') hb' P.wW_pos ?_ rfl
    rw [passCountStart_zero, blockCountStart_succ, ← hp, passCountStart_succ]
    exact hcount

/-- What a reader receives does not matter. -/
theorem receiveData (h : PassAt P b p k s) (data : List Nat) :
    PassAt P b p k (s.step P (.receiveData data)) :=
  ⟨h.block, ⟨h.rows.pass, h.rows.archive, h.rows.row, h.rows.idx⟩, h.lt, h.pass_lt, h.count,
    h.requests⟩

/-- What a reader requests does not matter. -/
theorem requestTurn (h : PassAt P b p k s) : PassAt P b p k (s.step P .requestTurn) :=
  ⟨h.block, ⟨h.rows.pass, h.rows.archive, h.rows.row, h.rows.idx⟩, h.lt, h.pass_lt, h.count,
    h.requests⟩

/-- A call that takes no row changes nothing. -/
theorem step_of_not_takes {s : PassSystem} (h : ¬ s.vr.Takes) (junk : Junk) :
    s.step P (.transferData junk) = s := by
  simp only [PassSystem.step, VertexReader.transferData_of_not_takes h, if_true, List.length_nil,
    Nat.add_zero]

end PassAt

namespace PassSystem

variable {P : Params} {s : PassSystem}

/-- The reader is in its pass, and the logged passes have the requests of their shape. -/
structure Inv (P : Params) (s : PassSystem) : Prop where
  at_pass : s.block < P.blockCount → ∃ p k, PassAt P s.block p k s
  logged : ∀ e ∈ s.passes, e.block < P.blockCount →
    e.pass < P.wW ∧ e.requests = P.passRequests e.block e.pass

/-- A constructed reader begins with the first pass over the first block. -/
theorem init_passAt (P : Params) : PassAt P 0 0 0 (init P) :=
  PassAt.start rfl ⟨rfl, P.blockStart_zero.symm, P.blockStart_zero.symm, rfl⟩ P.blockCount_pos
    P.wW_pos rfl rfl

theorem init_inv (P : Params) : (init P).Inv P :=
  ⟨fun _ => ⟨0, 0, init_passAt P⟩, fun _ he => (List.not_mem_nil he).elim⟩

/-- Every call keeps the requests to their shape. -/
theorem step_inv (hw : 2 ≤ P.wW) (s : PassSystem) (call : ReaderCall) (h : s.Inv P) :
    (step P s call).Inv P := by
  cases call with
  | receiveData data =>
    refine ⟨fun hb => ?_, h.logged⟩
    obtain ⟨p, k, hat⟩ := h.at_pass hb
    exact ⟨p, k, hat.receiveData data⟩
  | requestTurn =>
    refine ⟨fun hb => ?_, h.logged⟩
    obtain ⟨p, k, hat⟩ := h.at_pass hb
    exact ⟨p, k, hat.requestTurn⟩
  | transferData junk =>
    by_cases htakes : s.vr.Takes
    · by_cases hb : s.block < P.blockCount
      · obtain ⟨p, k, hat⟩ := h.at_pass hb
        rcases (hat.step hb hw htakes junk).2 with ⟨-, hpasses, hnext⟩ | ⟨-, hend⟩
        · refine ⟨fun _ => ⟨p, k + 1, ?_⟩, hpasses ▸ h.logged⟩
          rw [hnext.block]
          exact hnext
        · refine ⟨fun hb' => ?_, ?_⟩
          · rcases hend.next with ⟨-, hnext⟩ | ⟨-, hblock, hnext⟩
            · refine ⟨p + 1, 0, ?_⟩
              rw [hnext.block]
              exact hnext
            · rw [hblock] at hb' ⊢
              exact ⟨0, 0, hnext hb'⟩
          · rw [hend.passes]
            intro e he
            rcases List.mem_append.mp he with he | he
            · exact h.logged e he
            · rw [List.mem_singleton.mp he]
              exact fun _ => ⟨hat.pass_lt, rfl⟩
      · refine ⟨fun hb' => absurd ((block_le_step s _).trans_lt hb') hb, fun e he he' => ?_⟩
        rcases mem_passes_step he with hold | hnew
        · exact h.logged e hold he'
        · exact absurd (hnew ▸ he') hb
    · rw [PassAt.step_of_not_takes htakes]
      exact h

theorem run_inv (hw : 2 ≤ P.wW) (calls : List ReaderCall) : (run P calls).Inv P :=
  Transition.run_invariant (step_inv hw) (init_inv P) calls

/-- As many calls as rows are left finish a pass whose rows are there. -/
theorem run_transfers (hw : 2 ≤ P.wW) {b p : Nat} (hb : b < P.blockCount) (n : Nat) :
    ∀ {k : Nat} {s : PassSystem}, PassAt P b p k s → k + (n + 1) = P.rows b →
      (if p = 0 then s.vr.vq.length = n + 1 else s.vr.vq = []) →
      (Transition.run (step P) s
          (List.replicate (n + 1) (.transferData fun _ => 0))).vr.vq = [] ∧
        PassEnd P b p s (Transition.run (step P) s
          (List.replicate (n + 1) (.transferData fun _ => 0))) := by
  have htakes : ∀ {n k : Nat} {s : PassSystem}, PassAt P b p k s →
      (if p = 0 then s.vr.vq.length = n + 1 else s.vr.vq = []) → s.vr.Takes := by
    intro n k s hat hvq
    rw [VertexReader.Takes, hat.rows.pass]
    split at hvq
    · rename_i hp
      exact .inl ⟨List.ne_nil_of_length_eq_add_one hvq, hp⟩
    · rename_i hp
      exact .inr ⟨hvq, Nat.pos_of_ne_zero hp⟩
  induction n with
  | zero =>
    intro k s hat hk hvq
    obtain ⟨htail, hcase⟩ := hat.step hb hw (htakes hat hvq) fun _ => 0
    rcases hcase with ⟨hlt, -, -⟩ | ⟨-, hend⟩
    · omega
    · refine ⟨?_, hend⟩
      have hnil : s.vr.vq.tail = [] := by
        split at hvq
        · exact List.eq_nil_of_length_eq_zero (by rw [List.length_tail, hvq])
        · rw [hvq, List.tail_nil]
      exact htail.trans hnil
  | succ n ih =>
    intro k s hat hk hvq
    obtain ⟨htail, hcase⟩ := hat.step hb hw (htakes hat hvq) fun _ => 0
    rcases hcase with ⟨-, hpasses, hnext⟩ | ⟨hlast, -⟩
    · have hleft : if p = 0 then (s.step P (.transferData fun _ => 0)).vr.vq.length = n + 1
          else (s.step P (.transferData fun _ => 0)).vr.vq = [] := by
        rw [htail]
        split at hvq
        · rename_i hp
          rw [if_pos hp, List.length_tail, hvq]
          rfl
        · rename_i hp
          rw [if_neg hp, hvq, List.tail_nil]
      obtain ⟨hnil, hend⟩ := ih hnext (by omega) hleft
      rw [List.replicate_succ, Transition.run_cons]
      exact ⟨hnil, hend.passes.trans (by rw [hpasses]), hend.next⟩
    · omega

/-- A pass that begins can be finished: a first pass with rows that are received now, a later
one with those in `v_cache`. -/
theorem exists_passEnd (hw : 2 ≤ P.wW) {b p : Nat} (hb : b < P.blockCount)
    (hat : PassAt P b p 0 s) (hvq : s.vr.vq = []) : ∃ calls,
      (Transition.run (step P) s calls).vr.vq = [] ∧
        PassEnd P b p s (Transition.run (step P) s calls) := by
  obtain ⟨n, hn⟩ := Nat.exists_eq_add_of_le' (rows_pos hb)
  by_cases hp : p = 0
  · refine ⟨.receiveData (List.replicate (n + 1) 1) ::
      List.replicate (n + 1) (.transferData fun _ => 0), ?_⟩
    have hreceived : (s.step P (.receiveData (List.replicate (n + 1) 1))).vr.vq.length = n + 1 := by
      simp [step, VertexReader.receiveData, hvq, List.replicate_succ]
    obtain ⟨hnil, hend⟩ := run_transfers hw hb n (hat.receiveData (List.replicate (n + 1) 1))
      (by omega) (by rw [if_pos hp]; exact hreceived)
    exact ⟨hnil, hend.passes, hend.next⟩
  · exact ⟨List.replicate (n + 1) (.transferData fun _ => 0),
      run_transfers hw hb n hat (by omega) (by rw [if_neg hp]; exact hvq)⟩

/-- Every pass over every block begins in some use of the reader. -/
theorem exists_passAt (hw : 2 ≤ P.wW) {b : Nat} (hb : b < P.blockCount) {p : Nat} (hp : p < P.wW) :
    ∃ calls, PassAt P b p 0 (run P calls) ∧ (run P calls).vr.vq = [] := by
  -- From the start of a pass to the start of the next one.
  have hnext : ∀ {b p : Nat}, b < P.blockCount →
      (∃ calls, PassAt P b p 0 (run P calls) ∧ (run P calls).vr.vq = []) → ∃ calls,
        (run P calls).vr.vq = [] ∧ (p + 1 < P.wW ∧ PassAt P b (p + 1) 0 (run P calls) ∨
          p + 1 = P.wW ∧ (b + 1 < P.blockCount → PassAt P (b + 1) 0 0 (run P calls))) := by
    rintro b p hb ⟨calls, hat, hvq⟩
    obtain ⟨more, hnil, hend⟩ := exists_passEnd hw hb hat hvq
    refine ⟨calls ++ more, ?_⟩
    rw [run, Transition.run_append]
    exact ⟨hnil, hend.next.imp_right fun h => ⟨h.1, h.2.2⟩⟩
  have hpasses : ∀ {b : Nat}, b < P.blockCount →
      (∃ calls, PassAt P b 0 0 (run P calls) ∧ (run P calls).vr.vq = []) → ∀ p, p < P.wW →
        ∃ calls, PassAt P b p 0 (run P calls) ∧ (run P calls).vr.vq = [] := by
    intro b hb hstart p
    induction p with
    | zero => exact fun _ => hstart
    | succ p ih =>
      intro hp
      obtain ⟨calls, hnil, ⟨-, hat⟩ | ⟨hlast, -⟩⟩ := hnext hb (ih (by omega))
      · exact ⟨calls, hat, hnil⟩
      · omega
  have hblocks : ∀ b, b < P.blockCount →
      ∃ calls, PassAt P b 0 0 (run P calls) ∧ (run P calls).vr.vq = [] := by
    intro b
    induction b with
    | zero => exact fun _ => ⟨[], init_passAt P, rfl⟩
    | succ b ih =>
      intro hb
      obtain ⟨calls, hnil, ⟨hmore, -⟩ | ⟨-, hat⟩⟩ := hnext (p := P.wW - 1) (by omega)
        (hpasses (by omega) (ih (by omega)) (P.wW - 1) (by omega))
      · omega
      · exact ⟨calls, hat hb, hnil⟩
  exact hpasses hb (hblocks b hb) p hp

/-- Whatever the reader receives and whenever it is called, every finished pass over a block
has made as many `RequestF` calls as its rows fill lines, exactly in shapes whose count does
not drift. -/
theorem featureLines_iff (P : Params) (ha : 2 ≤ P.aH) (hclc : 2 ≤ P.cacheLineCount)
    (hw : 2 ≤ P.wW) :
    (∀ calls, ∀ e ∈ (run P calls).passes, e.block < P.blockCount →
      e.requests = ceilDiv (P.blockEnd e.block - P.blockStart e.block) P.cacheLineCount) ↔
    3 ≤ P.cacheLineCount ∧ ¬ P.cacheLineCount ∣ P.aH ∧
      (P.aH ≤ P.maxV ∨ P.cacheLineCount ∣ P.maxV ∧ P.aH % P.maxV ≠ 1) := by
  rw [← CountsInStep, ← passesFill_iff ha hclc hw]
  constructor
  · intro h b hb p hp
    obtain ⟨calls, hat, hvq⟩ := exists_passAt hw hb hp
    obtain ⟨more, -, hend⟩ := exists_passEnd hw hb hat hvq
    refine h (calls ++ more) ⟨b, p, P.passRequests b p⟩ ?_ hb
    rw [run, Transition.run_append]
    exact hend.passes ▸ List.mem_append_right _ (List.mem_singleton_self _)
  · intro h calls e he hb
    obtain ⟨hp, hrequests⟩ := (run_inv hw calls).logged e he hb
    rw [hrequests]
    exact h e.block hb e.pass hp

/-- The reader with its row lines, whatever their delays, is such a use of the reader. -/
theorem exists_calls_rowSystem (P : Params) (inputs : List RowInput) :
    ∃ calls, (run P calls).vr = (RowSystem.run P inputs).vr := by
  have hstep : ∀ (t : RowSystem) (i : RowInput), ∃ calls, ∀ s : PassSystem, s.vr = t.vr →
      (Transition.run (step P) s calls).vr = (t.step P i).vr := by
    rintro t ⟨op, junk⟩
    cases op with
    | reply =>
      by_cases hout : t.out = 0
      · refine ⟨[], fun s hs => ?_⟩
        simp only [RowSystem.step, if_pos hout, Transition.run_nil, hs]
      · refine ⟨[.receiveData (t.feed.dataReturn P.cacheLineCount .vertexReqCountCnt .adjrowindex
          junk).1], fun s hs => ?_⟩
        simp only [RowSystem.step, if_neg hout, Transition.run_cons, Transition.run_nil, step, hs]
    | request =>
      refine ⟨[.requestTurn], fun s hs => ?_⟩
      simp only [RowSystem.step, Transition.run_cons, Transition.run_nil, step, hs]
    | transfer =>
      refine ⟨[.transferData junk], fun s hs => ?_⟩
      simp only [RowSystem.step, Transition.run_cons, Transition.run_nil, step, hs]
      split <;> rfl
  have hrun : ∀ (t : RowSystem), ∃ calls, ∀ s : PassSystem, s.vr = t.vr →
      (Transition.run (step P) s calls).vr = (Transition.run (RowSystem.step P) t inputs).vr := by
    induction inputs with
    | nil => exact fun t => ⟨[], fun s hs => hs⟩
    | cons i inputs ih =>
      intro t
      obtain ⟨first, hfirst⟩ := hstep t i
      obtain ⟨rest, hrest⟩ := ih (t.step P i)
      refine ⟨first ++ rest, fun s hs => ?_⟩
      rw [Transition.run_append]
      exact hrest _ (hfirst s hs)
  obtain ⟨calls, hcalls⟩ := hrun (RowSystem.init P)
  exact ⟨calls, hcalls (init P) rfl⟩

/-- Two blocks of three and two rows, with lines of three. -/
def fiveRows : Params := { RowSystem.linesOfTwo with
  aH := 5
  row := [0, 1, 2, 3, 4, 5]
  col := [0, 0, 0, 0, 0]
  aH_pos := Nat.succ_pos 4
  row_length := rfl
  row_zero := rfl
  row_mono := by decide
  col_length := rfl
  cacheLineCount := 3
  cacheLineCount_pos := RowSystem.linesOfTwo.maxV_pos }

theorem featureLines_fiveRows : 2 ≤ fiveRows.aH ∧ 2 ≤ fiveRows.cacheLineCount ∧
    2 ≤ fiveRows.wW ∧ ∀ calls, ∀ e ∈ (run fiveRows calls).passes,
      e.block < fiveRows.blockCount → e.requests =
        ceilDiv (fiveRows.blockEnd e.block - fiveRows.blockStart e.block)
          fiveRows.cacheLineCount :=
  ⟨by decide, by decide, by decide,
    (featureLines_iff fiveRows (by decide) (by decide) (by decide)).mpr (by decide)⟩

/-- One block of sixteen rows, with lines of sixteen. -/
def sixteenRows : Params where
  aH := 16
  row := List.range 17
  col := List.replicate 16 0
  aH_pos := Nat.succ_pos 15
  row_length := rfl
  row_zero := rfl
  row_mono := by decide
  col_length := rfl
  cacheLineCount := 16
  maxV := 16
  wW := 2
  cacheLineCount_pos := Nat.succ_pos 15
  maxV_pos := Nat.succ_pos 15
  wW_pos := Nat.two_pos

/-- The first pass requests one line, as the rows fill one; the second requests two. -/
theorem featureLines_sixteenRows :
    let passes := (run sixteenRows (.receiveData (List.range 16) :: .receiveData [16] ::
      List.replicate 32 (.transferData fun _ => 0))).passes
    passes = [⟨0, 0, 1⟩, ⟨0, 1, 2⟩] ∧
      ¬ ∀ e ∈ passes, e.block < sixteenRows.blockCount → e.requests =
        ceilDiv (sixteenRows.blockEnd e.block - sixteenRows.blockStart e.block)
          sixteenRows.cacheLineCount := by
  decide +kernel

end PassSystem

end GcnSim
