import GcnSim.Reader.VertexStream

/-!
# Replays of complete blocks

`ReceiveData` may drop a row pointer `0` that starts a line, so a first pass may miss
rows and wait for good. What it never does is to start a replay early: the values kept
of a block are part of its row pointers, so as many of them as the block has rows are all
of them, and then no line of the block is missing.
-/

namespace GcnSim

open Params

/-- The system with two histories: the block that is handed over, and the values that
`ReceiveData` has pushed since it began. -/
structure ReplaySystem where
  sys : RowSystem
  block : Nat
  pushed : List Nat

namespace ReplaySystem

variable (P : Params)

/-- The system at its start. -/
def init : ReplaySystem := ⟨.init P, 0, []⟩

/-- A step. A block ends where `x_repeat` falls back to `0`. -/
def step (s : ReplaySystem) (i : RowInput) : ReplaySystem :=
  let sys := s.sys.step P i
  let pushed := sys.vr.vq.drop s.sys.vr.vq.length
  if 0 < s.sys.vr.xRepeat ∧ sys.vr.xRepeat = 0 then ⟨sys, s.block + 1, []⟩
  else ⟨sys, s.block, s.pushed ++ pushed⟩

/-- The system after a schedule. -/
def run (inputs : List RowInput) : ReplaySystem := Transition.run (step P) (init P) inputs

/-- The schedule drives the reader as it does without the histories. -/
theorem run_sys (inputs : List RowInput) : (run P inputs).sys = RowSystem.run P inputs := by
  have h : ∀ s : ReplaySystem, (Transition.run (step P) s inputs).sys =
      Transition.run (RowSystem.step P) s.sys inputs := by
    induction inputs with
    | nil => exact fun s => rfl
    | cons i inputs ih =>
      intro s
      rw [Transition.run_cons, Transition.run_cons, ih]
      congr 1
      rw [step]
      split <;> rfl
  exact h (init P)

end ReplaySystem

/-- The reader works on block `b`: `d` of its lines have arrived, `out` are requested and on
their way, and `pushed` was kept of those that arrived. -/
structure ReplayAt (P : Params) (b d out : Nat) (vr : VertexReader) (feed : LineFeed)
    (pushed : List Nat) : Prop where
  block_lt : b < P.blockCount
  feed_eq : feed = P.rowFeed b d
  tot : vr.port.totReadCnt = P.vertexLines b
  pre : vr.port.preReadCnt = d + out
  pre_le : d + out ≤ P.vertexLines b
  need : vr.port.reqNeed = true → d + out < P.vertexLines b
  archive : vr.preRowArchive = P.blockStart b
  counts : vr.vertexReqCount = P.vertexReqCount.drop (b + 1)
  row_ge : P.blockStart b ≤ vr.preRow
  row_lt : vr.preRow < P.blockEnd b
  kept : pushed.Sublist (P.rowStream b d)
  first : vr.xRepeat = 0 → vr.vCacheIdx = 0 ∧
    vr.vCache.length = vr.preRow - P.blockStart b ∧ vr.vCache ++ vr.vq = pushed
  replay : 0 < vr.xRepeat → d = P.vertexLines b ∧ vr.vq = [] ∧ vr.vCache = P.blockRows b ∧
    vr.vCacheIdx = vr.preRow - P.blockStart b

namespace ReplayAt

variable {P : Params} {b d out : Nat} {vr : VertexReader} {feed : LineFeed} {pushed : List Nat}

/-- A constructed reader has received nothing. -/
theorem init (P : Params) : ReplayAt P 0 0 0 (.init P) ⟨P.row, P.vertexReqCount, 0⟩ [] := by
  have h := VertexAt.init P
  exact {
    block_lt := h.reached.1
    feed_eq := h.feed_eq
    tot := h.tot
    pre := h.pre
    pre_le := h.pre_le
    need := h.need
    archive := h.archive
    counts := h.counts
    row_ge := h.row_ge
    row_lt := h.row_lt
    kept := List.nil_sublist _
    first := fun _ => by simp [VertexReader.init]
    replay := h.replay }

theorem out_eq_zero (h : ReplayAt P b d out vr feed pushed) (hp : 0 < vr.xRepeat) : out = 0 := by
  have hd := (h.replay hp).1
  have hle := h.pre_le
  omega

theorem requestTurn (h : ReplayAt P b d out vr feed pushed) :
    ReplayAt P b d (out + (vr.requestTurn P).2.length) (vr.requestTurn P).1 feed pushed := by
  obtain ⟨-, htot, hpre, hle, hneed⟩ := ReaderPort.turn_spec P.cacheLineCount .aRow
    vr.vertexReqCount.isEmpty h.tot h.pre h.pre_le h.need
  exact { h with tot := htot, pre := hpre, pre_le := hle, need := hneed }

/-- A reply delivers the next line of the block. -/
theorem receiveData (h : ReplayAt P b d (out + 1) vr feed pushed) (junk : Junk) :
    let r := feed.dataReturn P.cacheLineCount .vertexReqCountCnt .adjrowindex junk
    let kept := if r.1.head? = some 0 then r.1.tail else r.1
    vr.xRepeat = 0 ∧
      ReplayAt P b (d + 1) out (vr.receiveData r.1) r.2.1 (pushed ++ kept) := by
  have hle := h.pre_le
  have hd : d < P.vertexLines b := by omega
  have hreply := LineFeed.dataReturn_after P.cacheLineCount_pos
    (by simpa using h.block_lt : b < P.vertexReqCount.length) (by rw [sum_vertexReqCount]) hd
    .vertexReqCountCnt .adjrowindex junk
  have hx : vr.xRepeat = 0 := by
    by_contra hne
    have := h.out_eq_zero (Nat.pos_of_ne_zero hne)
    omega
  simp only [h.feed_eq, rowFeed, hreply]
  obtain ⟨hidx, hlen, hvq⟩ := h.first hx
  refine ⟨hx, ?_⟩
  exact { h with
    feed_eq := rfl
    pre := by
      have := h.pre
      change vr.port.preReadCnt = d + 1 + out
      omega
    pre_le := by omega
    need := fun hn => by have := h.need hn; omega
    kept := sublist_rowStream_succ h.block_lt h.kept
    first := fun _ => ⟨hidx, hlen, by
      rw [← hvq, List.append_assoc]
      rfl⟩
    replay := fun hp => absurd hp (by change ¬ 0 < vr.xRepeat; omega) }

theorem need_of_reopen (h : ReplayAt P b d out vr feed pushed)
    (hneed : (vr.port.release.reopen P.cacheLineCount).reqNeed = true) :
    d + out < P.vertexLines b := by
  rcases ReaderPort.of_reopen_reqNeed hneed with hopen | hlt
  · exact h.need hopen
  · rwa [h.pre, h.tot] at hlt

/-- The first pass moves the front of `vq` to `v_cache`. With its last row the block is
complete. -/
theorem transferData_first (h : ReplayAt P b d out vr feed pushed) (hx : vr.xRepeat = 0)
    {x : Nat} {xs : List Nat} (hq : vr.vq = x :: xs) (junk : Junk) :
    ReplayAt P b d out (vr.transferData P junk).2.1 feed pushed := by
  have hge := h.row_ge
  have hlt := h.row_lt
  have hle := h.pre_le
  obtain ⟨hidx, hlen, hvq⟩ := h.first hx
  have hcache : (vr.vCache ++ [x]) ++ xs = pushed := by
    rw [← hvq, hq, List.append_assoc]
    rfl
  obtain ⟨popCount, reqFLine, fFlag, ts, -, heq⟩ :=
    VertexReader.transferData_first P junk vr hq hx
  rw [heq]
  simp only [blockEnd_test (show P.blockStart b < vr.preRow + 1 by omega) hlt]
  by_cases hend : vr.preRow + 1 = P.blockEnd b
  · have hcount : (vr.vCache ++ [x]).length = P.blockEnd b - P.blockStart b := by
      rw [List.length_append, List.length_singleton, hlen]
      omega
    obtain ⟨hall, hlines⟩ := eq_blockRows_of_sublist h.block_lt h.kept
      (by rw [← hcache, List.length_append]; omega)
    have hxs : xs = [] := by
      have hsum := congrArg List.length hall
      rw [← hcache, List.length_append, length_blockRows, hcount] at hsum
      exact List.length_eq_zero_iff.mp (by omega)
    rw [if_pos hend]
    exact { h with
      tot := by simpa using h.tot
      pre := by simpa using h.pre
      need := h.need_of_reopen
      row_ge := h.archive.ge
      row_lt := by
        change vr.preRowArchive < P.blockEnd b
        rw [h.archive]
        omega
      first := fun h1 => absurd h1 (Nat.succ_ne_zero _)
      replay := fun _ => ⟨by omega, hxs, by
        change vr.vCache ++ [x] = P.blockRows b
        rw [← hall, ← hcache, hxs, List.append_nil], by
        change vr.vCacheIdx = vr.preRowArchive - P.blockStart b
        rw [hidx, h.archive, Nat.sub_self]⟩ }
  · rw [if_neg hend]
    exact { h with
      tot := by simpa using h.tot
      pre := by simpa using h.pre
      need := h.need_of_reopen
      row_ge := by change _ ≤ vr.preRow + 1; omega
      row_lt := by change vr.preRow + 1 < _; omega
      first := fun _ => ⟨hidx, by
        change (vr.vCache ++ [x]).length = vr.preRow + 1 - P.blockStart b
        rw [List.length_append, List.length_singleton, hlen]
        omega, hcache⟩
      replay := fun hpos => absurd hpos (by change ¬ 0 < vr.xRepeat; omega) }

/-- After the last replay the next block begins, with nothing received of it. -/
theorem nextBlock (h : ReplayAt P b d out vr feed pushed) (hp : 0 < vr.xRepeat) (junk : Junk)
    {vr' : VertexReader} (hrow : vr'.preRow = P.blockEnd b) (hq : vr'.vq = vr.vq)
    (hc : vr'.vertexReqCount = vr.vertexReqCount) (hnext : b + 1 < P.blockCount) :
    ReplayAt P (b + 1) 0 out (vr'.nextBlock P junk) feed [] := by
  obtain ⟨hd, hvq, -, -⟩ := h.replay hp
  have hout := h.out_eq_zero hp
  have hs := blockEnd_eq_blockStart_succ hnext
  have hlt := blockStart_lt_blockEnd hnext
  have hcounts : vr'.vertexReqCount =
      (P.blockEnd (b + 1) - P.blockStart (b + 1) + lead (b + 1)) ::
        P.vertexReqCount.drop (b + 2) := by
    rw [hc, h.counts, vertexReqCount_drop hnext]
  have hlines := vertexLines_eq hnext
  have hpos : 0 < P.vertexLines (b + 1) := by
    rw [hlines]
    exact ceilDiv_pos (by omega) P.cacheLineCount_pos
  exact {
    block_lt := hnext
    feed_eq := by
      rw [h.feed_eq, hd, rowFeed]
      exact LineFeed.after_all le_rfl
    tot := by simp [VertexReader.nextBlock, hcounts, ReaderPort.restart, hlines]
    pre := by simp [VertexReader.nextBlock, ReaderPort.restart, hout]
    pre_le := by omega
    need := fun _ => by omega
    archive := by simp [VertexReader.nextBlock, hrow, hs]
    counts := by simp [VertexReader.nextBlock, hcounts]
    row_ge := by simp [VertexReader.nextBlock, hrow, hs]
    row_lt := by simp [VertexReader.nextBlock, hrow, hs, hlt]
    kept := List.nil_sublist _
    first := fun _ => by simp [VertexReader.nextBlock, hrow, hs, hq, hvq]
    replay := fun hx => by simp [VertexReader.nextBlock] at hx }

/-- A replay hands over the next row of `v_cache`; the last one may end the block. -/
theorem transferData_replay (h : ReplayAt P b d out vr feed pushed) (hx : 0 < vr.xRepeat)
    (junk : Junk) :
    (vr.transferData P junk).2.1.vq = vr.vq ∧
    ((0 < (vr.transferData P junk).2.1.xRepeat ∧
        ReplayAt P b d out (vr.transferData P junk).2.1 feed pushed) ∨
      ((vr.transferData P junk).2.1.xRepeat = 0 ∧ (b + 1 < P.blockCount →
        ReplayAt P (b + 1) 0 out (vr.transferData P junk).2.1 feed []))) := by
  have hge := h.row_ge
  have hlt := h.row_lt
  obtain ⟨hd, hvq, hcache, hidx⟩ := h.replay hx
  have hi : vr.vCacheIdx < vr.vCache.length := by
    rw [hcache, hidx, length_blockRows]
    omega
  obtain ⟨popCount, reqFLine, fFlag, ts, -, heq⟩ :=
    VertexReader.transferData_replay P junk vr hvq hx hi
  have hmin := P.blockEnd_eq_min b
  have hcond : (vr.vCacheIdx + 1 = P.maxV ∨ vr.preRow + 1 = P.aH) ↔
      vr.preRow + 1 = P.blockEnd b := by omega
  rw [heq]
  simp only [hcond]
  by_cases hend : vr.preRow + 1 = P.blockEnd b
  · rw [if_pos hend]
    by_cases hlast : vr.xRepeat = P.wW - 1
    · rw [if_neg (not_not_intro hlast)]
      exact ⟨rfl, Or.inr ⟨rfl, h.nextBlock hx junk hend rfl rfl⟩⟩
    · rw [if_pos hlast]
      refine ⟨rfl, Or.inl ⟨Nat.succ_pos _, ?_⟩⟩
      exact { h with
        row_ge := h.archive.ge
        row_lt := by
          change vr.preRowArchive < P.blockEnd b
          rw [h.archive]
          omega
        first := fun h1 => absurd h1 (Nat.succ_ne_zero _)
        replay := fun _ => ⟨hd, hvq, hcache, by
          change 0 = vr.preRowArchive - P.blockStart b
          rw [h.archive, Nat.sub_self]⟩ }
  · rw [if_neg hend]
    refine ⟨rfl, Or.inl ⟨hx, ?_⟩⟩
    exact { h with
      row_ge := by change _ ≤ vr.preRow + 1; omega
      row_lt := by change vr.preRow + 1 < _; omega
      first := fun h0 => absurd h0 (by change vr.xRepeat ≠ 0; omega)
      replay := fun _ => ⟨hd, hvq, hcache, by
        change vr.vCacheIdx + 1 = vr.preRow + 1 - P.blockStart b
        omega⟩ }

end ReplayAt

namespace ReplaySystem

variable {P : Params}

/-- Before the last block is finished the reader works on the block of the history. -/
def Inv (P : Params) (s : ReplaySystem) : Prop :=
  s.block < P.blockCount → ∃ d, ReplayAt P s.block d s.sys.out s.sys.vr s.sys.feed s.pushed

/-- A step that does not end a block keeps the block and extends the pushed values. -/
theorem step_same {s : ReplaySystem} {i : RowInput}
    (hx : (s.sys.step P i).vr.xRepeat = 0 → s.sys.vr.xRepeat = 0) :
    step P s i = ⟨s.sys.step P i, s.block,
      s.pushed ++ (s.sys.step P i).vr.vq.drop s.sys.vr.vq.length⟩ := by
  rw [step, if_neg]
  rintro ⟨hpos, hzero⟩
  exact absurd (hx hzero) (Nat.ne_of_gt hpos)

/-- A step that ends no block and leaves nothing new in `vq` keeps both histories. -/
theorem step_keep {s : ReplaySystem} {i : RowInput}
    (hx : (s.sys.step P i).vr.xRepeat = 0 → s.sys.vr.xRepeat = 0)
    (hq : (s.sys.step P i).vr.vq.length ≤ s.sys.vr.vq.length) :
    step P s i = ⟨s.sys.step P i, s.block, s.pushed⟩ := by
  rw [step_same hx, List.drop_eq_nil_of_le hq, List.append_nil]

theorem block_le_step (s : ReplaySystem) (i : RowInput) : s.block ≤ (step P s i).block := by
  rw [step]
  split
  · exact Nat.le_succ _
  · exact le_rfl

/-- A reply appends what `ReceiveData` keeps of the next line. -/
theorem step_reply_inv {s : ReplaySystem} (h : s.Inv P) (junk : Junk) :
    (step P s ⟨.reply, junk⟩).Inv P := by
  by_cases hout : s.sys.out = 0
  · have hstep : s.sys.step P ⟨.reply, junk⟩ = s.sys := by simp only [RowSystem.step, if_pos hout]
    rw [step_keep (by rw [hstep]; exact id) (by rw [hstep]), hstep]
    exact h
  · obtain ⟨out, hsucc⟩ := Nat.exists_eq_succ_of_ne_zero hout
    have hvr : (s.sys.step P ⟨.reply, junk⟩).vr = s.sys.vr.receiveData
        (s.sys.feed.dataReturn P.cacheLineCount .vertexReqCountCnt .adjrowindex junk).1 := by
      simp only [RowSystem.step, if_neg hout]
    rw [step_same (by rw [hvr]; exact id)]
    intro hb
    obtain ⟨d, hat⟩ := h hb
    rw [hsucc] at hat
    refine ⟨d + 1, ?_⟩
    rw [hvr]
    simp only [VertexReader.receiveData, List.drop_left, RowSystem.step, hsucc]
    exact (hat.receiveData junk).2

/-- A request turn counts the requested line. -/
theorem step_request_inv {s : ReplaySystem} (h : s.Inv P) (junk : Junk) :
    (step P s ⟨.request, junk⟩).Inv P := by
  rw [step_keep id le_rfl]
  intro hb
  obtain ⟨d, hat⟩ := h hb
  exact ⟨d, hat.requestTurn⟩

/-- A row handed over in a first pass stays among the pushed values; one handed over in a
replay may end the block. -/
theorem step_transfer_inv {s : ReplaySystem} (h : s.Inv P) (junk : Junk) :
    (step P s ⟨.transfer, junk⟩).Inv P := by
  have hvr : (s.sys.step P ⟨.transfer, junk⟩).vr = (s.sys.vr.transferData P junk).2.1 := rfl
  intro hb
  obtain ⟨d, hat⟩ := h ((block_le_step s _).trans_lt hb)
  by_cases hx : s.sys.vr.xRepeat = 0
  · have hq : (s.sys.vr.transferData P junk).2.1.vq.length ≤ s.sys.vr.vq.length ∧
        ReplayAt P s.block d s.sys.out (s.sys.vr.transferData P junk).2.1 s.sys.feed s.pushed := by
      cases hvq : s.sys.vr.vq with
      | nil =>
        rw [VertexReader.transferData_wait P junk s.sys.vr hvq hx]
        exact ⟨by rw [hvq], hat⟩
      | cons x xs =>
        refine ⟨?_, hat.transferData_first hx hvq junk⟩
        obtain ⟨popCount, reqFLine, fFlag, ts, -, heq⟩ :=
          VertexReader.transferData_first P junk s.sys.vr hvq hx
        rw [heq]
        split <;> exact Nat.le_succ _
    rw [step_keep (fun _ => hx) (by rw [hvr]; exact hq.1)]
    exact ⟨d, hq.2⟩
  · obtain ⟨hvq, hcase⟩ := hat.transferData_replay (Nat.pos_of_ne_zero hx) junk
    rcases hcase with ⟨hpos, hat'⟩ | ⟨hzero, hnext⟩
    · rw [step_keep (fun h0 => absurd h0 (Nat.ne_of_gt (by rw [hvr]; exact hpos)))
        (by rw [hvr, hvq])]
      exact ⟨d, hat'⟩
    · have hstep : step P s ⟨.transfer, junk⟩ =
          ⟨s.sys.step P ⟨.transfer, junk⟩, s.block + 1, []⟩ := by
        rw [step, if_pos ⟨Nat.pos_of_ne_zero hx, hzero⟩]
      rw [hstep] at hb ⊢
      exact ⟨0, hnext hb⟩

/-- Every step keeps the reader inside its block. -/
theorem step_replay_inv (s : ReplaySystem) (i : RowInput) (h : s.Inv P) : (step P s i).Inv P := by
  obtain ⟨op, junk⟩ := i
  cases op with
  | reply => exact step_reply_inv h junk
  | request => exact step_request_inv h junk
  | transfer => exact step_transfer_inv h junk

theorem run_inv (inputs : List RowInput) : (run P inputs).Inv P :=
  Transition.run_invariant step_replay_inv (fun _ => ⟨0, ReplayAt.init P⟩) inputs

/-- Before the last block is finished, whatever the delays of the replies and the times of the
calls: a replay has the complete block in `v_cache`, nothing queued and nothing on its way, and
hands over the next entry; in a first pass `v_cache` followed by `vq` is what was pushed. -/
theorem replays_complete_block (P : Params) (inputs : List RowInput)
    (hb : (run P inputs).block < P.blockCount) :
    let s := run P inputs
    let vr := s.sys.vr
    (0 < vr.xRepeat → vr.vq = [] ∧ s.sys.out = 0 ∧ vr.port.preReadCnt = vr.port.totReadCnt ∧
      vr.vCache = P.blockRows s.block ∧
      ∃ hidx : vr.vCacheIdx < vr.vCache.length,
        ∀ junk, (vr.transferData P junk).1 = vr.vCache[vr.vCacheIdx]) ∧
    (vr.xRepeat = 0 → vr.vCache ++ vr.vq = s.pushed) := by
  obtain ⟨d, hat⟩ := run_inv inputs hb
  refine ⟨fun hx => ?_, fun hx => (hat.first hx).2.2⟩
  obtain ⟨hd, hvq, hcache, hidx⟩ := hat.replay hx
  have hout := hat.out_eq_zero hx
  have hge := hat.row_ge
  have hlt := hat.row_lt
  have hi : (run P inputs).sys.vr.vCacheIdx < (run P inputs).sys.vr.vCache.length := by
    rw [hcache, hidx, length_blockRows]
    omega
  refine ⟨hvq, hout, ?_, hcache, hi, fun junk => ?_⟩
  · rw [hat.pre, hat.tot, hd, hout]
    rfl
  · obtain ⟨popCount, reqFLine, fFlag, ts, -, heq⟩ :=
      VertexReader.transferData_replay P junk (run P inputs).sys.vr hvq hx hi
    rw [heq]

/-- Both row lines arrive and the three rows are taken: the first replay begins. -/
def firstReplay : List RowInput :=
  [.request, .reply, .request, .reply, .transfer, .transfer, .transfer].map fun op =>
    ⟨op, fun _ => 0⟩

theorem replays_complete_linesOfTwo :
    0 < (run RowSystem.linesOfTwo firstReplay).sys.vr.xRepeat ∧
    (run RowSystem.linesOfTwo firstReplay).sys.vr.vCache = RowSystem.linesOfTwo.blockRows 0 := by
  have hx : 0 < (run RowSystem.linesOfTwo firstReplay).sys.vr.xRepeat := by decide +kernel
  have hzero : (run RowSystem.linesOfTwo firstReplay).block = 0 := by decide +kernel
  have hb : (run RowSystem.linesOfTwo firstReplay).block < RowSystem.linesOfTwo.blockCount := by
    decide +kernel
  have h := (replays_complete_block RowSystem.linesOfTwo firstReplay hb).1 hx
  rw [hzero] at h
  exact ⟨hx, h.2.2.2.1⟩

end ReplaySystem

end GcnSim
