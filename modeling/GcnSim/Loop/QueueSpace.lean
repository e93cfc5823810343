import GcnSim.Loop.LinesInFlight

/-!
# Queue space

`q_space` is charged with a full line at every request and released entry by entry. A line
that leaves fewer than `CACHE_LINE_COUNT` entries in the queue is charged for space that is
never released. What a reader loses that way is what its `q_space` says too much; no other
step of the loop changes the difference.
-/

namespace GcnSim

namespace ReaderPort

/-- A line on top of a queue that fits does not wrap `q_space`. -/
theorem add_lt_u64Size {clc q : Nat} (hq : q ≤ maxQueueSize) (hclc : clc ≤ maxQueueSize) :
    q + clc < u64Size :=
  (Nat.add_le_add hq hclc).trans_lt (by decide)

/-- `Request` is wanted only while a line still fits in the queue. -/
def Room (clc : Nat) (p : ReaderPort) : Prop :=
  p.reqNeed = true → p.qSpace + clc ≤ maxQueueSize

/-- A request turn charges a line for every line it requests. -/
theorem turn_qSpace {clc : Nat} (r : Region) (exhausted : Bool) {p : ReaderPort}
    (hfit : p.qSpace + clc < u64Size) :
    (p.turn clc r exhausted).1.qSpace =
      p.qSpace + clc * (p.turn clc r exhausted).2.countP (Transaction.isReadOf r) := by
  have hrequest : ∀ p' : ReaderPort, p'.qSpace = p.qSpace →
      (if p'.reqNeed then p'.request clc r else (p', [])).1.qSpace = p.qSpace + clc *
        (if p'.reqNeed then p'.request clc r else (p', [])).2.countP (Transaction.isReadOf r) := by
    intro p' hq
    split
    · have hone : (p'.request clc r).2.countP (Transaction.isReadOf r) = 1 := by
        simp [request, readLine, Transaction.isReadOf]
      rw [hone, Nat.mul_one, ← hq]
      have hadd : u64Add p'.qSpace clc = p'.qSpace + clc := if_pos (by omega)
      simp only [request, hadd]
      split <;> rfl
    · simpa using hq
  rw [turn]
  apply hrequest
  split <;> rfl

/-- A reader that requests only with room stays within the queue. -/
theorem Room.turn {clc : Nat} (r : Region) (exhausted : Bool) {p : ReaderPort}
    (h : p.Room clc) (hle : p.qSpace ≤ maxQueueSize) :
    (p.turn clc r exhausted).1.qSpace ≤ maxQueueSize ∧ (p.turn clc r exhausted).1.Room clc := by
  have hrequest : ∀ p' : ReaderPort, p'.qSpace ≤ maxQueueSize → p'.Room clc →
      (if p'.reqNeed then p'.request clc r else (p', [])).1.qSpace ≤ maxQueueSize ∧
        (if p'.reqNeed then p'.request clc r else (p', [])).1.Room clc := by
    intro p' hle hroom
    split
    · rename_i hneed
      have hfit := hroom hneed
      have hadd : u64Add p'.qSpace clc = p'.qSpace + clc :=
        if_pos (hfit.trans_lt (by decide))
      simp only [request, hadd]
      split
      · exact ⟨hfit, fun hfalse => by cases hfalse⟩
      · rename_i hmore
        rw [not_or, u64Sub_of_le hfit, Nat.not_lt] at hmore
        refine ⟨hfit, fun _ => ?_⟩
        change p'.qSpace + clc + clc ≤ maxQueueSize
        omega
    · exact ⟨hle, hroom⟩
  rw [ReaderPort.turn]
  apply hrequest
  · split <;> exact hle
  · split
    · intro hfalse
      cases hfalse
    · exact h

/-- A popped entry releases its space. -/
theorem qSpace_release_reopen (clc : Nat) {p : ReaderPort} (hpos : 0 < p.qSpace) :
    (p.release.reopen clc).qSpace + 1 = p.qSpace := by
  have hsub : p.release.qSpace = p.qSpace - 1 := u64Sub_of_le hpos
  have hreopen : (p.release.reopen clc).qSpace = p.release.qSpace := by
    rw [reopen]
    split <;> rfl
  omega

theorem Room.release_reopen {clc : Nat} {p : ReaderPort} (h : p.Room clc) (hpos : 0 < p.qSpace)
    (hle : p.qSpace ≤ maxQueueSize) : (p.release.reopen clc).Room clc := by
  have hsub : p.release.qSpace = p.qSpace - 1 := u64Sub_of_le hpos
  unfold reopen
  split
  · rename_i hopen
    have hroom := hopen.2
    rw [u64Sub_of_le (by omega)] at hroom
    intro _
    change p.release.qSpace + clc ≤ maxQueueSize
    omega
  · intro hneed
    have := h hneed
    omega

end ReaderPort

namespace VertexReader

/-- What `ReceiveData` pushes of a line. -/
def kept (line : List Nat) : List Nat := if line.head? = some 0 then line.tail else line

theorem length_kept_le (line : List Nat) : (kept line).length ≤ line.length := by
  rw [kept]
  split
  · rw [List.length_tail]
    omega
  · exact le_rfl

theorem foldl_receiveData_space (lines : List (List Nat)) (vr : VertexReader) :
    (lines.foldl receiveData vr).vq = vr.vq ++ (lines.map kept).flatten ∧
      (lines.foldl receiveData vr).port.qSpace = vr.port.qSpace := by
  induction lines generalizing vr with
  | nil => exact ⟨by simp, rfl⟩
  | cons line lines ih =>
    obtain ⟨hvq, hspace⟩ := ih (vr.receiveData line)
    refine ⟨?_, hspace⟩
    rw [List.foldl_cons, hvq, List.map_cons, List.flatten_cons, ← List.append_assoc]
    rfl

/-- `TransferData` pops an entry and releases its space, or changes neither. -/
theorem transferData_space (P : Params) (junk : Junk) (vr : VertexReader) :
    (∃ x xs, vr.vq = x :: xs ∧ (vr.transferData P junk).2.1.vq = xs ∧
      (vr.transferData P junk).2.1.port = vr.port.release.reopen P.cacheLineCount) ∨
    (vr.transferData P junk).2.1.vq = vr.vq ∧
      (vr.transferData P junk).2.1.port.qSpace = vr.port.qSpace := by
  have hframe : ∀ vr' : VertexReader, (countPop P vr').1.vq = vr'.vq ∧
      (countPop P vr').1.port = vr'.port := by
    intro vr'
    obtain ⟨popCount, reqFLine, fFlag, heq⟩ := countPop_frame P vr'
    rw [heq]
    exact ⟨rfl, rfl⟩
  unfold transferData
  split
  · rename_i hfirst
    obtain ⟨x, xs, hq⟩ := List.exists_cons_of_ne_nil hfirst.1
    refine .inl ⟨x, xs, hq, ?_⟩
    simp only [hq, popFront_cons]
    split
    · exact ⟨(hframe _).1, congrArg (ReaderPort.reopen _) (hframe _).2⟩
    · exact ⟨(hframe _).1, congrArg (ReaderPort.reopen _) (hframe _).2⟩
  · right
    split
    · dsimp only
      split
      · split
        · exact ⟨(hframe _).1, congrArg ReaderPort.qSpace (hframe _).2⟩
        · refine ⟨(hframe _).1, ?_⟩
          change (countPop P _).1.port.qSpace = _
          rw [(hframe _).2]
      · exact ⟨(hframe _).1, congrArg ReaderPort.qSpace (hframe _).2⟩
    · exact ⟨rfl, rfl⟩

end VertexReader

namespace EdgeReader

/-- The branch of `OuterProduct` that ends a block with another one to come: it wants
requests, whatever `q_space` is. -/
def StartsBlock (P : Params) (er : EdgeReader) : Prop :=
  0 < er.xRepeat ∧ er.remainColNum = 1 ∧ er.xRepeat = P.wFold - 1 ∧ er.preRow % P.maxV = 0 ∧
    er.preRow ≠ P.aH

instance (P : Params) (er : EdgeReader) : Decidable (er.StartsBlock P) := by
  unfold StartsBlock
  infer_instance

theorem foldl_receiveData_space (lines : List (List Nat)) (er : EdgeReader) :
    (lines.foldl receiveData er).eq = er.eq ++ lines.flatten ∧
      (lines.foldl receiveData er).port.qSpace = er.port.qSpace ∧
      (lines.foldl receiveData er).port.reqNeed = er.port.reqNeed := by
  induction lines generalizing er with
  | nil => exact ⟨by simp, rfl, rfl⟩
  | cons line lines ih =>
    obtain ⟨heq, hport⟩ := ih (er.receiveData line)
    refine ⟨?_, hport⟩
    rw [List.foldl_cons, heq, List.flatten_cons, ← List.append_assoc]
    rfl

theorem receiveVertex_space (P : Params) (er : EdgeReader) (vertex : Nat) :
    (er.receiveVertex P vertex).eq = er.eq ∧ (er.receiveVertex P vertex).port = er.port := by
  unfold receiveVertex
  split
  · generalize (if vertex < er.curV then er.lastV else er.curV) = prevV
    dsimp only
    split
    · split <;> exact ⟨rfl, rfl⟩
    · exact ⟨rfl, rfl⟩
  · exact ⟨rfl, rfl⟩

theorem write_space (P : Params) (er : EdgeReader) :
    (er.write P).1.eq = er.eq ∧ (er.write P).1.port = er.port := by
  unfold write
  split
  · dsimp only
    split <;> exact ⟨rfl, rfl⟩
  · exact ⟨rfl, rfl⟩

/-- `OuterProduct` pops an entry and releases its space, or it changes neither and wants
requests as before, unless it starts a block. -/
theorem outerProduct_space (P : Params) (junk : Junk) (er : EdgeReader) :
    (∃ x xs, er.eq = x :: xs ∧ (er.outerProduct P junk).eq = xs ∧
      (er.outerProduct P junk).port = er.port.release.reopen P.cacheLineCount) ∨
    (er.outerProduct P junk).eq = er.eq ∧
      (er.outerProduct P junk).port.qSpace = er.port.qSpace ∧
      ((er.outerProduct P junk).port.reqNeed = er.port.reqNeed ∨ er.StartsBlock P) := by
  unfold outerProduct
  split
  · rename_i hfirst
    obtain ⟨x, xs, hq⟩ := List.exists_cons_of_ne_nil hfirst.1
    refine .inl ⟨x, xs, hq, ?_⟩
    simp only [hq, popFront_cons]
    split
    · split <;> exact ⟨rfl, rfl⟩
    · exact ⟨rfl, rfl⟩
  · right
    split
    · rename_i hreplay
      dsimp only
      split
      · split <;> exact ⟨rfl, rfl, .inl rfl⟩
      · split
        · rename_i hlast
          split
          · rename_i hend
            refine ⟨rfl, ?_⟩
            by_cases hdone : er.preRow = P.aH
            · simp only [nextBlock, setDoWrite, if_pos hdone]
              exact ⟨rfl, .inl rfl⟩
            · simp only [nextBlock, setDoWrite, if_neg hdone]
              refine ⟨rfl, .inr ⟨hreplay.1, ?_, hlast.2, hend.resolve_right hdone, hdone⟩⟩
              have := hlast.1
              have := hreplay.2
              omega
          · exact ⟨rfl, rfl, .inl rfl⟩
        · exact ⟨rfl, rfl, .inl rfl⟩
    · exact ⟨rfl, rfl, .inl rfl⟩

end EdgeReader

namespace ParallelState

variable {P : Params} {s : ParallelState}

/-- `q_space` of the vertex reader is `lost` more than it should be. -/
def VertexBooks (P : Params) (lost : Nat) (s : ParallelState) : Prop :=
  s.vr.port.qSpace = P.cacheLineCount * s.dram.lines .aRow + s.vr.vq.length + lost

/-- `q_space` of the edge reader is `lost` more than it should be. -/
def EdgeBooks (P : Params) (lost : Nat) (s : ParallelState) : Prop :=
  s.er.port.qSpace = P.cacheLineCount * s.dram.lines .aCol + s.er.eq.length + lost

section Vertex

/-- Delivered row lines that fall short of the space they were charged for lose it. -/
theorem VertexBooks.beforeHandOver (h : VertexBooks P 0 s)
    (hfit : s.vr.port.qSpace + P.cacheLineCount < u64Size) (junk : Junk) {lost : Nat}
    (hlost : P.cacheLineCount * (linesOf .aRow (s.replies P junk)).length =
      ((linesOf .aRow (s.replies P junk)).map VertexReader.kept).flatten.length + lost) :
    VertexBooks P lost (s.beforeHandOver P junk) := by
  obtain ⟨fFlag, hvr, hdram⟩ := vr_beforeHandOver (P := P) s junk
  obtain ⟨hlines, -⟩ := lines_dramTurn (P := P) (r := .aRow) rfl s junk
  obtain ⟨hvq, hspace⟩ := VertexReader.foldl_receiveData_space
    (linesOf .aRow (s.replies P junk)) { s.vr with fFlag := fFlag }
  have hturn := ReaderPort.turn_qSpace .aRow
    ((linesOf .aRow (s.replies P junk)).foldl VertexReader.receiveData
      { s.vr with fFlag := fFlag }).vertexReqCount.isEmpty (hspace ▸ hfit)
  rw [VertexBooks, hlines, Nat.mul_add, hlost] at h
  rw [VertexBooks, hvr, hdram, DramInterface.lines_request]
  simp only [VertexReader.requestTurn]
  rw [hturn, hspace, hvq, List.length_append, Nat.mul_add]
  dsimp only at h ⊢
  omega

/-- A hand-over releases the space of the entry that it takes. -/
theorem VertexBooks.handOver {lost : Nat} (h : VertexBooks P lost s) (junk : Junk) :
    VertexBooks P lost (s.handOver P junk) := by
  rw [VertexBooks] at h
  rw [VertexBooks, lines_handOver rfl, ParallelState.handOver]
  split
  · rcases s.vr.transferData_space P junk with ⟨x, xs, hq, hvq, hport⟩ | ⟨hvq, hport⟩
    · rw [hq, List.length_cons] at h
      dsimp only
      rw [hvq, hport]
      have hrelease := ReaderPort.qSpace_release_reopen P.cacheLineCount
        (show 0 < s.vr.port.qSpace by omega)
      omega
    · dsimp only
      rw [hvq, hport]
      exact h
  · exact h

/-- The edge reader's turn leaves the books of the vertex reader alone. -/
theorem VertexBooks.edgeTurn {lost : Nat} (h : VertexBooks P lost s) (junk : Junk) :
    VertexBooks P lost (s.edgeTurn P junk) := by
  have hnone : (s.er.requestTurn P).2.countP (Transaction.isReadOf .aRow) = 0 := by
    rw [List.countP_eq_zero]
    intro t ht
    rw [turn_isReadOf (P := P) (by decide) _ _ t ht]
    exact Bool.false_ne_true
  rw [VertexBooks, lines_edgeTurn, hnone]
  exact h

/-- What an iteration loses of the vertex reader's space is what the row lines that it
delivers fall short. -/
theorem VertexBooks.step (h : VertexBooks P 0 s)
    (hfit : s.vr.port.qSpace + P.cacheLineCount < u64Size) (env : ParallelEnv) {lost : Nat}
    (hlost : P.cacheLineCount * (delivered P .aRow s env).length =
      ((delivered P .aRow s env).map VertexReader.kept).flatten.length + lost) :
    VertexBooks P lost (s.step P env) := by
  rw [delivered] at hlost
  cases hended : s.ended with
  | true =>
    have hzero : 0 = lost := by simpa [hended] using hlost
    rw [ParallelState.step, hended, if_pos rfl, ← hzero]
    exact h
  | false =>
    rw [hended, if_neg Bool.false_ne_true] at hlost
    have hadd := ((h.beforeHandOver hfit env.junk hlost).handOver env.junk).edgeTurn env.junk
    rw [VertexBooks, lines_step rfl env hended, (readers_step env hended).1]
    exact hadd

end Vertex

section Edge

/-- Delivered column lines that fall short of the space they were charged for lose it. -/
theorem EdgeBooks.beforeHandOver (h : EdgeBooks P 0 s) (junk : Junk) {lost : Nat}
    (hlost : P.cacheLineCount * (linesOf .aCol (s.replies P junk)).length =
      (linesOf .aCol (s.replies P junk)).flatten.length + lost) :
    EdgeBooks P lost (s.beforeHandOver P junk) := by
  obtain ⟨hlines, -⟩ := lines_dramTurn (P := P) (r := .aCol) rfl s junk
  obtain ⟨heq, hspace, -⟩ := EdgeReader.foldl_receiveData_space
    (linesOf .aCol (s.replies P junk)) s.er
  have hdram : (s.beforeHandOver P junk).dram.lines .aCol = s.dramTurn.2.dram.lines .aCol :=
    DramInterface.lines_request_of_none _ _ (turn_isReadOf (P := P) (by decide) _ _)
  rw [EdgeBooks, hlines, Nat.mul_add, hlost] at h
  rw [EdgeBooks, er_beforeHandOver, hdram, hspace, heq, List.length_append]
  omega

/-- The edge reader keeps its queue and its port when a row is handed over. -/
theorem er_handOver (s : ParallelState) (junk : Junk) :
    (s.handOver P junk).er.eq = s.er.eq ∧ (s.handOver P junk).er.port = s.er.port := by
  rw [handOver]
  split
  · exact EdgeReader.receiveVertex_space P s.er _
  · exact ⟨rfl, rfl⟩

theorem EdgeBooks.handOver {lost : Nat} (h : EdgeBooks P lost s) (junk : Junk) :
    EdgeBooks P lost (s.handOver P junk) := by
  obtain ⟨heq, hport⟩ := er_handOver (P := P) s junk
  rw [EdgeBooks, lines_handOver rfl, heq, hport]
  exact h

/-- A request charges a line, and a column that is taken releases its space. -/
theorem EdgeBooks.edgeTurn {lost : Nat} (h : EdgeBooks P lost s)
    (hfit : s.er.port.qSpace + P.cacheLineCount < u64Size) (junk : Junk) :
    EdgeBooks P lost (s.edgeTurn P junk) := by
  have hturn := ReaderPort.turn_qSpace .aCol s.er.edgeReqCount.isEmpty hfit
  obtain ⟨hwrite, hport⟩ :=
    EdgeReader.write_space P ((s.er.requestTurn P).1.outerProduct P junk)
  have her : (s.edgeTurn P junk).er =
      (((s.er.requestTurn P).1.outerProduct P junk).write P).1 := rfl
  rw [EdgeBooks] at h
  rw [EdgeBooks, lines_edgeTurn, her, hwrite, hport, Nat.mul_add]
  have hrequested : (s.er.requestTurn P).1.port.qSpace = s.er.port.qSpace +
      P.cacheLineCount * (s.er.requestTurn P).2.countP (Transaction.isReadOf .aCol) := hturn
  have hqueue : (s.er.requestTurn P).1.eq = s.er.eq := rfl
  rcases (s.er.requestTurn P).1.outerProduct_space P junk with
    ⟨x, xs, hq, heq, hpop⟩ | ⟨heq, hspace, -⟩
  · rw [hqueue] at hq
    rw [hq, List.length_cons] at h
    have hrelease := ReaderPort.qSpace_release_reopen P.cacheLineCount
      (show 0 < (s.er.requestTurn P).1.port.qSpace by omega)
    rw [heq, hpop]
    omega
  · rw [heq, hspace, hqueue]
    omega

/-- What an iteration loses of the edge reader's space is what the column lines that it
delivers fall short. -/
theorem EdgeBooks.step (h : EdgeBooks P 0 s)
    (hfit : s.er.port.qSpace + P.cacheLineCount < u64Size) (env : ParallelEnv) {lost : Nat}
    (hlost : P.cacheLineCount * (delivered P .aCol s env).length =
      (delivered P .aCol s env).flatten.length + lost) :
    EdgeBooks P lost (s.step P env) := by
  rw [delivered] at hlost
  cases hended : s.ended with
  | true =>
    have hzero : 0 = lost := by simpa [hended] using hlost
    rw [ParallelState.step, hended, if_pos rfl, ← hzero]
    exact h
  | false =>
    rw [hended, if_neg Bool.false_ne_true] at hlost
    have hhand := (h.beforeHandOver env.junk hlost).handOver env.junk
    have hspace : ((s.beforeHandOver P env.junk).handOver P env.junk).er.port.qSpace =
        s.er.port.qSpace := by
      rw [(er_handOver _ _).2, er_beforeHandOver]
      exact (EdgeReader.foldl_receiveData_space _ _).2.1
    have hadd := hhand.edgeTurn (by rw [hspace]; exact hfit) env.junk
    rw [EdgeBooks, lines_step rfl env hended, (readers_step env hended).2]
    exact hadd

end Edge

/-- The vertex reader's `q_space` is what it has requested or queued, and fits. -/
def VertexAccounts (P : Params) (s : ParallelState) : Prop :=
  s.vr.port.qSpace = P.cacheLineCount * s.dram.lines .aRow + s.vr.vq.length ∧
    s.vr.port.qSpace ≤ maxQueueSize

/-- The edge reader's `q_space` is what it has requested or queued, and fits. -/
def EdgeAccounts (P : Params) (s : ParallelState) : Prop :=
  s.er.port.qSpace = P.cacheLineCount * s.dram.lines .aCol + s.er.eq.length ∧
    s.er.port.qSpace ≤ maxQueueSize

/-- The iteration delivers no row line. -/
def NoRowLine (P : Params) (s : ParallelState) (env : ParallelEnv) : Prop :=
  delivered P .aRow s env = []

/-- The column lines that the iteration delivers are full. -/
def FullColumnLines (P : Params) (s : ParallelState) (env : ParallelEnv) : Prop :=
  ∀ line ∈ delivered P .aCol s env, line.length = P.cacheLineCount

/-- The edge reader in front of `OuterProduct`. -/
def beforeOuterProduct (P : Params) (s : ParallelState) (junk : Junk) : EdgeReader :=
  (((s.beforeHandOver P junk).handOver P junk).er.requestTurn P).1

/-- If `OuterProduct` starts a block in the iteration, the queue has room for a line. -/
def RoomAtBlockStart (P : Params) (s : ParallelState) (env : ParallelEnv) : Prop :=
  s.ended = false → (s.beforeOuterProduct P env.junk).StartsBlock P →
    (s.beforeOuterProduct P env.junk).port.qSpace + P.cacheLineCount ≤ maxQueueSize

instance (P : Params) (s : ParallelState) (env : ParallelEnv) :
    Decidable (NoRowLine P s env) := by
  unfold NoRowLine
  infer_instance

instance (P : Params) (s : ParallelState) (env : ParallelEnv) :
    Decidable (FullColumnLines P s env) := by
  unfold FullColumnLines
  infer_instance

instance (P : Params) (s : ParallelState) (env : ParallelEnv) :
    Decidable (RoomAtBlockStart P s env) := by
  unfold RoomAtBlockStart
  infer_instance

instance (P : Params) (s : ParallelState) : Decidable (s.VertexAccounts P) := by
  unfold VertexAccounts
  infer_instance

instance (P : Params) (s : ParallelState) : Decidable (s.EdgeAccounts P) := by
  unfold EdgeAccounts
  infer_instance

section Exact

/-- The first row line starts with the leading `0`, which `ReceiveData` drops. -/
theorem length_kept_first (P : Params) (junk : Junk) :
    (VertexReader.kept ((⟨P.row, P.vertexReqCount, 0⟩ : LineFeed).dataReturn P.cacheLineCount
      .vertexReqCountCnt .adjrowindex junk).1).length < P.cacheLineCount := by
  have hfeed : (⟨P.row, P.vertexReqCount, 0⟩ : LineFeed) = P.rowFeed 0 0 := (VertexAt.init P).feed_eq
  have hle := LineFeed.length_dataReturn_le P.cacheLineCount .vertexReqCountCnt .adjrowindex junk
    (P.rowFeed 0 0)
  have hpos : 0 < P.vertexLines 0 := by
    rw [Params.vertexLines, lineCalls]
    omega
  have hline : ((P.rowFeed 0 0).dataReturn P.cacheLineCount .vertexReqCountCnt .adjrowindex
      junk).1 = 0 :: P.rowStream 0 1 := by
    rw [Params.rowFeed, LineFeed.dataReturn_after P.cacheLineCount_pos
      (by simpa using P.blockCount_pos : 0 < P.vertexReqCount.length)
      (by rw [Params.sum_vertexReqCount]) hpos]
    exact Params.rowLine_zero
  rw [hline, List.length_cons] at hle
  rw [hfeed, hline, VertexReader.kept, List.head?_cons, if_pos rfl, List.tail_cons]
  exact hle

/-- An iteration without a row line keeps the row feed; otherwise its first row line is the
next one of the feed. -/
theorem dataReturns_row (junk : Junk) (as : List Address) (dc : DataController) :
    (linesOf .aRow (dataReturns P junk as dc).1 = [] ∧ (dataReturns P junk as dc).2.row = dc.row) ∨
      ∃ rest, linesOf .aRow (dataReturns P junk as dc).1 =
        (dc.row.dataReturn P.cacheLineCount .vertexReqCountCnt .adjrowindex junk).1 :: rest := by
  induction as generalizing dc with
  | nil => exact .inl ⟨rfl, rfl⟩
  | cons a as ih =>
    obtain ⟨region, line⟩ := a
    cases region with
    | aRow => exact .inr ⟨_, rfl⟩
    | aCol => exact ih (dc.adjColDataReturn P.cacheLineCount junk).2
    | xw => exact ih dc
    | axw => exact ih dc

theorem replies_row (s : ParallelState) (junk : Junk) :
    (linesOf .aRow (s.replies P junk) = [] ∧ (s.beforeHandOver P junk).dc.row = s.dc.row) ∨
      ∃ rest, linesOf .aRow (s.replies P junk) =
        (s.dc.row.dataReturn P.cacheLineCount .vertexReqCountCnt .adjrowindex junk).1 :: rest := by
  obtain ⟨dram, fFlag, hpolls⟩ := polls_frame s.dram.drams.length s
  have hpolled : s.dramTurn.2.dc = s.dc := by rw [dramTurn, hpolls]
  rw [← hpolled]
  exact dataReturns_row junk s.dramTurn.1 s.dramTurn.2.dc

/-- While no row line was delivered, the row feed is as constructed. -/
theorem row_step (s : ParallelState) (env : ParallelEnv) (h : NoRowLine P s env) :
    (s.step P env).dc.row = s.dc.row := by
  rw [NoRowLine, delivered] at h
  rw [step]
  split
  · rfl
  · rename_i hended
    rw [if_neg hended] at h
    have hlater : ((s.beforeHandOver P env.junk).handOver P env.junk).dc =
        (s.beforeHandOver P env.junk).dc := by
      rw [handOver]
      split <;> rfl
    rcases replies_row (P := P) s env.junk with ⟨-, hrow⟩ | ⟨rest, hfirst⟩
    · change ((s.beforeHandOver P env.junk).handOver P env.junk).dc.row = _
      rw [hlater, hrow]
    · rw [hfirst] at h
      cases h

/-- Once the first row line is delivered, the vertex reader's `q_space` is wrong. -/
theorem noRowLine_of_accounts (hclc : P.cacheLineCount ≤ maxQueueSize) (env : ParallelEnv)
    (hrow : s.dc.row = ⟨P.row, P.vertexReqCount, 0⟩) (h : s.VertexAccounts P)
    (hnext : (s.step P env).VertexAccounts P) : NoRowLine P s env := by
  by_contra hdelivered
  rw [NoRowLine] at hdelivered
  have hended : s.ended = false := by
    cases he : s.ended with
    | true => simp [delivered, he] at hdelivered
    | false => rfl
  have hlines : delivered P .aRow s env = linesOf .aRow (s.replies P env.junk) := by
    rw [delivered, hended, if_neg Bool.false_ne_true]
  obtain ⟨rest, hfirst⟩ := (replies_row (P := P) s env.junk).resolve_left
    fun hnil => hdelivered (hlines.trans hnil.1)
  obtain ⟨-, hle⟩ := lines_dramTurn (P := P) (r := .aRow) rfl s env.junk
  have hkept : ∀ line ∈ (linesOf .aRow (s.replies P env.junk)).map VertexReader.kept,
      line.length ≤ P.cacheLineCount := by
    intro line hline
    obtain ⟨whole, hwhole, rfl⟩ := List.mem_map.mp hline
    exact (VertexReader.length_kept_le whole).trans (hle whole hwhole)
  obtain ⟨hsum, hfull⟩ := Blocks.length_flatten_le hkept
  rw [List.length_map] at hsum hfull
  obtain ⟨lost, hlost⟩ := Nat.exists_eq_add_of_le hsum
  have hbooks := VertexBooks.step (P := P) (s := s) h.1
    (ReaderPort.add_lt_u64Size h.2 hclc) env (hlines ▸ hlost)
  have hzero : lost = 0 := by
    have := hnext.1
    rw [VertexBooks] at hbooks
    omega
  have hshort := length_kept_first P env.junk
  rw [← hrow] at hshort
  have hequal := hfull.mp (by omega) _ (List.mem_map_of_mem (hfirst ▸ List.mem_cons_self))
  omega

/-- The vertex reader before its first row line. -/
structure VertexIdle (P : Params) (s : ParallelState) : Prop where
  accounts : s.VertexAccounts P
  vq : s.vr.vq = []
  pass : s.vr.xRepeat = 0
  room : s.vr.port.Room P.cacheLineCount

/-- Without row lines the vertex reader only requests. -/
theorem VertexIdle.step (hclc : P.cacheLineCount ≤ maxQueueSize) (h : VertexIdle P s)
    (env : ParallelEnv) (hnone : NoRowLine P s env) : VertexIdle P (s.step P env) := by
  have hbooks := VertexBooks.step (P := P) (s := s) h.accounts.1
    (ReaderPort.add_lt_u64Size h.accounts.2 hclc) env
    (show _ = _ + 0 by rw [show delivered P .aRow s env = [] from hnone]; rfl)
  rw [VertexBooks, Nat.add_zero] at hbooks
  cases hended : s.ended with
  | true =>
    rw [ParallelState.step, hended, if_pos rfl]
    exact h
  | false =>
    have hlines : linesOf .aRow (s.replies P env.junk) = [] := by
      rw [NoRowLine, delivered, hended, if_neg Bool.false_ne_true] at hnone
      exact hnone
    obtain ⟨fFlag, hturn, -⟩ := vr_beforeHandOver (P := P) s env.junk
    rw [hlines, List.foldl_nil] at hturn
    have hhand : ((s.beforeHandOver P env.junk).handOver P env.junk).vr =
        (s.beforeHandOver P env.junk).vr := by
      rw [handOver]
      split
      · have hwait := VertexReader.transferData_wait P env.junk (s.beforeHandOver P env.junk).vr
          (by rw [hturn]; exact h.vq) (by rw [hturn]; exact h.pass)
        simp only [hwait]
      · rfl
    have hvr : (s.step P env).vr =
        (({ s.vr with fFlag := fFlag } : VertexReader).requestTurn P).1 := by
      rw [← hturn, ← hhand, ParallelState.step, hended, if_neg Bool.false_ne_true]
      rfl
    obtain ⟨hle, hroom⟩ := h.room.turn .aRow s.vr.vertexReqCount.isEmpty h.accounts.2
    exact ⟨⟨hbooks, by rw [hvr]; exact hle⟩, by rw [hvr]; exact h.vq, by rw [hvr]; exact h.pass,
      by rw [hvr]; exact hroom⟩

theorem delivered_aCol_le (s : ParallelState) (env : ParallelEnv) :
    ∀ line ∈ delivered P .aCol s env, line.length ≤ P.cacheLineCount := by
  rw [delivered]
  split
  · exact fun line hline => (List.not_mem_nil hline).elim
  · exact (lines_dramTurn (P := P) (r := .aCol) rfl s env.junk).2

/-- Once a short column line is delivered, the edge reader's `q_space` is wrong. -/
theorem fullColumnLines_of_accounts (hclc : P.cacheLineCount ≤ maxQueueSize) (env : ParallelEnv)
    (h : s.EdgeAccounts P) (hnext : (s.step P env).EdgeAccounts P) : FullColumnLines P s env := by
  obtain ⟨hsum, hfull⟩ := Blocks.length_flatten_le (delivered_aCol_le (P := P) s env)
  obtain ⟨lost, hlost⟩ := Nat.exists_eq_add_of_le hsum
  have hbooks := EdgeBooks.step (P := P) (s := s) h.1
    (ReaderPort.add_lt_u64Size h.2 hclc) env hlost
  have hzero : lost = 0 := by
    have := hnext.1
    rw [EdgeBooks] at hbooks
    omega
  exact hfull.mp (by omega)

/-- The edge reader while every line was full and fitted. -/
structure EdgeFits (P : Params) (s : ParallelState) : Prop where
  accounts : s.EdgeAccounts P
  room : s.er.port.Room P.cacheLineCount

/-- The edge reader in front of `OuterProduct` keeps to its queue, and has been charged for
what is queued. -/
theorem EdgeFits.beforeOuterProduct (hclc : P.cacheLineCount ≤ maxQueueSize) (h : EdgeFits P s)
    (hended : s.ended = false) (env : ParallelEnv) (hfull : FullColumnLines P s env) :
    (s.beforeOuterProduct P env.junk).port.qSpace ≤ maxQueueSize ∧
      (s.beforeOuterProduct P env.junk).port.Room P.cacheLineCount ∧
      (s.beforeOuterProduct P env.junk).eq.length ≤
        (s.beforeOuterProduct P env.junk).port.qSpace := by
  obtain ⟨-, hspace, hneed⟩ := EdgeReader.foldl_receiveData_space
    (linesOf .aCol (s.replies P env.junk)) s.er
  rw [← er_beforeHandOver, ← (er_handOver (P := P) _ env.junk).2] at hspace hneed
  have hroom : ((s.beforeHandOver P env.junk).handOver P env.junk).er.port.Room
      P.cacheLineCount := by
    rw [ReaderPort.Room, hspace, hneed]
    exact h.room
  have hle : ((s.beforeHandOver P env.junk).handOver P env.junk).er.port.qSpace ≤
      maxQueueSize := by
    rw [hspace]
    exact h.accounts.2
  obtain ⟨hle', hroom'⟩ := hroom.turn .aCol
    ((s.beforeHandOver P env.junk).handOver P env.junk).er.edgeReqCount.isEmpty hle
  refine ⟨hle', hroom', ?_⟩
  rw [FullColumnLines, delivered, hended, if_neg Bool.false_ne_true] at hfull
  have hlost : P.cacheLineCount * (linesOf .aCol (s.replies P env.junk)).length =
      (linesOf .aCol (s.replies P env.junk)).flatten.length + 0 :=
    ((Blocks.length_flatten_le fun line hline => (hfull line hline).le).2.mpr hfull).symm
  have hbooks := (EdgeBooks.beforeHandOver h.accounts.1 env.junk hlost).handOver env.junk
  have hturn := ReaderPort.turn_qSpace .aCol
    ((s.beforeHandOver P env.junk).handOver P env.junk).er.edgeReqCount.isEmpty
    (ReaderPort.add_lt_u64Size hle hclc)
  change ((s.beforeHandOver P env.junk).handOver P env.junk).er.eq.length ≤
    (ReaderPort.turn _ _ _ _).1.qSpace
  rw [hturn]
  rw [EdgeBooks] at hbooks
  omega

/-- With full lines, and room where a block starts, the edge reader keeps its books. -/
theorem EdgeFits.step (hclc : P.cacheLineCount ≤ maxQueueSize) (h : EdgeFits P s)
    (env : ParallelEnv) (hfull : FullColumnLines P s env) (hstart : RoomAtBlockStart P s env) :
    EdgeFits P (s.step P env) := by
  have hlost : P.cacheLineCount * (delivered P .aCol s env).length =
      (delivered P .aCol s env).flatten.length + 0 :=
    ((Blocks.length_flatten_le (delivered_aCol_le s env)).2.mpr hfull).symm
  have hbooks := EdgeBooks.step h.accounts.1
    (ReaderPort.add_lt_u64Size h.accounts.2 hclc) env hlost
  cases hended : s.ended with
  | true =>
    rw [ParallelState.step, hended, if_pos rfl]
    exact h
  | false =>
    have hport : (s.step P env).er.port =
        ((s.beforeOuterProduct P env.junk).outerProduct P env.junk).port := by
      rw [ParallelState.step, hended, if_neg Bool.false_ne_true]
      exact (EdgeReader.write_space P _).2
    obtain ⟨hle, hroom, hqueue⟩ := h.beforeOuterProduct hclc hended env hfull
    have hnext : (s.step P env).er.port.qSpace ≤ maxQueueSize ∧
        (s.step P env).er.port.Room P.cacheLineCount := by
      rw [hport]
      rcases (s.beforeOuterProduct P env.junk).outerProduct_space P env.junk with
        ⟨x, xs, hq, -, hpop⟩ | ⟨-, hkeep, hwant⟩
      · rw [hq, List.length_cons] at hqueue
        have hrelease := ReaderPort.qSpace_release_reopen P.cacheLineCount
          (Nat.zero_lt_of_lt hqueue)
        rw [hpop]
        exact ⟨by omega, hroom.release_reopen (Nat.zero_lt_of_lt hqueue) hle⟩
      · rw [ReaderPort.Room, hkeep]
        refine ⟨hle, fun hreq => ?_⟩
        rcases hwant with hsame | hblock
        · exact hroom (hsame ▸ hreq)
        · exact hstart hended hblock
    exact ⟨⟨hbooks, hnext.1⟩, hnext.2⟩

/-- At the start nothing is requested. -/
theorem lines_init {r : Region} (hr : r.belowWeight = true) (maxDram : Nat) (hmax : 0 < maxDram) :
    (init P maxDram hmax).dram.lines r = 0 := by
  have hxw : Region.xw ≠ r := by
    rintro rfl
    cases hr
  have hnew : (DramInterface.init maxDram P.totAxwCount (P.aH * P.wFold) hmax).lines r = 0 := by
    rw [DramInterface.lines, DramInterface.init_out]
    rfl
  rw [init, DramInterface.lines_request_of_none, hnew]
  intro t ht
  simp only [VertexReader.requestF, List.mem_singleton] at ht
  simp [ht, Transaction.isReadOf, readLine, hxw]

theorem vertexIdle_init (hclc : P.cacheLineCount ≤ maxQueueSize) (maxDram : Nat)
    (hmax : 0 < maxDram) : VertexIdle P (init P maxDram hmax) := by
  refine ⟨⟨?_, Nat.zero_le _⟩, rfl, rfl, ?_⟩
  · rw [lines_init rfl]
    rfl
  · intro _
    exact (Nat.zero_add _).trans_le hclc

theorem edgeFits_init (hclc : P.cacheLineCount ≤ maxQueueSize) (maxDram : Nat)
    (hmax : 0 < maxDram) : EdgeFits P (init P maxDram hmax) := by
  refine ⟨⟨?_, Nat.zero_le _⟩, ?_⟩
  · rw [lines_init rfl]
    rfl
  · intro _
    exact (Nat.zero_add _).trans_le hclc

end Exact

/-- The vertex reader's `q_space` is right in every state of a run exactly when the run
delivers no row line. The edge reader's is right in every state of a run that delivers only
full column lines and has room for a line where a block starts, and only of a run that
delivers full column lines. -/
theorem queue_space_accounting (P : Params) (hclc : P.cacheLineCount ≤ maxQueueSize)
    (maxDram : Nat) (hmax : 0 < maxDram) (envs : List ParallelEnv) :
    (Transition.Always (step P) (VertexAccounts P) (init P maxDram hmax) envs ↔
      Transition.Guarded (step P) (NoRowLine P) (init P maxDram hmax) envs) ∧
    (Transition.Guarded (step P) (fun s env => FullColumnLines P s env ∧ RoomAtBlockStart P s env)
        (init P maxDram hmax) envs →
      Transition.Always (step P) (EdgeAccounts P) (init P maxDram hmax) envs) ∧
    (Transition.Always (step P) (EdgeAccounts P) (init P maxDram hmax) envs →
      Transition.Guarded (step P) (FullColumnLines P) (init P maxDram hmax) envs) := by
  have hvertex := vertexIdle_init hclc maxDram hmax
  have hedge := edgeFits_init hclc maxDram hmax
  refine ⟨⟨?_, ?_⟩, ?_, ?_⟩
  · exact Transition.guarded_of_always
      (I := fun s : ParallelState => s.dc.row = ⟨P.row, P.vertexReqCount, 0⟩)
      (fun s env hrow hnone => (row_step s env hnone).trans hrow)
      (fun s env hrow h hnext => noRowLine_of_accounts hclc env hrow h hnext) rfl
  · intro hguard k
    exact (Transition.always_of_guarded (fun s env hnone h => h.step hclc env hnone) hvertex
      hguard k).accounts
  · intro hguard k
    exact (Transition.always_of_guarded (fun s env hfull h => h.step hclc env hfull.1 hfull.2)
      hedge hguard k).accounts
  · exact Transition.guarded_of_always (I := fun _ => True) (fun _ _ _ _ => trivial)
      (fun s env _ h hnext => fullColumnLines_of_accounts (s := s) hclc env h hnext) trivial

/-- Two blocks whose columns fill a line each. -/
def fullColumns : Params := { State.twoBlocks with
  cacheLineCount := 2
  cacheLineCount_pos := Nat.two_pos }

/-- The edge reader keeps its books; the vertex reader loses space with its first line. -/
theorem queue_space_fullColumns : fullColumns.cacheLineCount ≤ maxQueueSize ∧ 0 < 2 ∧
    Transition.Always (step fullColumns) (EdgeAccounts fullColumns) (init fullColumns 2 Nat.two_pos)
      (List.replicate 12 quickMemories) ∧
    ¬ Transition.Always (step fullColumns) (VertexAccounts fullColumns)
      (init fullColumns 2 Nat.two_pos) (List.replicate 12 quickMemories) := by
  have hclc : fullColumns.cacheLineCount ≤ maxQueueSize := by decide
  obtain ⟨hvertex, hedge, -⟩ := queue_space_accounting fullColumns hclc 2 Nat.two_pos
    (List.replicate 12 quickMemories)
  refine ⟨hclc, Nat.two_pos, hedge (by decide +kernel), ?_⟩
  rw [hvertex]
  decide +kernel

/-- With nothing queued and no line on its way, `6` entries of both queues stay charged. -/
theorem queue_space_twoBlocks :
    let s := run State.twoBlocks 2 Nat.two_pos (List.replicate 4 quickMemories)
    (s.dram.lines .aRow = 0 ∧ s.vr.vq = [] ∧ s.vr.port.qSpace = 6 ∧
      ¬ s.VertexAccounts State.twoBlocks) ∧
    s.dram.lines .aCol = 0 ∧ s.er.eq = [] ∧ s.er.port.qSpace = 6 ∧
      ¬ s.EdgeAccounts State.twoBlocks := by
  decide +kernel

end ParallelState

end GcnSim
