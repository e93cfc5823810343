import GcnSim.Loop.Handshake

/-!
# Lines on their way

A row or column line is on its way from its request to the poll that takes it: it waits, it
is inside a memory, or it lies in `f_address`. The polls of an iteration hand lines to the
data controller, and every reply is handed to its reader in the same iteration.
-/

namespace GcnSim

/-- A read of a line of the region. -/
def Transaction.isReadOf (r : Region) (t : Transaction) : Bool := !t.isWrite && t.address.region = r

namespace DramInterface

/-- The lines of a region that were requested and not polled: waiting, inside a memory, or
in `f_address`. -/
def lines (d : DramInterface) (r : Region) : Nat :=
  d.out (Transaction.isReadOf r) + d.fAddress.countP (fun a => a.region = r)

variable (d : DramInterface) (r : Region)

theorem lines_request (ts : List Transaction) :
    (d.request ts).lines r = d.lines r + ts.countP (Transaction.isReadOf r) := by
  rw [lines, request_out, Nat.add_right_comm]
  rfl

/-- Requests of other regions and writes do not matter. -/
theorem lines_request_of_none {ts : List Transaction} (hts : ∀ t ∈ ts, t.isReadOf r = false) :
    (d.request ts).lines r = d.lines r := by
  rw [lines, request_out_of_none _ _ hts]
  rfl

theorem lines_addTransaction (accepts : Accepts) :
    (d.addTransaction accepts).lines r = d.lines r := by
  obtain ⟨tQueue, drams, dramIdx, hlt, heq⟩ := addLoop_frame accepts d.dramIdx d.tQueue d
  have hf : (d.addTransaction accepts).fAddress = d.fAddress := by rw [addTransaction, heq]
  rw [lines, lines, addTransaction_out, hf]

/-- The callback of a transaction that left a memory: a row or column line moves to
`f_address`. -/
theorem lines_callback {r : Region} (hr : r.belowWeight = true) (t : Transaction) :
    (d.callback t).lines r = d.lines r + if t.isReadOf r then 1 else 0 := by
  rw [lines, callback_out, lines, Nat.add_assoc, Nat.add_left_cancel_iff]
  obtain ⟨⟨region, line⟩, isWrite⟩ := t
  cases isWrite with
  | true =>
    rw [callback, if_pos rfl, writeCompleteCallback]
    split <;> rfl
  | false =>
    rw [callback, if_neg Bool.false_ne_true, readCompleteCallback]
    by_cases hregion : region = r
    · subst hregion
      rw [if_pos hr, List.countP_append, List.countP_singleton]
      simp [Transaction.isReadOf]
    · split
      · rw [List.countP_append, List.countP_singleton]
        simp [Transaction.isReadOf, hregion]
      · simp [Transaction.isReadOf, hregion]

theorem lines_event {r : Region} (hr : r.belowWeight = true) (i : Nat) (e : MemoryEvent) :
    (d.event i e).lines r = d.lines r := by
  rcases d.event_cases i e with ⟨drams, hlt, heq, hout⟩ | ⟨t, drams, hlt, heq, hout⟩
  · have hsame := hout (Transaction.isReadOf r)
    rw [heq] at hsame ⊢
    rw [lines, hsame]
    rfl
  · have hone := hout (Transaction.isReadOf r)
    rw [heq, callback_out] at hone
    rw [heq, lines_callback _ hr, lines, lines, hone]
    change _ + d.fAddress.countP _ + _ = _
    omega

theorem lines_updateCycle {r : Region} (hr : r.belowWeight = true)
    (ticks : Nat → List MemoryEvent) : (d.updateCycle ticks).lines r = d.lines r :=
  updateCycle_invariant (I := fun d' => d'.lines r = d.lines r)
    (fun d' i e h => (lines_event d' hr i e).trans h) ticks rfl

end DramInterface

namespace LineFeed

/-- No reply is longer than a line. -/
theorem length_dataReturn_le (clc : Nat) (cnt dat : Access) (junk : Junk) (f : LineFeed) :
    (f.dataReturn clc cnt dat junk).1.length ≤ clc := by
  rw [dataReturn]
  split
  · rw [length_popMany]
    omega
  · rw [length_popMany]

end LineFeed

namespace ParallelState

variable {P : Params} {s : ParallelState}

/-- The replies of the data controller in an iteration. -/
def replies (P : Params) (s : ParallelState) (junk : Junk) : List (Region × List Nat) :=
  (s.dramTurn.2.controllerTurn P junk s.dramTurn.1).1

/-- The lines of a region that an iteration hands to their reader. -/
def delivered (P : Params) (r : Region) (s : ParallelState) (env : ParallelEnv) :
    List (List Nat) :=
  if s.ended then [] else linesOf r (s.replies P env.junk)

theorem poll_lines (r : Region) (s : ParallelState) :
    s.dram.lines r = s.poll.2.dram.lines r + s.poll.1.toList.countP (fun a => a.region = r) := by
  rw [poll]
  split
  · simp only [DramInterface.getReadData, Bool.false_eq_true, if_false, DramInterface.lines]
    cases s.dram.fAddress with
    | nil => rfl
    | cons a as =>
      simp only [List.countP_cons, List.tail_cons, List.head?_cons, Option.toList_some,
        List.countP_nil, Nat.zero_add]
      exact (Nat.add_assoc _ _ _).symm
  · split <;> rfl

/-- A line that is polled is no longer on its way. -/
theorem polls_lines (r : Region) (n : Nat) (s : ParallelState) :
    s.dram.lines r = (s.polls n).2.dram.lines r +
      (s.polls n).1.countP (fun a => a.region = r) := by
  induction n generalizing s with
  | zero => rfl
  | succ n ih =>
    rw [poll_lines, ih s.poll.2, polls, List.countP_append]
    dsimp only
    omega

/-- Every polled line of a reader is replied to, with a line at most. -/
theorem dataReturns_lines {r : Region} (hr : r.belowWeight = true) (junk : Junk)
    (as : List Address) (dc : DataController) :
    (linesOf r (dataReturns P junk as dc).1).length = as.countP (fun a => a.region = r) ∧
      ∀ line ∈ linesOf r (dataReturns P junk as dc).1, line.length ≤ P.cacheLineCount := by
  induction as generalizing dc with
  | nil => exact ⟨rfl, fun line hline => (List.not_mem_nil hline).elim⟩
  | cons a as ih =>
    obtain ⟨region, line⟩ := a
    -- The reply to one address is followed by the replies to the others.
    have hcons : ∀ (data : List Nat) (dc' : DataController), data.length ≤ P.cacheLineCount →
        (linesOf r ((region, data) :: (dataReturns P junk as dc').1)).length =
          (⟨region, line⟩ :: as).countP (fun a => a.region = r) ∧
        ∀ l ∈ linesOf r ((region, data) :: (dataReturns P junk as dc').1),
          l.length ≤ P.cacheLineCount := by
      intro data dc' hdata
      obtain ⟨hlen, hle⟩ := ih dc'
      by_cases hregion : region = r
      · have hlines : linesOf r ((region, data) :: (dataReturns P junk as dc').1) =
            data :: linesOf r (dataReturns P junk as dc').1 := by
          simp [linesOf, hregion]
        rw [hlines, List.length_cons, hlen, List.forall_mem_cons]
        exact ⟨by simp [hregion], hdata, hle⟩
      · have hlines : linesOf r ((region, data) :: (dataReturns P junk as dc').1) =
            linesOf r (dataReturns P junk as dc').1 := by
          simp [linesOf, hregion]
        rw [hlines, hlen]
        exact ⟨by simp [hregion], hle⟩
    have hskip : region ≠ r → as.countP (fun a => a.region = r) =
        (⟨region, line⟩ :: as).countP (fun a => a.region = r) := by
      intro hregion
      simp [hregion]
    cases region with
    | aRow => exact hcons _ _ (LineFeed.length_dataReturn_le _ _ _ _ _)
    | aCol => exact hcons _ _ (LineFeed.length_dataReturn_le _ _ _ _ _)
    | xw =>
      obtain ⟨hlen, hle⟩ := ih dc
      exact ⟨hlen.trans (hskip (by rintro rfl; cases hr)), hle⟩
    | axw =>
      obtain ⟨hlen, hle⟩ := ih dc
      exact ⟨hlen.trans (hskip (by rintro rfl; cases hr)), hle⟩

/-- The lines on their way before an iteration are those that it delivers and those that are
still on their way after its polls. -/
theorem lines_dramTurn {r : Region} (hr : r.belowWeight = true) (s : ParallelState)
    (junk : Junk) :
    s.dram.lines r = s.dramTurn.2.dram.lines r + (linesOf r (s.replies P junk)).length ∧
      ∀ line ∈ linesOf r (s.replies P junk), line.length ≤ P.cacheLineCount := by
  obtain ⟨hlen, hle⟩ := dataReturns_lines (P := P) hr junk s.dramTurn.1 s.dramTurn.2.dc
  refine ⟨?_, hle⟩
  rw [replies, controllerTurn, hlen]
  exact polls_lines r _ s

/-- Up to the hand-over the vertex reader gets its lines and requests. -/
theorem vr_beforeHandOver (s : ParallelState) (junk : Junk) : ∃ fFlag,
    (s.beforeHandOver P junk).vr = (((linesOf .aRow (s.replies P junk)).foldl
      VertexReader.receiveData { s.vr with fFlag := fFlag }).requestTurn P).1 ∧
    (s.beforeHandOver P junk).dram = s.dramTurn.2.dram.request
      (((linesOf .aRow (s.replies P junk)).foldl VertexReader.receiveData
        { s.vr with fFlag := fFlag }).requestTurn P).2 := by
  obtain ⟨dram, fFlag, hpolls⟩ := polls_frame s.dram.drams.length s
  have hpolled : s.dramTurn.2.vr = { s.vr with fFlag := fFlag } := by rw [dramTurn, hpolls]
  refine ⟨fFlag, ?_⟩
  rw [← hpolled]
  exact ⟨rfl, rfl⟩

/-- Up to the hand-over the edge reader gets its lines. -/
theorem er_beforeHandOver (s : ParallelState) (junk : Junk) : (s.beforeHandOver P junk).er =
    (linesOf .aCol (s.replies P junk)).foldl EdgeReader.receiveData s.er := by
  obtain ⟨dram, fFlag, hpolls⟩ := polls_frame s.dram.drams.length s
  have hpolled : s.dramTurn.2.er = s.er := by rw [dramTurn, hpolls]
  rw [← hpolled]
  rfl

/-- Requests of a reader's turn are reads of its region. -/
theorem turn_isReadOf {r r' : Region} (hne : r ≠ r') (exhausted : Bool) (p : ReaderPort) :
    ∀ t ∈ (p.turn P.cacheLineCount r exhausted).2, t.isReadOf r' = false := by
  intro t ht
  obtain ⟨line, rfl⟩ := ReaderPort.turn_requests _ _ _ _ t ht
  simp [Transaction.isReadOf, readLine, hne]

/-- A hand-over requests nothing but feature lines. -/
theorem lines_handOver {r : Region} (hr : r.belowWeight = true) (junk : Junk) :
    (s.handOver P junk).dram.lines r = s.dram.lines r := by
  have hxw : Region.xw ≠ r := by
    rintro rfl
    cases hr
  rw [handOver]
  split
  · apply DramInterface.lines_request_of_none
    intro t ht
    rcases s.vr.transferData_handshake P junk with ⟨hnil, -⟩ | ⟨⟨line, hread⟩, -⟩
    · rw [hnil] at ht
      cases ht
    · rw [hread, List.mem_singleton] at ht
      simp [ht, Transaction.isReadOf, readLine, hxw]
  · rfl

/-- After `OuterProduct` nothing happens to the lines but their requests. -/
theorem lines_edgeTurn (r : Region) (junk : Junk) :
    (s.edgeTurn P junk).dram.lines r =
      s.dram.lines r + (s.er.requestTurn P).2.countP (Transaction.isReadOf r) := by
  rw [edgeTurn]
  dsimp only
  rw [DramInterface.lines_request_of_none, DramInterface.lines_request]
  intro t ht
  rw [EdgeReader.mem_write_requests ht]
  rfl

/-- `AddTransaction` and `UpdateCycle` lose no line. -/
theorem lines_step {r : Region} (hr : r.belowWeight = true) (env : ParallelEnv)
    (hended : s.ended = false) :
    (s.step P env).dram.lines r = (s.beforeAdd P env.junk).dram.lines r := by
  rw [step, hended, if_neg Bool.false_ne_true]
  simp only [addTurn, cycleEnd]
  rw [DramInterface.lines_updateCycle _ hr, DramInterface.lines_addTransaction]

/-- Behind the turns of the readers an iteration does not touch them. -/
theorem readers_step (env : ParallelEnv) (hended : s.ended = false) :
    (s.step P env).vr = (s.beforeAdd P env.junk).vr ∧
      (s.step P env).er = (s.beforeAdd P env.junk).er := by
  rw [step, hended, if_neg Bool.false_ne_true]
  exact ⟨rfl, rfl⟩

end ParallelState

end GcnSim
