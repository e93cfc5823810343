import GcnSim.Loop.Handshake
import GcnSim.Loop.OneMemory
import GcnSim.Loop.Passes

/-!
# The exit of the A*XW loop

The loop is left when `tot_axw_count` is zero and the first memory has no write in its
buffer. The other memories are not asked, and a line that is requested on top of
`tot_axw_count` may still wait when the counter reaches zero. Without such a line, and with
every write given to the first memory, nothing is left behind.
-/

namespace GcnSim

/-- A write of a result line. -/
def Transaction.isResultWrite (t : Transaction) : Bool := t.isWrite && t.address.region = .axw

/-- A write that no reader issues. -/
def Transaction.isOtherWrite (t : Transaction) : Bool := t.isWrite && t.address.region ≠ .axw

namespace EdgeReader

/-- The result lines requested so far. -/
def lines (er : EdgeReader) : Nat := er.log.writes.count .line

theorem setDoWrite_lines (er : EdgeReader) : er.setDoWrite.lines = er.lines := by
  simp [lines, setDoWrite]

theorem receiveVertex_lines (P : Params) (er : EdgeReader) (vertex : Nat) :
    (er.receiveVertex P vertex).lines = er.lines := by
  unfold receiveVertex
  split
  · dsimp only
    generalize (if vertex < er.curV then er.lastV else er.curV) = prevV
    split
    · split
      · exact setDoWrite_lines _
      · rfl
    · rfl
  · rfl

theorem outerProduct_lines (P : Params) (junk : Junk) (er : EdgeReader) :
    (er.outerProduct P junk).lines = er.lines := by
  unfold outerProduct
  split
  · dsimp only
    split
    · split
      · exact setDoWrite_lines _
      · rfl
    · rfl
  · split
    · dsimp only
      split
      · split
        · exact setDoWrite_lines _
        · rfl
      · split
        · split
          · exact setDoWrite_lines _
          · rfl
        · rfl
    · rfl

theorem foldl_receiveData_lines (data : List (List Nat)) (er : EdgeReader) :
    (data.foldl receiveData er).lines = er.lines := by
  induction data generalizing er with
  | nil => rfl
  | cons line data ih => exact ih _

/-- `Write` requests a line and counts it, or does nothing. -/
theorem write_lines (P : Params) (er : EdgeReader) :
    (er.write P).1.lines = er.lines + (er.write P).2.length ∧
      (er.write P).2 = if er.doWrite then [writeAxw] else [] := by
  unfold write
  split
  · dsimp only
    split
    · simp [lines]
    · simp [lines]
  · exact ⟨rfl, rfl⟩

end EdgeReader

/-- The counter of an interface is what is left of `total` when `lines` result lines were
requested; no other write is on its way, and only the first memory has buffered writes. -/
structure Ledger (total lines : Nat) (d : DramInterface) : Prop where
  lines_le : lines ≤ total
  counted : d.totAxwCount + lines = total + d.out Transaction.isResultWrite
  noOtherWrites : d.out Transaction.isOtherWrite = 0
  buffers : ∀ j, j ≠ 0 → ∀ m, d.drams[j]? = some m → m.writeBuffer = []

namespace Ledger

variable {total lines : Nat} {d : DramInterface}

/-- Reads do not matter. -/
theorem requestReads (h : Ledger total lines d) {ts : List Transaction}
    (hts : ∀ t ∈ ts, t.isWrite = false) : Ledger total lines (d.request ts) := by
  refine ⟨h.lines_le, ?_, ?_, h.buffers⟩
  · rw [DramInterface.request_out_of_none]
    · exact h.counted
    · intro t ht
      rw [Transaction.isResultWrite, hts t ht, Bool.false_and]
  · rw [DramInterface.request_out_of_none]
    · exact h.noOtherWrites
    · intro t ht
      rw [Transaction.isOtherWrite, hts t ht, Bool.false_and]

/-- One more line is requested. -/
theorem requestLine (h : Ledger total lines d) (hlt : lines < total) :
    Ledger total (lines + 1) (d.request [writeAxw]) := by
  have hcounted := h.counted
  refine ⟨hlt, ?_, ?_, h.buffers⟩
  · rw [DramInterface.request_out]
    have hone : [writeAxw].countP Transaction.isResultWrite = 1 := rfl
    rw [hone, ← Nat.add_assoc, ← Nat.add_assoc]
    exact congrArg Nat.succ hcounted
  · rw [DramInterface.request_out]
    exact h.noOtherWrites

/-- The memories other than the first one get no write. -/
theorem addTransaction (h : Ledger total lines d) {accepts : Accepts}
    (hplaced : ∀ x ∈ d.placed accepts, x.2.isWrite = true → x.1 = 0) :
    Ledger total lines (d.addTransaction accepts) := by
  refine ⟨h.lines_le, ?_, ?_, ?_⟩
  · rw [DramInterface.addTransaction_out, DramInterface.addTransaction_totAxwCount]
    exact h.counted
  · rw [DramInterface.addTransaction_out]
    exact h.noOtherWrites
  · intro j hj
    apply DramInterface.addLoop_writeBuffer
    · intro x hx hwrite heqj
      exact hj (heqj.symm.trans (hplaced x hx hwrite))
    · exact h.buffers j hj

/-- The callback of a transaction that left a memory: a result line counts down. -/
theorem callback {d' : DramInterface} {t : Transaction} (h : Ledger total lines d)
    (htot : d'.totAxwCount = d.totAxwCount)
    (hbuffers : ∀ j, j ≠ 0 → ∀ m, d'.drams[j]? = some m → m.writeBuffer = [])
    (hout : ∀ p : Transaction → Bool, d.out p = d'.out p + if p t then 1 else 0) :
    Ledger total lines (d'.callback t) := by
  have hcounted := h.counted
  have hle := h.lines_le
  have hnoOther := h.noOtherWrites
  rw [hout Transaction.isResultWrite, ← htot] at hcounted
  rw [hout Transaction.isOtherWrite] at hnoOther
  obtain ⟨⟨region, line⟩, isWrite⟩ := t
  cases isWrite with
  | false =>
    rw [DramInterface.callback, if_neg Bool.false_ne_true, DramInterface.readCompleteCallback]
    split
    · exact ⟨hle, hcounted, hnoOther, hbuffers⟩
    · exact ⟨hle, hcounted, hnoOther, hbuffers⟩
  | true =>
    rw [DramInterface.callback, if_pos rfl, DramInterface.writeCompleteCallback]
    cases region with
    | aRow => cases hnoOther
    | aCol => cases hnoOther
    | xw => cases hnoOther
    | axw =>
      have hpos : 1 ≤ d'.totAxwCount := by
        change _ = total + (d'.out Transaction.isResultWrite + 1) at hcounted
        omega
      rw [if_pos rfl, u64Sub_of_le hpos]
      refine ⟨hle, ?_, hnoOther, hbuffers⟩
      change d'.totAxwCount - 1 + lines = total + d'.out Transaction.isResultWrite
      change _ = total + (d'.out Transaction.isResultWrite + 1) at hcounted
      omega

/-- Whatever a memory does in a cycle, the counter counts what is on its way. -/
theorem event (h : Ledger total lines d) (i : Nat) (e : MemoryEvent) :
    Ledger total lines (d.event i e) := by
  have hbuffers : ∀ j, j ≠ 0 → ∀ m, (d.event i e).drams[j]? = some m → m.writeBuffer = [] :=
    fun j hj => d.event_writeBuffer (h.buffers j hj)
  rcases d.event_cases i e with ⟨drams, hlt, heq, hout⟩ | ⟨t, drams, hlt, heq, hout⟩
  · have hresult := hout Transaction.isResultWrite
    have hother := hout Transaction.isOtherWrite
    rw [heq] at hresult hother hbuffers ⊢
    refine ⟨h.lines_le, ?_, ?_, hbuffers⟩
    · rw [hresult]
      exact h.counted
    · rw [hother]
      exact h.noOtherWrites
  · rw [heq] at hbuffers ⊢
    refine Ledger.callback h ?_ ?_ ?_
    · rfl
    · rw [DramInterface.callback_drams] at hbuffers
      exact hbuffers
    · intro p
      rw [hout p, heq, DramInterface.callback_out]

theorem updateCycle (h : Ledger total lines d) (ticks : Nat → List MemoryEvent) :
    Ledger total lines (d.updateCycle ticks) :=
  DramInterface.updateCycle_invariant (fun _ i e h => h.event i e) ticks h

/-- When the counter is zero, no write waits or is inside a memory. -/
theorem reads_of_zero (h : Ledger total lines d) (hzero : d.totAxwCount = 0) :
    ∀ t ∈ d.tQueue, t.isWrite = false := by
  have hresult : d.out Transaction.isResultWrite = 0 := by
    have hcounted := h.counted
    have hle := h.lines_le
    omega
  have hnone : ∀ p : Transaction → Bool, d.out p = 0 → ∀ t ∈ d.tQueue, p t = false := by
    intro p hp t ht
    have hq : d.tQueue.countP p = 0 := by
      rw [DramInterface.out] at hp
      omega
    simpa using List.countP_eq_zero.mp hq t ht
  intro t ht
  have hno := hnone _ hresult t ht
  have hno' := hnone _ h.noOtherWrites t ht
  rw [Transaction.isResultWrite] at hno
  rw [Transaction.isOtherWrite] at hno'
  cases hw : t.isWrite with
  | false => rfl
  | true =>
    rw [hw, Bool.true_and, decide_eq_false_iff_not] at hno hno'
    exact absurd hno hno'

/-- When the first memory has no buffered write either, no memory has one. -/
theorem buffers_of_not_writeExist (h : Ledger total lines d) (hexist : d.writeExist = false) :
    ∀ m ∈ d.drams, m.writeBuffer = [] := by
  intro m hm
  obtain ⟨j, hj, rfl⟩ := List.mem_iff_getElem.mp hm
  by_cases hzero : j = 0
  · subst hzero
    rw [DramInterface.writeExist, MemorySystem.isQueueFill, Bool.not_eq_false',
      List.isEmpty_iff] at hexist
    exact hexist
  · exact h.buffers j hzero _ (List.getElem?_eq_getElem hj)

end Ledger

namespace ParallelState

variable {P : Params} {s : ParallelState}

/-- The edge reader in front of `Write`. -/
def beforeWrite (P : Params) (junk : Junk) (s : ParallelState) : EdgeReader :=
  (((s.beforeHandOver P junk).handOver P junk).er.requestTurn P).1.outerProduct P junk

/-- The iteration requests no line on top of `tot_axw_count`, and `AddTransaction` gives no
write to a memory other than the first one. -/
def WritesCovered (P : Params) (s : ParallelState) (env : ParallelEnv) : Prop :=
  s.ended = false →
    ((s.beforeWrite P env.junk).doWrite = true →
      (s.beforeWrite P env.junk).lines < P.totAxwCount) ∧
    ∀ x ∈ (s.beforeAdd P env.junk).dram.placed env.accepts, x.2.isWrite = true → x.1 = 0

theorem poll_ledger {total lines : Nat} (h : Ledger total lines s.dram) :
    Ledger total lines s.poll.2.dram := by
  rw [poll]
  split
  · exact ⟨h.lines_le, h.counted, h.noOtherWrites, h.buffers⟩
  · split
    · exact ⟨h.lines_le, h.counted, h.noOtherWrites, h.buffers⟩
    · exact h

theorem polls_er (n : Nat) (s : ParallelState) : (s.polls n).2.er = s.er := by
  obtain ⟨dram, fFlag, heq⟩ := polls_frame n s
  rw [heq]

theorem polls_ledger {total lines : Nat} (n : Nat) (h : Ledger total lines s.dram) :
    Ledger total lines (s.polls n).2.dram := by
  induction n generalizing s with
  | zero => exact h
  | succ n ih => exact ih (poll_ledger h)

/-- Up to the hand-over only reads are requested. -/
theorem beforeHandOver_ledger {total : Nat} (h : Ledger total s.er.lines s.dram) (junk : Junk) :
    Ledger total (s.beforeHandOver P junk).er.lines (s.beforeHandOver P junk).dram := by
  have hlines : (s.beforeHandOver P junk).er.lines = s.er.lines := by
    refine (EdgeReader.foldl_receiveData_lines _ _).trans ?_
    exact congrArg EdgeReader.lines (polls_er _ s)
  rw [hlines]
  apply Ledger.requestReads (polls_ledger _ h)
  intro t ht
  obtain ⟨line, rfl⟩ := ReaderPort.turn_requests _ _ _ _ t ht
  rfl

theorem handOver_ledger {total : Nat} (h : Ledger total s.er.lines s.dram) (junk : Junk) :
    Ledger total (s.handOver P junk).er.lines (s.handOver P junk).dram := by
  rw [handOver]
  split
  · dsimp only
    rw [EdgeReader.receiveVertex_lines]
    apply h.requestReads
    intro t ht
    rcases s.vr.transferData_handshake P junk with ⟨hnil, -⟩ | ⟨⟨line, hread⟩, -⟩
    · rw [hnil] at ht
      cases ht
    · rw [hread] at ht
      rw [List.mem_singleton.mp ht]
      rfl
  · exact h

theorem edgeTurn_ledger {total : Nat} (h : Ledger total s.er.lines s.dram) (junk : Junk)
    (hline : ((s.er.requestTurn P).1.outerProduct P junk).doWrite = true →
      ((s.er.requestTurn P).1.outerProduct P junk).lines < total) :
    Ledger total (s.edgeTurn P junk).er.lines (s.edgeTurn P junk).dram := by
  have hread : Ledger total s.er.lines (s.dram.request (s.er.requestTurn P).2) := by
    apply h.requestReads
    intro t ht
    obtain ⟨line, rfl⟩ := ReaderPort.turn_requests _ _ _ _ t ht
    rfl
  have hsame : ((s.er.requestTurn P).1.outerProduct P junk).lines = s.er.lines :=
    EdgeReader.outerProduct_lines P junk _
  obtain ⟨hcount, hwrite⟩ :=
    EdgeReader.write_lines P ((s.er.requestTurn P).1.outerProduct P junk)
  rw [hsame] at hline hcount
  rw [edgeTurn]
  dsimp only
  rw [hcount, hwrite]
  split
  · rename_i hdo
    exact hread.requestLine (hline hdo)
  · exact hread.requestReads fun t ht => (List.not_mem_nil ht).elim

/-- The accounts of the result writes, and what the exit test has seen. -/
structure Covered (P : Params) (s : ParallelState) : Prop where
  ledger : Ledger P.totAxwCount s.er.lines s.dram
  exit : s.ended = true → s.dram.totAxwCount = 0 ∧ s.dram.writeExist = false

theorem init_covered (P : Params) (maxDram : Nat) (hmax : 0 < maxDram) :
    (init P maxDram hmax).Covered P := by
  refine ⟨⟨Nat.zero_le _, ?_, ?_, ?_⟩, fun h => by cases h⟩
  · rw [init, DramInterface.request_out, DramInterface.init_out]
    rfl
  · rw [init, DramInterface.request_out, DramInterface.init_out]
    rfl
  · intro j _ m hm
    rw [List.eq_of_mem_replicate (List.mem_of_getElem? hm)]
    rfl

/-- The exit test. -/
theorem cycleEnd_exit (s : ParallelState) (ticks : Nat → List MemoryEvent)
    (hended : (s.cycleEnd ticks).ended = true) :
    (s.cycleEnd ticks).dram.totAxwCount = 0 ∧ (s.cycleEnd ticks).dram.writeExist = false :=
  of_decide_eq_true hended

theorem step_covered (s : ParallelState) (env : ParallelEnv) (hguard : s.WritesCovered P env)
    (h : s.Covered P) : (s.step P env).Covered P := by
  rw [step]
  split
  · exact h
  · rename_i hended
    rw [Bool.not_eq_true] at hended
    obtain ⟨hline, hplaced⟩ := hguard hended
    have hbefore := beforeHandOver_ledger (P := P) h.ledger env.junk
    have hhand := handOver_ledger (P := P) hbefore env.junk
    have hadd : Ledger P.totAxwCount (s.beforeAdd P env.junk).er.lines
        (s.beforeAdd P env.junk).dram := edgeTurn_ledger hhand env.junk hline
    refine ⟨(hadd.addTransaction hplaced).updateCycle env.ticks, ?_⟩
    exact cycleEnd_exit _ _

/-- With any number of memories: if no line is requested on top of `tot_axw_count` and every
write is given to the first memory, then no write waits and no write buffer is filled when
the loop is left. -/
theorem exit_leaves_no_write (P : Params) (maxDram : Nat) (hmax : 0 < maxDram)
    (envs : List ParallelEnv)
    (hguard : Transition.Guarded (step P) (WritesCovered P) (init P maxDram hmax) envs)
    (hended : (run P maxDram hmax envs).ended = true) :
    (∀ t ∈ (run P maxDram hmax envs).dram.tQueue, t.isWrite = false) ∧
      ∀ m ∈ (run P maxDram hmax envs).dram.drams, m.writeBuffer = [] := by
  have h : (run P maxDram hmax envs).Covered P :=
    Transition.run_invariant_of_guarded step_covered (init_covered P maxDram hmax) hguard
  obtain ⟨hzero, hexist⟩ := h.exit hended
  exact ⟨h.ledger.reads_of_zero hzero, h.ledger.buffers_of_not_writeExist hexist⟩

/-- With one memory and at least two folds, every run on a graph with well shaped blocks
requests no line on top of `tot_axw_count`, if that is not rounded down. -/
theorem guarded_of_one_memory (hrun : P.RunOk) (hw : 2 ≤ P.wW)
    (hcount : P.axwLines ≤ P.totAxwCount) (envs : List ParallelEnv) :
    Transition.Guarded (step P) (WritesCovered P) (init P 1 Nat.one_pos) envs := by
  have hcovered : ∀ (s : ParallelState) (env : ParallelEnv), s.OneMemory P →
      s.WritesCovered P env := by
    intro s env h hended
    constructor
    · intro hdo
      obtain ⟨envs', hnext⟩ := (h.step env).reached
      have hle : (s.step P env).er.lines ≤ P.totAxwCount := by
        have hissued := (State.run_accounted hrun envs').issued_le hw
        rw [← hnext] at hissued
        exact hissued.trans hcount
      have her : (s.step P env).er = ((s.beforeWrite P env.junk).write P).1 := by
        rw [step, if_neg (by rw [hended]; exact Bool.false_ne_true)]
        rfl
      obtain ⟨hcount, hwrite⟩ := EdgeReader.write_lines P (s.beforeWrite P env.junk)
      rw [hwrite, if_pos hdo, List.length_singleton] at hcount
      rw [her, hcount] at hle
      exact hle
    · intro x hx _
      have hlt := DramInterface.addLoop_placed_lt _ _ _ _ x hx
      rw [(single_beforeAdd h.one env.junk).2] at hlt
      exact Nat.lt_one_iff.mp hlt
  exact Transition.guarded_of_invariant (fun s env h => h.step env) hcovered
    (OneMemory.init P) envs

/-- The loop is left with one memory, three folds and two blocks. -/
theorem exit_leaves_no_write_twoBlocks :
    let s := run State.twoBlocks 1 Nat.one_pos (List.replicate 17 quickMemories)
    s.ended = true ∧ (∀ t ∈ s.dram.tQueue, t.isWrite = false) ∧
      ∀ m ∈ s.dram.drams, m.writeBuffer = [] := by
  intro s
  have hrun : State.twoBlocks.RunOk := by decide +kernel
  have hended : s.ended = true := by decide +kernel
  exact ⟨hended, exit_leaves_no_write State.twoBlocks 1 Nat.one_pos _
    (guarded_of_one_memory hrun (by decide) (by decide +kernel) _) hended⟩

/-- Two memories of which the second one does not drain its write buffer. -/
def lazySecond : ParallelEnv where
  accepts := fun _ _ _ => true
  ticks := fun i => [.report 0, .report 0, .report 0] ++ if i = 0 then [.drain 0, .drain 0] else []
  junk := fun _ => 0

/-- A memory that keeps the last writes, and then reports them while it refuses the next. -/
def lateReport : List ParallelEnv :=
  List.replicate 4 quickMemories ++ List.replicate 4 { quickMemories with ticks := fun _ => [] } ++
    [{ quickMemories with accepts := fun _ _ _ => false }]

/-- With two memories the loop is left while the second one has buffered writes; with one
memory and one fold it is left while a write on top of `tot_axw_count` waits. -/
theorem exit_leaves_writes :
    let s := run State.twoBlocks 2 Nat.two_pos (List.replicate 15 lazySecond)
    let s' := run State.oneFold 1 Nat.one_pos lateReport
    ¬ (s.ended = true → (∀ t ∈ s.dram.tQueue, t.isWrite = false) ∧
        ∀ m ∈ s.dram.drams, m.writeBuffer = []) ∧
      ¬ (s'.ended = true → (∀ t ∈ s'.dram.tQueue, t.isWrite = false) ∧
        ∀ m ∈ s'.dram.drams, m.writeBuffer = []) := by
  decide +kernel

end ParallelState

end GcnSim
