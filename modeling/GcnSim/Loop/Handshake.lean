import GcnSim.Core.ParallelSimulator
import GcnSim.Loop.Phase

/-!
# The feature-read handshake

One feature line is on its way or `f_flag` is set, never both and never neither: the poll
that takes the line sets the flag, and the transfer that clears the flag requests the next
line. Nothing is assumed about the graph, the number of memories or their delays.
-/

namespace GcnSim

/-- A read that `RequestF` issues. -/
def Transaction.isFeatureRead (t : Transaction) : Bool := !t.isWrite && t.address.region = .xw

/-- A read that no reader issues. -/
def Transaction.isResultRead (t : Transaction) : Bool := !t.isWrite && t.address.region = .axw

/-- The request turn of a reader asks for at most one line of its region. -/
theorem ReaderPort.turn_requests (clc : Nat) (r : Region) (exhausted : Bool) (p : ReaderPort) :
    ∀ t ∈ (p.turn clc r exhausted).2, ∃ line, t = readLine r line := by
  intro t ht
  have hturn : ∀ p : ReaderPort, t ∈ (if p.reqNeed then p.request clc r else (p, [])).2 →
      ∃ line, t = readLine r line := by
    intro p ht
    split at ht
    · exact ⟨_, List.mem_singleton.mp ht⟩
    · cases ht
  exact hturn _ ht

/-- `Write` requests nothing but result lines. -/
theorem EdgeReader.mem_write_requests {P : Params} {er : EdgeReader} {t : Transaction}
    (ht : t ∈ (er.write P).2) : t = writeAxw := by
  rw [EdgeReader.write] at ht
  split at ht
  · exact List.mem_singleton.mp ht
  · cases ht

namespace VertexReader

/-- A taken row requests a feature line exactly when it clears `f_flag`. -/
theorem countPop_handshake (P : Params) (vr : VertexReader) :
    ((countPop P vr).2 = [] ∧ (countPop P vr).1.fFlag = vr.fFlag) ∨
      (countPop P vr).2 = [readLine .xw vr.reqFLine] ∧ (countPop P vr).1.fFlag = false := by
  by_cases h : vr.popCount + 1 = P.cacheLineCount - 1 ∨ vr.preRow = P.aH - 1
  · right
    simp only [countPop, if_pos h, requestF, and_self]
  · left
    simp only [countPop, if_neg h, and_self]

/-- `TransferData` requests a feature line exactly when it clears `f_flag`. -/
theorem transferData_handshake (P : Params) (junk : Junk) (vr : VertexReader) :
    ((vr.transferData P junk).2.2 = [] ∧ (vr.transferData P junk).2.1.fFlag = vr.fFlag) ∨
      (∃ line, (vr.transferData P junk).2.2 = [readLine .xw line]) ∧
        (vr.transferData P junk).2.1.fFlag = false := by
  have hpop : ∀ vr' : VertexReader, vr'.fFlag = vr.fFlag →
      ((countPop P vr').2 = [] ∧ (countPop P vr').1.fFlag = vr.fFlag) ∨
        (∃ line, (countPop P vr').2 = [readLine .xw line]) ∧
          (countPop P vr').1.fFlag = false := by
    intro vr' hflag
    rcases countPop_handshake P vr' with ⟨hnil, hsame⟩ | ⟨hread, hclear⟩
    · exact .inl ⟨hnil, hsame.trans hflag⟩
    · exact .inr ⟨⟨_, hread⟩, hclear⟩
  unfold transferData
  split
  · dsimp only
    split <;> exact hpop _ rfl
  · split
    · dsimp only
      split
      · split
        · exact hpop _ rfl
        · exact hpop _ rfl
      · exact hpop _ rfl
    · exact .inl ⟨rfl, rfl⟩

theorem requestTurn_fFlag (P : Params) (vr : VertexReader) :
    (vr.requestTurn P).1.fFlag = vr.fFlag := rfl

theorem foldl_receiveData_fFlag (lines : List (List Nat)) (vr : VertexReader) :
    (lines.foldl receiveData vr).fFlag = vr.fFlag := by
  induction lines generalizing vr with
  | nil => rfl
  | cons line lines ih => exact ih _

end VertexReader

/-- The interface and `f_flag` agree: a feature line is on its way, or the flag is set. -/
structure Handshake (d : DramInterface) (fFlag : Bool) : Prop where
  one : d.out Transaction.isFeatureRead + d.wAddress.length + fFlag.toNat = 1
  features : ∀ a ∈ d.wAddress, a.region = .xw
  noResultReads : d.out Transaction.isResultRead = 0
  ready : d.wReadComplete = true → d.wAddress ≠ []

namespace Handshake

variable {d : DramInterface} {fFlag : Bool}

/-- Requests other than reads of features do not matter. -/
theorem request (h : Handshake d fFlag) {ts : List Transaction}
    (hts : ∀ t ∈ ts, t.isFeatureRead = false ∧ t.isResultRead = false) :
    Handshake (d.request ts) fFlag := by
  refine ⟨?_, h.features, ?_, h.ready⟩
  · rw [DramInterface.request_out_of_none _ _ fun t ht => (hts t ht).1]
    exact h.one
  · rw [DramInterface.request_out_of_none _ _ fun t ht => (hts t ht).2]
    exact h.noResultReads

/-- `RequestF` with the flag set. -/
theorem requestF (h : Handshake d true) (line : Nat) :
    Handshake (d.request [readLine .xw line]) false := by
  have hone := h.one
  refine ⟨?_, h.features, ?_, h.ready⟩
  · rw [DramInterface.request_out]
    have hread : [readLine .xw line].countP Transaction.isFeatureRead = 1 := rfl
    rw [hread, Nat.add_right_comm _ 1]
    exact hone
  · rw [DramInterface.request_out]
    exact h.noResultReads

/-- A polled feature line sets the flag, which was not set. -/
theorem pollFeature (h : Handshake d fFlag) (hready : d.wReadComplete = true) :
    Handshake (d.getReadData true).2 true := by
  have hone := h.one
  have hnoResult := h.noResultReads
  have hfeatures := h.features
  cases hw : d.wAddress with
  | nil => exact absurd hw (h.ready hready)
  | cons a rest =>
    rw [hw, List.length_cons] at hone
    rw [hw, List.forall_mem_cons] at hfeatures
    have hrest : rest = [] := List.eq_nil_of_length_eq_zero (by omega)
    have hget : (d.getReadData true).2 = { d with
        wAddress := []
        wReadComplete := false } := by
      simp [DramInterface.getReadData, hw, hrest]
    rw [hget]
    refine ⟨?_, fun a ha => (List.not_mem_nil ha).elim, hnoResult, ?_⟩
    · have hzero : d.out Transaction.isFeatureRead = 0 := by omega
      change d.out Transaction.isFeatureRead + 0 + 1 = 1
      omega
    · intro hfalse
      cases hfalse

/-- A polled row or column line does not matter. -/
theorem pollLine (h : Handshake d fFlag) : Handshake (d.getReadData false).2 fFlag :=
  ⟨h.one, h.features, h.noResultReads, h.ready⟩

theorem addTransaction (h : Handshake d fFlag) (accepts : Accepts) :
    Handshake (d.addTransaction accepts) fFlag := by
  refine ⟨?_, ?_, ?_, ?_⟩
  · rw [DramInterface.addTransaction_out, DramInterface.addTransaction_wAddress]
    exact h.one
  · rw [DramInterface.addTransaction_wAddress]
    exact h.features
  · rw [DramInterface.addTransaction_out]
    exact h.noResultReads
  · rw [DramInterface.addTransaction_wAddress, DramInterface.addTransaction_wReadComplete]
    exact h.ready

/-- The callback of a transaction that left a memory: a feature read moves to `w_address`. -/
theorem callback {d' : DramInterface} {t : Transaction} (h : Handshake d fFlag)
    (hw : d'.wAddress = d.wAddress) (hready : d'.wReadComplete = d.wReadComplete)
    (hout : ∀ p : Transaction → Bool, d.out p = d'.out p + if p t then 1 else 0) :
    Handshake (d'.callback t) fFlag := by
  have hone := h.one
  have hnoResult := h.noResultReads
  rw [hout Transaction.isFeatureRead, ← hw] at hone
  rw [hout Transaction.isResultRead] at hnoResult
  have hfeatures := h.features
  have hset := h.ready
  rw [← hw] at hfeatures hset
  rw [← hready] at hset
  obtain ⟨⟨region, line⟩, isWrite⟩ := t
  cases isWrite with
  | true =>
    -- A write only counts down.
    have hwrite : ∀ n m : Nat, Handshake { d' with
        totAxwCount := n
        totXwCount := m } fFlag := fun n m => ⟨hone, hfeatures, hnoResult, hset⟩
    rw [DramInterface.callback, if_pos rfl, DramInterface.writeCompleteCallback]
    split
    · exact hwrite _ _
    · exact hwrite _ _
  | false =>
    rw [DramInterface.callback, if_neg Bool.false_ne_true]
    cases region with
    | aRow => exact ⟨hone, hfeatures, hnoResult, hset⟩
    | aCol => exact ⟨hone, hfeatures, hnoResult, hset⟩
    | axw => cases hnoResult
    | xw =>
      refine ⟨?_, ?_, hnoResult, ?_⟩
      · change d'.out Transaction.isFeatureRead + (d'.wAddress ++ [_]).length + _ = 1
        rw [List.length_append, List.length_singleton, ← Nat.add_assoc, Nat.add_right_comm _ _ 1]
        exact hone
      · intro a ha
        rcases List.mem_append.mp ha with ha | ha
        · exact hfeatures a ha
        · rw [List.mem_singleton.mp ha]
      · intro _
        exact List.append_ne_nil_of_right_ne_nil _ (List.cons_ne_nil _ _)

/-- Whatever a memory does in a cycle, the handshake goes on. -/
theorem event (h : Handshake d fFlag) (i : Nat) (e : MemoryEvent) :
    Handshake (d.event i e) fFlag := by
  rcases d.event_cases i e with ⟨drams, hlt, heq, hout⟩ | ⟨t, drams, hlt, heq, hout⟩
  · have hfeature := hout Transaction.isFeatureRead
    have hresult := hout Transaction.isResultRead
    rw [heq] at hfeature hresult ⊢
    refine ⟨?_, h.features, ?_, h.ready⟩
    · rw [hfeature]
      exact h.one
    · rw [hresult]
      exact h.noResultReads
  · rw [heq]
    refine Handshake.callback h ?_ ?_ ?_
    · rfl
    · rfl
    · intro p
      rw [hout p, heq, DramInterface.callback_out]

theorem updateCycle (h : Handshake d fFlag) (ticks : Nat → List MemoryEvent) :
    Handshake (d.updateCycle ticks) fFlag :=
  DramInterface.updateCycle_invariant (I := fun d => Handshake d fFlag)
    (fun _ i e h => h.event i e) ticks h

end Handshake

namespace ParallelState

variable {P : Params} {s : ParallelState}

theorem poll_handshake (h : Handshake s.dram s.vr.fFlag) :
    Handshake s.poll.2.dram s.poll.2.vr.fFlag := by
  rw [poll]
  split
  · exact h.pollLine
  · split
    · rename_i hready
      exact h.pollFeature hready
    · exact h

theorem polls_handshake (n : Nat) (h : Handshake s.dram s.vr.fFlag) :
    Handshake (s.polls n).2.dram (s.polls n).2.vr.fFlag := by
  induction n generalizing s with
  | zero => exact h
  | succ n ih => exact ih (poll_handshake h)

theorem vertexTurn_handshake (h : Handshake s.dram s.vr.fFlag)
    (replies : List (Region × List Nat)) :
    Handshake (s.vertexTurn P replies).dram (s.vertexTurn P replies).vr.fFlag := by
  rw [vertexTurn]
  dsimp only
  rw [VertexReader.requestTurn_fFlag, VertexReader.foldl_receiveData_fFlag]
  apply h.request
  intro t ht
  obtain ⟨line, rfl⟩ := ReaderPort.turn_requests _ _ _ _ t ht
  exact ⟨rfl, rfl⟩

theorem handOver_handshake (h : Handshake s.dram s.vr.fFlag) (junk : Junk) :
    Handshake (s.handOver P junk).dram (s.handOver P junk).vr.fFlag := by
  rw [handOver]
  split
  · rename_i hcan
    have hflag : s.vr.fFlag = true := by
      rw [canHandOver, Bool.and_eq_true] at hcan
      exact hcan.2
    dsimp only
    rcases s.vr.transferData_handshake P junk with ⟨hnil, hsame⟩ | ⟨⟨line, hread⟩, hclear⟩
    · rw [hnil, hsame]
      exact h.request fun t ht => (List.not_mem_nil ht).elim
    · rw [hread, hclear]
      rw [hflag] at h
      exact h.requestF line
  · exact h

theorem edgeTurn_handshake (h : Handshake s.dram s.vr.fFlag) (junk : Junk) :
    Handshake (s.edgeTurn P junk).dram (s.edgeTurn P junk).vr.fFlag := by
  rw [edgeTurn]
  apply Handshake.request
  · apply h.request
    intro t ht
    obtain ⟨line, rfl⟩ := ReaderPort.turn_requests _ _ _ _ t ht
    exact ⟨rfl, rfl⟩
  · intro t ht
    rw [EdgeReader.mem_write_requests ht]
    exact ⟨rfl, rfl⟩

theorem beforeHandOver_handshake (h : Handshake s.dram s.vr.fFlag) (junk : Junk) :
    Handshake (s.beforeHandOver P junk).dram (s.beforeHandOver P junk).vr.fFlag :=
  vertexTurn_handshake (polls_handshake _ h) _

theorem beforeAdd_handshake (h : Handshake s.dram s.vr.fFlag) (junk : Junk) :
    Handshake (s.beforeAdd P junk).dram (s.beforeAdd P junk).vr.fFlag :=
  edgeTurn_handshake (handOver_handshake (beforeHandOver_handshake h junk) junk) junk

theorem step_handshake (s : ParallelState) (env : ParallelEnv)
    (h : Handshake s.dram s.vr.fFlag) : Handshake (s.step P env).dram (s.step P env).vr.fFlag := by
  rw [step]
  split
  · exact h
  · exact ((beforeAdd_handshake h env.junk).addTransaction env.accepts).updateCycle env.ticks

theorem init_handshake (P : Params) (maxDram : Nat) (hmax : 0 < maxDram) :
    Handshake (init P maxDram hmax).dram (init P maxDram hmax).vr.fFlag := by
  refine ⟨?_, fun a ha => (List.not_mem_nil ha).elim, ?_, fun h => by cases h⟩
  · rw [init, DramInterface.request_out, DramInterface.init_out]
    rfl
  · rw [init, DramInterface.request_out, DramInterface.init_out]
    rfl

theorem run_handshake (P : Params) (maxDram : Nat) (hmax : 0 < maxDram)
    (envs : List ParallelEnv) :
    Handshake (run P maxDram hmax envs).dram (run P maxDram hmax envs).vr.fFlag :=
  Transition.run_invariant (I := fun s : ParallelState => Handshake s.dram s.vr.fFlag)
    step_handshake
    (init_handshake P maxDram hmax) envs

/-- The feature reads that were issued and not polled: waiting, inside a memory, or in
`w_address`. -/
def featureReads (s : ParallelState) : Nat :=
  s.dram.out Transaction.isFeatureRead + s.dram.wAddress.countP (fun a => a.region = .xw)

theorem featureReads_add (h : Handshake s.dram s.vr.fFlag) :
    s.featureReads + s.vr.fFlag.toNat = 1 := by
  have hall : s.dram.wAddress.countP (fun a => a.region = .xw) = s.dram.wAddress.length := by
    rw [List.countP_eq_length]
    intro a ha
    rw [h.features a ha]
    rfl
  rw [featureReads, hall]
  exact h.one

/-- The states an iteration goes through: after each poll and after each turn. -/
def moments (P : Params) (s : ParallelState) (env : ParallelEnv) : List ParallelState :=
  let replied := s.dramTurn.2.controllerTurn P env.junk s.dramTurn.1
  (List.range (s.dram.drams.length + 1)).map (fun n => (s.polls n).2) ++
    [replied.2, replied.2.vertexTurn P replied.1, s.beforeHandOver P env.junk,
      (s.beforeHandOver P env.junk).handOver P env.junk, s.beforeAdd P env.junk,
      (s.beforeAdd P env.junk).addTurn env.accepts, s.step P env]

theorem moments_handshake (h : Handshake s.dram s.vr.fFlag) (env : ParallelEnv) :
    ∀ t ∈ s.moments P env, Handshake t.dram t.vr.fFlag := by
  intro t ht
  rcases List.mem_append.mp ht with ht | ht
  · obtain ⟨n, -, rfl⟩ := List.mem_map.mp ht
    exact polls_handshake n h
  · simp only [List.mem_cons, List.not_mem_nil, or_false] at ht
    rcases ht with rfl | rfl | rfl | rfl | rfl | rfl | rfl
    · exact polls_handshake _ h
    · exact vertexTurn_handshake (polls_handshake _ h) _
    · exact beforeHandOver_handshake h _
    · exact handOver_handshake (beforeHandOver_handshake h _) _
    · exact beforeAdd_handshake h _
    · exact (beforeAdd_handshake h _).addTransaction _
    · exact step_handshake s env h

/-- After every run, and at every moment of its next iteration, the feature reads on their
way and `f_flag` make one; so no row is handed over while a feature line is on its way. -/
theorem feature_handshake (P : Params) (maxDram : Nat) (hmax : 0 < maxDram)
    (envs : List ParallelEnv) :
    let s := run P maxDram hmax envs
    s.featureReads + s.vr.fFlag.toNat = 1 ∧
      ∀ env, (∀ t ∈ s.moments P env, t.featureReads + t.vr.fFlag.toNat = 1) ∧
        ((s.beforeHandOver P env.junk).canHandOver = true →
          (s.beforeHandOver P env.junk).featureReads = 0) := by
  intro s
  have hrun := run_handshake P maxDram hmax envs
  refine ⟨featureReads_add hrun, fun env => ⟨?_, ?_⟩⟩
  · intro t ht
    exact featureReads_add (moments_handshake hrun env t ht)
  · intro hcan
    have hone := featureReads_add (beforeHandOver_handshake (P := P) hrun env.junk)
    rw [canHandOver, Bool.and_eq_true] at hcan
    rw [hcan.2, Bool.toNat_true] at hone
    exact Nat.succ.inj hone

/-- Memories that accept everything, report it in the same iteration and drain at once. -/
def quickMemories : ParallelEnv where
  accepts := fun _ _ _ => true
  ticks := fun _ => [.report 0, .report 0, .report 0, .drain 0, .drain 0]
  junk := fun _ => 0

/-- With two memories: a row is handed over, and no feature line is on its way then. -/
theorem feature_handshake_twoMemories :
    let s := run State.twoBlocks 2 Nat.two_pos (List.replicate 3 quickMemories)
    0 < 2 ∧ s.featureReads + s.vr.fFlag.toNat = 1 ∧
      (s.beforeHandOver State.twoBlocks quickMemories.junk).canHandOver = true ∧
      (s.beforeHandOver State.twoBlocks quickMemories.junk).featureReads = 0 := by
  intro s
  have hall := feature_handshake State.twoBlocks 2 Nat.two_pos (List.replicate 3 quickMemories)
  have hcan : (s.beforeHandOver State.twoBlocks quickMemories.junk).canHandOver = true := by
    decide +kernel
  exact ⟨Nat.two_pos, hall.1, hcan, (hall.2 quickMemories).2 hcan⟩

end ParallelState

end GcnSim
