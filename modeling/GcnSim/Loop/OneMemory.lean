import GcnSim.Core.ParallelSimulator

/-!
# One memory

With `MAX_DRAM = 1` the loop with several memories is the loop of one memory: every
iteration of the former is an iteration of the latter, for the numbers of transactions that
the memory accepts and the reports that it makes.
-/

namespace GcnSim

namespace DramInterface

/-- The interface as an interface of one memory; write buffers are left out. -/
def single (d : DramInterface) : Dram where
  tQueue := d.tQueue
  inFlight := d.drams.flatMap (·.inside)
  fReadComplete := d.fReadComplete
  wReadComplete := d.wReadComplete
  fAddress := d.fAddress
  wAddress := d.wAddress
  totAxwCount := d.totAxwCount
  totXwCount := d.totXwCount

/-- The position an event reports. -/
def reported : MemoryEvent → Option Nat
  | .report k => some k
  | .drain _ => none

variable {d : DramInterface}

theorem single_place (hone : d.drams.length = 1) (i : Fin d.drams.length) (t : Transaction) :
    (d.place i t).single = { d.single with inFlight := d.single.inFlight ++ [t] } ∧
      (d.place i t).drams.length = 1 := by
  refine ⟨?_, (List.length_modify ..).trans hone⟩
  have hzero : i.val = 0 := by
    have := i.isLt
    omega
  obtain ⟨m, hm⟩ := List.length_eq_one_iff.mp hone
  simp [place, single, hzero, hm, MemorySystem.addTransaction]

/-- `AddTransaction` gives the one memory a prefix of the queue. -/
theorem single_addTransaction (hone : d.drams.length = 1) (accepts : Accepts) :
    (d.addTransaction accepts).single = d.single.addTransaction (d.placed accepts).length ∧
      (d.addTransaction accepts).drams.length = 1 := by
  have hloop : ∀ (check : Nat) (ts : List Transaction) (d : DramInterface), d.drams.length = 1 →
      (addLoop accepts check ts d).2.single =
          { d.single with
            tQueue := ts.drop (addLoop accepts check ts d).1.length
            inFlight := d.single.inFlight ++ ts.take (addLoop accepts check ts d).1.length } ∧
        (addLoop accepts check ts d).2.drams.length = 1 := by
    intro check ts
    induction ts with
    | nil =>
      intro d hone
      refine ⟨?_, hone⟩
      simp [addLoop, single]
    | cons t ts ih =>
      intro d hone
      rw [addLoop]
      dsimp only
      split
      · generalize (findDram check (fun i => accepts i d.drams[i] t) d.drams.length
          ⟨d.dramIdx, d.dramIdx_lt⟩).2 = i
        obtain ⟨hplace, hlen⟩ := single_place hone i t
        obtain ⟨hrest, hlen'⟩ := ih (d.place i t) hlen
        refine ⟨?_, hlen'⟩
        rw [hrest, hplace]
        simp
      · refine ⟨?_, hone⟩
        simp [single]
  exact hloop d.dramIdx d.tQueue d hone

theorem single_callback (d : DramInterface) (t : Transaction) : (d.callback t).single =
    if t.isWrite then d.single.writeCompleteCallback t.address
    else d.single.readCompleteCallback t.address := by
  rw [callback, writeCompleteCallback, readCompleteCallback, Dram.writeCompleteCallback,
    Dram.readCompleteCallback]
  split <;> split <;> rfl

/-- The events of the one memory are the completions of its reports. -/
theorem single_event (hone : d.drams.length = 1) (e : MemoryEvent) :
    (d.event 0 e).single = (reported e).elim d.single d.single.complete ∧
      (d.event 0 e).drams.length = 1 := by
  obtain ⟨m, hm⟩ := List.length_eq_one_iff.mp hone
  have hget : d.drams[0]? = some m := by rw [hm]; rfl
  have hin : d.single.inFlight = m.inside := by simp [single, hm]
  have hset : ∀ m', (d.setDram 0 m').single = { d.single with inFlight := m'.inside } := by
    intro m'
    simp [setDram, single, hm]
  have hlen : ∀ m', (d.setDram 0 m').drams.length = 1 := by
    intro m'
    simp [setDram, hm]
  unfold event
  rw [hget]
  cases e with
  | drain k =>
    refine ⟨?_, hlen _⟩
    change (d.setDram 0 _).single = d.single
    rw [hset, ← hin]
  | report k =>
    change _ = d.single.complete k ∧ _
    rw [Dram.complete, hin]
    dsimp only
    cases m.inside[k]? with
    | none => exact ⟨rfl, hone⟩
    | some t =>
      dsimp only
      rw [callback_drams, single_callback, hset]
      exact ⟨rfl, hlen _⟩

theorem single_updateCycle (hone : d.drams.length = 1) (ticks : Nat → List MemoryEvent) :
    (d.updateCycle ticks).single = d.single.updateCycle ((ticks 0).filterMap reported) ∧
      (d.updateCycle ticks).drams.length = 1 := by
  have hevents : ∀ (es : List MemoryEvent) (d : DramInterface), d.drams.length = 1 →
      (es.foldl (event 0) d).single = d.single.updateCycle (es.filterMap reported) ∧
        (es.foldl (event 0) d).drams.length = 1 := by
    intro es
    induction es with
    | nil => exact fun d hone => ⟨rfl, hone⟩
    | cons e es ih =>
      intro d hone
      obtain ⟨hevent, hlen⟩ := single_event hone e
      obtain ⟨hrest, hlen'⟩ := ih (d.event 0 e) hlen
      refine ⟨?_, hlen'⟩
      rw [List.foldl_cons, hrest, hevent]
      cases e with
      | drain k => rfl
      | report k => rfl
  rw [updateCycle, hone]
  exact hevents (ticks 0) d hone

end DramInterface

namespace ParallelState

open DramInterface

variable {P : Params} {s : ParallelState}

/-- The state of the loop with one memory. -/
def single (s : ParallelState) : State where
  vr := s.vr
  er := s.er
  dc := s.dc
  dram := s.dram.single
  ended := s.ended

theorem single_poll (s : ParallelState) :
    s.poll.1 = s.single.dramTurn.1 ∧ s.poll.2.single = s.single.dramTurn.2 ∧
      s.poll.2.dram.drams = s.dram.drams := by
  by_cases hf : s.dram.fReadComplete = true
  · have hf' : s.single.dram.fReadComplete = true := hf
    rw [poll, State.dramTurn, if_pos hf, if_pos hf']
    exact ⟨rfl, rfl, rfl⟩
  · have hf' : ¬ s.single.dram.fReadComplete = true := hf
    rw [poll, State.dramTurn, if_neg hf, if_neg hf']
    by_cases hw : s.dram.wReadComplete = true
    · have hw' : s.single.dram.wReadComplete = true := hw
      rw [if_pos hw, if_pos hw']
      exact ⟨rfl, rfl, rfl⟩
    · have hw' : ¬ s.single.dram.wReadComplete = true := hw
      rw [if_neg hw, if_neg hw']
      exact ⟨rfl, rfl, rfl⟩

/-- The turns up to the hand-over. The column line is received after the request turn of the
vertex reader here, which does not read the edge reader. -/
theorem single_beforeHandOver (hone : s.dram.drams.length = 1) (junk : Junk) :
    (s.beforeHandOver P junk).single = s.single.beforeHandOver P junk ∧
      (s.beforeHandOver P junk).dram.drams.length = 1 := by
  obtain ⟨hfst, hsnd, hdrams⟩ := single_poll s
  have hpolls : s.dramTurn = (s.poll.1.toList, s.poll.2) := by
    rw [dramTurn, hone]
    simp [polls]
  have hlen : s.poll.2.dram.drams.length = 1 := by rw [hdrams, hone]
  rw [beforeHandOver, State.beforeHandOver, hpolls, ← hfst, ← hsnd]
  generalize s.poll = r at hlen ⊢
  obtain ⟨a, t⟩ := r
  refine ⟨?_, hlen⟩
  cases a with
  | none => rfl
  | some a =>
    obtain ⟨region, line⟩ := a
    cases region with
    | aRow => rfl
    | aCol => rfl
    | xw => rfl
    | axw => rfl

theorem single_beforeAdd (hone : s.dram.drams.length = 1) (junk : Junk) :
    (s.beforeAdd P junk).single =
        ((s.single.beforeHandOver P junk).handOver P junk).edgeTurn P junk ∧
      (s.beforeAdd P junk).dram.drams.length = 1 := by
  obtain ⟨hsingle, hlen⟩ := single_beforeHandOver (P := P) hone junk
  have hhand : ∀ t : ParallelState, (t.handOver P junk).single = t.single.handOver P junk ∧
      (t.handOver P junk).dram.drams = t.dram.drams := by
    intro t
    rw [handOver, State.handOver]
    change _ = ite (t.canHandOver = true) _ _ ∧ _
    split
    · exact ⟨rfl, rfl⟩
    · exact ⟨rfl, rfl⟩
  obtain ⟨hover, hdrams⟩ := hhand (s.beforeHandOver P junk)
  rw [beforeAdd, ← hsingle, ← hover]
  refine ⟨rfl, ?_⟩
  change ((s.beforeHandOver P junk).handOver P junk).dram.drams.length = 1
  rw [hdrams, hlen]

/-- What the one memory does from the state in front of `AddTransaction` on. -/
def singleEnv (d : DramInterface) (env : ParallelEnv) : Env where
  accepted := (d.placed env.accepts).length
  completed := (env.ticks 0).filterMap reported
  writeExist := ((d.addTransaction env.accepts).updateCycle env.ticks).writeExist
  junk := env.junk

/-- `AddTransaction`, `UpdateCycle` and the exit test. -/
theorem single_cycleEnd (hone : s.dram.drams.length = 1) (env : ParallelEnv) :
    ((s.addTurn env.accepts).cycleEnd env.ticks).single =
        s.single.cycleEnd (singleEnv s.dram env) ∧
      ((s.addTurn env.accepts).cycleEnd env.ticks).dram.drams.length = 1 := by
  obtain ⟨hadd, hlen⟩ := single_addTransaction hone env.accepts
  obtain ⟨hcycle, hlen'⟩ := single_updateCycle hlen env.ticks
  rw [hadd] at hcycle
  refine ⟨?_, hlen'⟩
  have htot := congrArg Dram.totAxwCount hcycle
  refine congrArg₂ (State.mk s.vr s.er s.dc) hcycle (decide_eq_decide.mpr ?_)
  exact and_congr_left fun _ => Eq.congr_left htot

/-- An iteration with one memory is an iteration of the loop of one memory. -/
theorem single_step (hone : s.dram.drams.length = 1) (env : ParallelEnv) :
    (∃ env', (s.step P env).single = s.single.step P env') ∧
      (s.step P env).dram.drams.length = 1 := by
  by_cases hended : s.ended = true
  · rw [step, if_pos hended]
    refine ⟨⟨⟨0, [], false, env.junk⟩, ?_⟩, hone⟩
    exact (if_pos hended).symm
  · rw [step, if_neg hended]
    obtain ⟨hbefore, hlen⟩ := single_beforeAdd (P := P) hone env.junk
    obtain ⟨hcycle, hlen'⟩ := single_cycleEnd hlen env
    refine ⟨⟨singleEnv (s.beforeAdd P env.junk).dram env, ?_⟩, hlen'⟩
    rw [hcycle, hbefore, State.step]
    exact (if_neg hended).symm

variable (P) in
/-- A state that the loop of one memory reaches, too. -/
structure OneMemory (s : ParallelState) : Prop where
  one : s.dram.drams.length = 1
  reached : ∃ envs, s.single = State.run P envs

theorem OneMemory.init (P : Params) : (init P 1 Nat.one_pos).OneMemory P :=
  ⟨rfl, [], rfl⟩

/-- Every run with one memory is a run of the loop of one memory. -/
theorem OneMemory.step (h : s.OneMemory P) (env : ParallelEnv) : (s.step P env).OneMemory P := by
  obtain ⟨⟨env', hnext⟩, hlen⟩ := single_step (P := P) h.one env
  obtain ⟨envs, hsingle⟩ := h.reached
  refine ⟨hlen, envs ++ [env'], ?_⟩
  rw [hnext, hsingle, State.run, State.run, Transition.run_concat]

end ParallelState

end GcnSim
