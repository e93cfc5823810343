import GcnSim.Dramsim.Ordering
import GcnSim.Dramsim.Shipped

/-!
# The queues stay within their sizes

`reserve` sets aside the room of a queue once, and nothing grows it: `WillAcceptTransaction`
keeps the queues of the controller within `trans_queue_size`, `WillAcceptCommand` the command
queues within `cmd_queue_size`. The writes still to be drained are in the write buffer.
-/

namespace GcnSim.Dramsim

namespace Controller

variable {cfg : Config} {timing : Timing} {c c' : Controller}

/-- The queues within their sizes, and what they may hold. -/
structure WithinCapacity (cfg : Config) (c : Controller) : Prop where
  unified : c.unifiedQueue.length ≤ cfg.transQueueSize
  read : c.readQueue.length ≤ cfg.transQueueSize
  write : c.writeBuffer.length ≤ cfg.transQueueSize
  command : ∀ i, (c.cmdQueue.queues i).length ≤ cfg.cmdQueueSize
  reads : ∀ t ∈ c.readQueue, t.isWrite = false
  writes : ∀ t ∈ c.writeBuffer, t.isWrite = true
  mode : cfg.unifiedQueue = true → c.writeBuffer = []
  draining : 0 ≤ c.writeDraining ∧ c.writeDraining ≤ c.writeBuffer.length

theorem withinCapacity_init (cfg : Config) : WithinCapacity cfg .init where
  unified := Nat.zero_le _
  read := Nat.zero_le _
  write := Nat.zero_le _
  command := fun _ => Nat.zero_le _
  reads := fun _ h => (List.not_mem_nil h).elim
  writes := fun _ h => (List.not_mem_nil h).elim
  mode := fun _ => rfl
  draining := ⟨Int.le_refl 0, Int.le_refl 0⟩

/-- The queue a new transaction goes to, if any. -/
theorem addTransaction_queues (a : Nat) (w : Bool) :
    let t : Transaction := ⟨a, c.clk, 0, w⟩
    ∃ unified read write, c.addTransaction cfg a w = { c with
        unifiedQueue := c.unifiedQueue ++ unified
        readQueue := c.readQueue ++ read
        writeBuffer := c.writeBuffer ++ write
        pendingRdQ := (c.addTransaction cfg a w).pendingRdQ
        pendingWrQ := (c.addTransaction cfg a w).pendingWrQ
        returnQueue := (c.addTransaction cfg a w).returnQueue } ∧
      (unified ≠ [] → cfg.unifiedQueue = true ∧ unified = [t]) ∧
      (read ≠ [] → cfg.unifiedQueue = false ∧ w = false ∧ read = [t]) ∧
      (write ≠ [] → cfg.unifiedQueue = false ∧ w = true ∧ write = [t]) := by
  intro t
  rw [addTransaction]
  dsimp only
  cases hmode : cfg.unifiedQueue <;> cases w
  · split
    · rename_i h
      cases h
    · split
      · exact ⟨[], [], [], by simp, by simp, by simp, by simp⟩
      · split
        · exact ⟨[], [t], [], by simp [t], by simp, by simp, by simp⟩
        · exact ⟨[], [], [], by simp, by simp, by simp, by simp⟩
  · rw [if_pos rfl]
    split
    · exact ⟨[], [], [t], by simp [t], by simp, by simp, by simp⟩
    · exact ⟨[], [], [], by simp, by simp, by simp, by simp⟩
  · split
    · rename_i h
      cases h
    · split
      · exact ⟨[], [], [], by simp, by simp, by simp, by simp⟩
      · split
        · exact ⟨[t], [], [], by simp [t], by simp, by simp, by simp⟩
        · exact ⟨[], [], [], by simp, by simp, by simp, by simp⟩
  · rw [if_pos rfl]
    split
    · exact ⟨[t], [], [], by simp [t], by simp, by simp, by simp⟩
    · exact ⟨[], [], [], by simp, by simp, by simp, by simp⟩

/-- A queue that may get one more transaction if there is room for it. -/
theorem length_append_le {queue new : List Transaction} {t : Transaction} {size : Nat}
    (h : queue.length ≤ size) (hnew : new ≠ [] → new = [t] ∧ queue.length < size) :
    (queue ++ new).length ≤ size := by
  rw [List.length_append]
  by_cases hnil : new = []
  · rw [hnil]
    exact h
  · obtain ⟨ht, hroom⟩ := hnew hnil
    rw [ht]
    exact hroom

/-- A transaction is only accepted when its queue has room. -/
theorem WithinCapacity.addTransaction (h : WithinCapacity cfg c) {a : Nat} {w : Bool}
    (haccept : c.willAcceptTransaction cfg w = true) :
    WithinCapacity cfg (c.addTransaction cfg a w) := by
  obtain ⟨unified, read, write, heq, hu, hr, hw⟩ := @addTransaction_queues cfg c a w
  rw [willAcceptTransaction] at haccept
  rw [heq]
  refine ⟨?_, ?_, ?_, h.command, ?_, ?_, ?_, ?_⟩
  · refine length_append_le h.unified fun hne => ⟨(hu hne).2, ?_⟩
    rw [if_pos (hu hne).1] at haccept
    exact of_decide_eq_true haccept
  · refine length_append_le h.read fun hne => ⟨(hr hne).2.2, ?_⟩
    rw [(hr hne).1, (hr hne).2.1] at haccept
    exact of_decide_eq_true haccept
  · refine length_append_le h.write fun hne => ⟨(hw hne).2.2, ?_⟩
    rw [(hw hne).1, (hw hne).2.1] at haccept
    exact of_decide_eq_true haccept
  · intro t ht
    rcases List.mem_append.mp ht with ht | ht
    · exact h.reads t ht
    · obtain ⟨-, hkind, hread⟩ := hr (List.ne_nil_of_mem ht)
      rw [hread, List.mem_singleton] at ht
      rw [ht]
      exact hkind
  · intro t ht
    rcases List.mem_append.mp ht with ht | ht
    · exact h.writes t ht
    · obtain ⟨-, hkind, hwrite⟩ := hw (List.ne_nil_of_mem ht)
      rw [hwrite, List.mem_singleton] at ht
      rw [ht]
      exact hkind
  · intro hmode
    have hnone : write = [] := by
      by_contra hne
      rw [(hw hne).1] at hmode
      cases hmode
    dsimp only
    rw [h.mode hmode, hnone]
    rfl
  · have hdraining := h.draining
    refine ⟨hdraining.1, ?_⟩
    dsimp only
    rw [List.length_append]
    omega

/-- `ScheduleTransaction` drains what is in the write buffer. -/
theorem WithinCapacity.startDraining (h : WithinCapacity cfg c) :
    WithinCapacity cfg (c.startDraining cfg) := by
  rw [Controller.startDraining]
  split
  · exact ⟨h.unified, h.read, h.write, h.command, h.reads, h.writes, h.mode,
      Int.natCast_nonneg _, Int.le_refl _⟩
  · exact h

/-- A command goes to a queue with room, and a drained write leaves the buffer. -/
theorem WithinCapacity.moveTransaction (h : WithinCapacity cfg c) :
    WithinCapacity cfg (c.moveTransaction cfg) := by
  rw [Controller.moveTransaction]
  dsimp only
  split
  · exact h
  · rename_i t hfind
    have hroom : (c.cmdQueue.queues (CommandQueue.getQueueIndex cfg
        (transToCommand cfg t).bankId)).length < cfg.cmdQueueSize := by
      have hfound := List.find?_some hfind
      rwa [hasRoom, CommandQueue.willAcceptCommand, decide_eq_true_eq] at hfound
    have hmem := List.mem_of_find?_eq_some hfind
    have hlength := FirstMatch.countP_eraseP hfind fun _ => true
    rw [List.countP_true, if_pos rfl] at hlength
    have hdraining := h.draining
    split
    · exact ⟨h.unified, h.read, h.write, h.command, h.reads, h.writes, h.mode, Int.le_refl 0,
        Int.natCast_nonneg _⟩
    · have hcommand : ∀ i, ((c.cmdQueue.addCommand cfg (transToCommand cfg t)).queues i).length ≤
          cfg.cmdQueueSize := by
        intro i
        rw [CommandQueue.addCommand, if_pos hroom]
        dsimp only
        rw [Function.update_apply]
        split
        · rw [List.length_append]
          exact hroom
        · exact h.command i
      rw [transToCommand_isWrite]
      cases hsource : c.source cfg with
      | unified =>
        have hmode : cfg.unifiedQueue = true := by
          rw [source] at hsource
          split at hsource
          · assumption
          · split at hsource <;> cases hsource
        rw [hsource] at hlength
        dsimp only [queue] at hlength
        rw [hmode]
        refine ⟨?_, h.read, h.write, hcommand, h.reads, h.writes, h.mode, hdraining⟩
        have := h.unified
        dsimp only [setQueue, queue]
        omega
      | write =>
        have hmode : ¬ cfg.unifiedQueue = true ∧ 0 < c.writeDraining := by
          rw [source] at hsource
          split at hsource
          · cases hsource
          · rename_i hmode
            split at hsource
            · rename_i hpos
              exact ⟨hmode, hpos⟩
            · cases hsource
        rw [hsource] at hlength hmem
        dsimp only [queue] at hlength hmem
        rw [h.writes t hmem, (Bool.not_eq_true _).mp hmode.1]
        have hwrite := h.write
        refine ⟨h.unified, h.read, ?_, hcommand, h.reads, ?_, fun hm => (hmode.1 hm).elim, ?_⟩
        · dsimp only [setQueue, queue]
          omega
        · intro u hu
          exact h.writes u (List.mem_of_mem_eraseP hu)
        · dsimp only [setQueue, queue]
          rw [if_pos (by rfl)]
          dsimp only
          omega
      | read =>
        rw [hsource] at hlength hmem
        dsimp only [queue] at hlength hmem
        rw [h.reads t hmem, Bool.and_false]
        have hread := h.read
        refine ⟨h.unified, ?_, h.write, hcommand, ?_, h.writes, h.mode, hdraining⟩
        · dsimp only [setQueue, queue]
          omega
        · intro u hu
          exact h.reads u (List.mem_of_mem_eraseP hu)

/-- Issuing a command only takes entries out of the queues. -/
theorem WithinCapacity.issued (h : WithinCapacity cfg c) {cmd : Command} {q : CommandQueue}
    (hq : ∀ i, (q.queues i).Sublist (c.cmdQueue.queues i)) :
    WithinCapacity cfg (issued cfg timing cmd { c with cmdQueue := q }) := by
  have hframe : ∃ pendingRdQ pendingWrQ returnQueue,
      completed cfg cmd { c with cmdQueue := q } = { c with
        cmdQueue := q
        pendingRdQ := pendingRdQ
        pendingWrQ := pendingWrQ
        returnQueue := returnQueue } := by
    rw [completed]
    split
    · exact ⟨_, _, _, rfl⟩
    · split <;> exact ⟨_, _, _, rfl⟩
  obtain ⟨pendingRdQ, pendingWrQ, returnQueue, heq⟩ := hframe
  rw [Controller.issued, heq]
  exact ⟨h.unified, h.read, h.write, fun i => Nat.le_trans (hq i).length_le (h.command i),
    h.reads, h.writes, h.mode, h.draining⟩

/-- Every move keeps the sizes. -/
theorem WithinCapacity.move (h : WithinCapacity cfg c) (hmove : Move cfg timing c c') :
    WithinCapacity cfg c' := by
  cases hmove with
  | schedule => exact h.startDraining.moveTransaction
  | startRefresh =>
    refine ⟨h.unified, h.read, h.write, fun i => ?_, h.reads, h.writes, h.mode, h.draining⟩
    dsimp only
    rw [(startRefresh_frame _ _).1]
    exact h.command i
  | issueRefresh =>
    refine h.issued fun i => ?_
    split <;> exact .refl _
  | issueQueued => exact h.issued fun i => taken_sublist _ _ i
  | _ => exact ⟨h.unified, h.read, h.write, h.command, h.reads, h.writes, h.mode, h.draining⟩

end Controller

namespace Session

open Controller

variable {cfg : Config} {timing : Timing}

/-- In every run no queue outgrows the size set aside for it, reads and writes are kept apart
unless there is one queue for both, and no more writes are to be drained than the write buffer
holds. -/
theorem run_withinCapacity (hsafe : cfg.Safe timing) (actions : List Action) :
    ∃ s, run cfg timing actions = .ok s ∧ WithinCapacity cfg s.controller := by
  obtain ⟨s, hrun, -, hcapacity⟩ := run_rule hsafe (I := fun s => WithinCapacity cfg s.controller)
    (withinCapacity_init cfg) (fun _ _ _ _ hI haccept => hI.addTransaction haccept)
    (fun _ _ _ hI => ⟨hI.unified, hI.read, hI.write, hI.command, hI.reads, hI.writes, hI.mode,
      hI.draining⟩)
    (fun _ _ _ hI hmove => hI.move hmove) actions
  exact ⟨s, hrun, hcapacity⟩

theorem run_withinCapacity_hbm2 :
    ∃ s, run hbm2 hbm2Timing.timing [.add 64 true, .add 128 true, .clockTick] = .ok s ∧
      WithinCapacity hbm2 s.controller :=
  run_withinCapacity hbm2_safe _

end Session

end GcnSim.Dramsim
