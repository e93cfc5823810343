import GcnSim.Dramsim.Controller
import Mathlib.Logic.Relation
import Mathlib.Data.List.Count

/-!
# What a cycle of the controller can do

A cycle is a chain of a few kinds of moves: a refresh is put into the queue, a command is
issued for a waiting refresh or for an entry of a command queue, a transaction goes from the
controller to a command queue. `IssueCommand` and the functions that choose a command never
end the process in a sound controller, so every invariant of the moves is an invariant of the
cycles.
-/

namespace GcnSim.Dramsim

open Relation

namespace CommandQueue

/-- The queues once a command has been chosen: a read or write leaves its queue. -/
def taken (cfg : Config) (cmd : Command) (q : CommandQueue) : CommandQueue :=
  if cmd.cmdType.isReadWrite then
    { q with
      queues := Function.update q.queues (getQueueIndex cfg cmd.bankId)
        ((q.queues (getQueueIndex cfg cmd.bankId)).eraseP (sameRequest cmd)) }
  else q

variable {cfg : Config} {s : ChannelState} {clk : Nat}

/-- The chosen command is ready for an entry of the queue. -/
theorem firstReady_eq_some {before queue : List Command} {cmd : Command}
    (h : firstReady cfg s clk before queue = .ok (some cmd)) :
    ∃ front entry behind, before ++ queue = front ++ entry :: behind ∧
      s.getReadyCommand cfg entry clk = .ok (some cmd) ∧
      (cmd.cmdType.isWrite = true → hasRwDependency front entry = false) := by
  induction queue generalizing before with
  | nil => cases h
  | cons entry queue ih =>
    have hskip : firstReady cfg s clk (before ++ [entry]) queue = .ok (some cmd) → _ := ih
    rw [List.append_assoc, List.singleton_append] at hskip
    rw [firstReady] at h
    split at h
    · cases h
    · exact hskip h
    · rename_i ready hready
      split at h
      · rename_i hpre
        split at h
        · exact hskip h
        · cases h
          refine ⟨before, entry, queue, rfl, hready, fun hwrite => ?_⟩
          rw [hpre] at hwrite
          cases hwrite
      · split at h
        · split at h
          · exact hskip h
          · rename_i hdep
            cases h
            exact ⟨before, entry, queue, rfl, hready, fun _ => by simpa using hdep⟩
        · rename_i hwrite
          cases h
          exact ⟨before, entry, queue, rfl, hready, fun h => (hwrite h).elim⟩

/-- The choice in a queue ends if every entry can be asked for. -/
theorem firstReady_isOk {before queue : List Command}
    (h : ∀ entry ∈ queue, ∃ r, s.getReadyCommand cfg entry clk = .ok r) :
    ∃ r, firstReady cfg s clk before queue = .ok r := by
  induction queue generalizing before with
  | nil => exact ⟨none, rfl⟩
  | cons entry queue ih =>
    rw [List.forall_mem_cons] at h
    obtain ⟨⟨r, hr⟩, hqueue⟩ := h
    rw [firstReady, hr]
    cases r with
    | none => exact ih hqueue
    | some ready =>
      dsimp only
      split
      · split
        · exact ih hqueue
        · exact ⟨_, rfl⟩
      · split
        · split
          · exact ih hqueue
          · exact ⟨_, rfl⟩
        · exact ⟨_, rfl⟩

/-- What `GetCommandToIssue` answers. -/
inductive Chosen (cfg : Config) (s : ChannelState) (q : CommandQueue) :
    Option Command → CommandQueue → Prop where
  | none (i : Int) : Chosen cfg s q none { q with queueIdx := i }
  | some {i : Int} {before behind : List Command} {entry cmd : Command}
    (hqueue : q.queues i = before ++ entry :: behind)
    (hready : s.getReadyCommand cfg entry q.clk = .ok (some cmd))
    (hwrite : cmd.cmdType.isWrite = true → hasRwDependency before entry = false)
    (hfree : ¬ (q.isInRef = true ∧ i ∈ q.refQIndices)) :
    Chosen cfg s q (some cmd) (taken cfg cmd { q with queueIdx := i })

theorem eraseRwCommand_eq_taken {q : CommandQueue} {entry : Command}
    (hentry : entry ∈ q.queues (getQueueIndex cfg entry.bankId))
    (hrw : entry.cmdType.isReadWrite = true) :
    q.eraseRwCommand cfg entry = .ok (taken cfg entry q) := by
  have hany : (q.queues (getQueueIndex cfg entry.bankId)).any (sameRequest entry) = true := by
    rw [List.any_eq_true]
    exact ⟨entry, hentry, by simp [sameRequest]⟩
  rw [eraseRwCommand, if_pos hany, taken, if_pos hrw]

/-- `GetCommandToIssue` ends, if every entry of a queue can be asked for and is in the queue of
its bank. -/
theorem commandToIssue_chosen (n : Nat) {q : CommandQueue}
    (hask : ∀ i, ∀ entry ∈ q.queues i, ∃ r, s.getReadyCommand cfg entry q.clk = .ok r)
    (hplace : ∀ i, ∀ entry ∈ q.queues i, getQueueIndex cfg entry.bankId = i)
    (hsame : ∀ i, ∀ entry ∈ q.queues i, ∀ cmd,
      s.getReadyCommand cfg entry q.clk = .ok (some cmd) → cmd.cmdType.isReadWrite = true →
      cmd = entry) :
    ∃ cmd q', commandToIssue cfg s n q = .ok (cmd, q') ∧ Chosen cfg s q cmd q' := by
  induction n generalizing q with
  | zero => exact ⟨none, q, rfl, .none q.queueIdx⟩
  | succ n ih =>
    obtain ⟨cmd, q', hrest, hchosen⟩ := ih (q := q.getNextQueue cfg) hask hplace hsame
    have hnext : Chosen cfg s q cmd q' := by
      cases hchosen with
      | none i => exact .none i
      | some hqueue hready hwrite hfree => exact .some hqueue hready hwrite hfree
    rw [commandToIssue]
    split
    · exact ⟨cmd, q', hrest, hnext⟩
    · rename_i hfree
      rw [Bool.and_eq_true, decide_eq_true_eq] at hfree
      obtain ⟨r, hr⟩ := @firstReady_isOk cfg s q.clk [] _ (hask (q.getNextQueue cfg).queueIdx)
      have hfirst : getFirstReadyInQueue cfg s (q.getNextQueue cfg).clk
          ((q.getNextQueue cfg).queues (q.getNextQueue cfg).queueIdx) = .ok r := hr
      rw [hfirst]
      cases r with
      | none => exact ⟨cmd, q', hrest, hnext⟩
      | some ready =>
        dsimp only
        obtain ⟨before, entry, behind, hqueue, hready, hwrite⟩ := firstReady_eq_some hr
        have hmem : entry ∈ q.queues (q.getNextQueue cfg).queueIdx := by
          rw [← List.nil_append (q.queues _), hqueue]
          simp
        have hpick : Chosen cfg s q (some ready) (taken cfg ready (q.getNextQueue cfg)) :=
          .some hqueue hready hwrite hfree
        split
        · rename_i hrw
          have heq := hsame _ entry hmem ready hready hrw
          subst heq
          have herase : (q.getNextQueue cfg).eraseRwCommand cfg ready =
              .ok (taken cfg ready (q.getNextQueue cfg)) := by
            apply eraseRwCommand_eq_taken _ hrw
            rw [hplace _ ready hmem]
            exact hmem
          rw [herase]
          exact ⟨some ready, _, rfl, hpick⟩
        · rename_i hrw
          rw [taken, if_neg hrw] at hpick
          exact ⟨some ready, _, rfl, hpick⟩

end CommandQueue

/-- The two kinds of transactions in the pending queues. -/
def Controller.pending (c : Controller) (isWrite : Bool) : List Transaction :=
  if isWrite then c.pendingWrQ else c.pendingRdQ

namespace Controller

/-- The transaction of a command address. -/
def atAddr (hexAddr : Nat) (t : Transaction) : Bool := decide (t.addr = hexAddr)

variable (cfg : Config) (timing : Timing)

/-- The pending transactions once a command has been issued: all reads of its address are done,
or the write is. -/
def completed (cmd : Command) (c : Controller) : Controller :=
  if cmd.cmdType.isRead then
    { c with
      returnQueue := c.returnQueue ++ (c.pendingRdQ.filter (atAddr cmd.hexAddr)).map fun t =>
        { t with completeCycle := addDelay c.clk cfg.readDelay }
      pendingRdQ := c.pendingRdQ.filter fun t => !atAddr cmd.hexAddr t }
  else if cmd.cmdType.isWrite then
    { c with pendingWrQ := c.pendingWrQ.eraseP (atAddr cmd.hexAddr) }
  else c

/-- The controller after `IssueCommand`. -/
def issued (cmd : Command) (c : Controller) : Controller :=
  { c.completed cfg cmd with
    channelState := (c.channelState.after cfg cmd).updateTiming cfg timing cmd c.clk
    cmdTrace := c.cmdTrace ++ [(c.clk, cmd)] }

variable {cfg timing} {c : Controller} {cmd : Command}

theorem completeReads_succ {hexAddr n : Nat} {t : Transaction}
    (hfind : c.pendingRdQ.find? (atAddr hexAddr) = some t) :
    c.completeReads cfg hexAddr (n + 1) = completeReads cfg hexAddr n
      { c with
        returnQueue := c.returnQueue ++ [{ t with completeCycle := addDelay c.clk cfg.readDelay }]
        pendingRdQ := c.pendingRdQ.eraseP (atAddr hexAddr) } := by
  have hround : (c.pendingRdQ.find? fun t => decide (t.addr = hexAddr)) = some t := hfind
  rw [completeReads, hround]
  rfl

/-- The loop of `IssueCommand` returns all reads of the address. -/
theorem completeReads_eq {hexAddr n : Nat} (h : countAddr c.pendingRdQ hexAddr = n) :
    c.completeReads cfg hexAddr n =
      { c with
        returnQueue := c.returnQueue ++ (c.pendingRdQ.filter (atAddr hexAddr)).map fun t =>
          { t with completeCycle := addDelay c.clk cfg.readDelay }
        pendingRdQ := c.pendingRdQ.filter fun t => !atAddr hexAddr t } := by
  induction n generalizing c with
  | zero =>
    have hnone : ∀ t ∈ c.pendingRdQ, ¬ atAddr hexAddr t = true := List.countP_eq_zero.mp h
    have hall : ∀ t ∈ c.pendingRdQ, (!atAddr hexAddr t) = true := by simpa using hnone
    rw [List.filter_eq_nil_iff.mpr hnone, List.filter_eq_self.mpr hall, List.map_nil,
      List.append_nil]
    rfl
  | succ n ih =>
    have hpos : 0 < c.pendingRdQ.countP (atAddr hexAddr) := by
      change 0 < countAddr c.pendingRdQ hexAddr
      omega
    obtain ⟨t, ht, haddr⟩ := List.countP_pos_iff.mp hpos
    obtain ⟨first, before, behind, hbefore, hfirst, hlist, herase⟩ :=
      List.exists_of_eraseP ht haddr
    have hfind : c.pendingRdQ.find? (atAddr hexAddr) = some first := by
      rw [hlist]
      simp [List.find?_append, List.find?_eq_none.mpr hbefore, hfirst]
    have hfilter : before.filter (atAddr hexAddr) = [] := List.filter_eq_nil_iff.mpr hbefore
    have hcount : countAddr (before ++ behind) hexAddr = n := by
      have h' : c.pendingRdQ.countP (atAddr hexAddr) = n + 1 := h
      rw [hlist, List.countP_append, List.countP_cons_of_pos hfirst] at h'
      change (before ++ behind).countP (atAddr hexAddr) = n
      rw [List.countP_append]
      omega
    rw [completeReads_succ hfind, herase, hlist, ih hcount]
    simp [hfilter, hfirst]

theorem completePending_eq_completed
    (hread : cmd.cmdType.isRead = true → 0 < countAddr c.pendingRdQ cmd.hexAddr)
    (hwrite : cmd.cmdType.isWrite = true → 0 < countAddr c.pendingWrQ cmd.hexAddr) :
    c.completePending cfg cmd = .ok (c.completed cfg cmd) := by
  rw [completePending, completed]
  by_cases hr : cmd.cmdType.isRead = true
  · rw [if_pos hr, if_pos hr, if_neg (by have := hread hr; omega), completeReads_eq rfl]
  · rw [if_neg hr, if_neg hr]
    by_cases hw : cmd.cmdType.isWrite = true
    · have hany : c.pendingWrQ.any (atAddr cmd.hexAddr) = true := by
        rw [List.any_eq_true]
        exact List.countP_pos_iff.mp (hwrite hw)
      rw [if_pos hw, if_pos hw]
      exact if_pos hany
    · rw [if_neg hw, if_neg hw]

@[simp] theorem completed_clk : (c.completed cfg cmd).clk = c.clk := by
  rw [completed]
  split
  · rfl
  · split <;> rfl

@[simp] theorem completed_channelState :
    (c.completed cfg cmd).channelState = c.channelState := by
  rw [completed]
  split
  · rfl
  · split <;> rfl

@[simp] theorem completed_cmdTrace : (c.completed cfg cmd).cmdTrace = c.cmdTrace := by
  rw [completed]
  split
  · rfl
  · split <;> rfl

@[simp] theorem completed_cmdQueue : (c.completed cfg cmd).cmdQueue = c.cmdQueue := by
  rw [completed]
  split
  · rfl
  · split <;> rfl

/-- `IssueCommand` does not end the process on a command that may be issued and, for a read or
write, has a pending transaction. -/
theorem issueCommand_eq_issued
    (htakes : ∀ p ∈ ChannelState.covered cfg cmd, (c.channelState.bankStates p).Takes cmd)
    (hread : cmd.cmdType.isRead = true → 0 < countAddr c.pendingRdQ cmd.hexAddr)
    (hwrite : cmd.cmdType.isWrite = true → 0 < countAddr c.pendingWrQ cmd.hexAddr) :
    c.issueCommand cfg timing cmd = .ok (c.issued cfg timing cmd) := by
  rw [issueCommand, completePending_eq_completed hread hwrite]
  dsimp only
  rw [ChannelState.updateTimingAndStates, completed_channelState,
    ChannelState.updateState_of_takes htakes]
  simp [issued]

/-- The command queues have no part in it. -/
theorem issueCommand_setCmdQueue (q : CommandQueue)
    (htakes : ∀ p ∈ ChannelState.covered cfg cmd, (c.channelState.bankStates p).Takes cmd)
    (hread : cmd.cmdType.isRead = true → 0 < countAddr c.pendingRdQ cmd.hexAddr)
    (hwrite : cmd.cmdType.isWrite = true → 0 < countAddr c.pendingWrQ cmd.hexAddr) :
    issueCommand cfg timing cmd { c with cmdQueue := q } =
      .ok (issued cfg timing cmd { c with cmdQueue := q }) :=
  issueCommand_eq_issued (c := { c with cmdQueue := q }) htakes hread hwrite

/-- The controller once its refresh counter has ticked. -/
def refreshed (cfg : Config) (c : Controller) : Controller :=
  let p := c.refresh.advance cfg c.channelState
  { c with
    refresh := p.1
    channelState := p.2 }

theorem tickRefresh_eq_refreshed (h : 0 < Refresh.refreshInterval cfg) (c : Controller) :
    c.tickRefresh cfg = .ok (c.refreshed cfg) := by
  rw [tickRefresh, Refresh.clockTick, if_neg h.ne']
  rfl

/-- The moves of a cycle. -/
inductive Move (cfg : Config) (timing : Timing) : Controller → Controller → Prop where
  | tickRefresh (c : Controller) : Move cfg timing c (c.refreshed cfg)
  | startRefresh (c : Controller) {ref : Command} {rest : List Command}
    (hwait : c.channelState.refreshQ = ref :: rest) :
    Move cfg timing c { c with cmdQueue := c.cmdQueue.startRefresh cfg ref }
  | nextQueue (c : Controller) (i : Int) :
    Move cfg timing c { c with cmdQueue := { c.cmdQueue with queueIdx := i } }
  | issueRefresh (c : Controller) {ref cmd : Command} {rest : List Command}
    (hwait : c.channelState.refreshQ = ref :: rest)
    (hready : c.channelState.getReadyCommand cfg ref c.clk = .ok (some cmd)) :
    Move cfg timing c (issued cfg timing cmd { c with
      cmdQueue := if cmd.cmdType.isRefresh then c.cmdQueue.endRefresh else c.cmdQueue })
  | issueQueued (c : Controller) {i : Int} {before behind : List Command} {entry cmd : Command}
    (hqueue : c.cmdQueue.queues i = before ++ entry :: behind)
    (hready : c.channelState.getReadyCommand cfg entry c.clk = .ok (some cmd))
    (hwrite : cmd.cmdType.isWrite = true → CommandQueue.hasRwDependency before entry = false)
    (hfree : ¬ (c.cmdQueue.isInRef = true ∧ i ∈ c.cmdQueue.refQIndices)) :
    Move cfg timing c
      (issued cfg timing cmd { c with cmdQueue := c.cmdQueue.taken cfg cmd })
  | countIdle (c : Controller) : Move cfg timing c (c.countIdle cfg)
  | schedule (c : Controller) : Move cfg timing c (c.scheduleTransaction cfg)
  | tickClock (c : Controller) : Move cfg timing c c.tickClock

end Controller

end GcnSim.Dramsim
