import GcnSim.Dramsim.Bookkeeping

/-!
# A cycle as a chain of moves

`ClockTick` of a sound controller does not end the process, and what it does is a chain of
moves. With `hbm_dual_cmd` a second read or write would be taken from its queue without being
issued; the delays between two bursts keep it from being ready.
-/

namespace GcnSim.Dramsim

open Relation

/-- After a read or write no other one is ready in the same cycle: each bank has to wait at
least one cycle, or is closed by the command itself. -/
def Timing.SpacesBursts (timing : Timing) (cfg : Config) : Prop :=
  ∀ cmd : Command, cmd.cmdType.isReadWrite = true → cfg.HasBank cmd.bankId →
    ∀ p, cfg.HasBank p → ∀ t : CommandType, t.isReadWrite = true →
      (p = cmd.bankId ∧ (cmd.cmdType = .readPrecharge ∨ cmd.cmdType = .writePrecharge)) ∨
        ∃ d, (t, d) ∈ timing.delays cmd p ∧ 0 < d

/-- The configurations under which no command is lost and nothing is divided by zero: ranks never
sleep, a second command in a cycle cannot be a second burst, and refreshes and epochs take
time. -/
structure Config.Safe (cfg : Config) (timing : Timing) : Prop where
  interval : 0 < Refresh.refreshInterval cfg
  epoch : 0 < cfg.epochPeriod
  awake : cfg.enableSelfRefresh = false
  spaced : cfg.enableHbmDualCmd = true → timing.SpacesBursts cfg

namespace Controller

variable {cfg : Config} {timing : Timing} {c : Controller}

section Ask

theorem rankReady_isOk {s : ChannelState} {cmd : Command} {clk : Nat} {ps : List BankId}
    (h : ∀ p ∈ ps, ∃ t, (s.bankStates p).requiredType cmd = .ok t) (readyCmd : Option Command)
    (numReady : Nat) : ∃ r, s.rankReady cfg cmd clk ps readyCmd numReady = .ok r := by
  induction ps generalizing readyCmd numReady with
  | nil => exact ⟨_, rfl⟩
  | cons p ps ih =>
    rw [List.forall_mem_cons] at h
    obtain ⟨⟨t, ht⟩, hps⟩ := h
    rw [ChannelState.rankReady, BankState.getReadyCommand, ht]
    dsimp only
    by_cases hclk : (s.bankStates p).cmdTiming t ≤ clk
    · rw [if_pos hclk]
      dsimp only
      split
      · exact ⟨_, rfl⟩
      · exact ih hps _ _
    · rw [if_neg hclk]
      exact ih hps _ _

theorem getReadyCommand_isOk {s : ChannelState} {cmd : Command} {clk : Nat}
    (h : ∀ p, ∃ t, (s.bankStates p).requiredType cmd = .ok t) :
    ∃ r, s.getReadyCommand cfg cmd clk = .ok r := by
  rw [ChannelState.getReadyCommand]
  split
  · exact rankReady_isOk (fun p _ => h p) none 0
  · obtain ⟨t, ht⟩ := h cmd.bankId
    rw [BankState.getReadyCommand, ht]
    dsimp only
    by_cases hclk : (s.bankStates cmd.bankId).cmdTiming t ≤ clk
    · rw [if_pos hclk]
      dsimp only
      split <;> exact ⟨_, rfl⟩
    · rw [if_neg hclk]
      exact ⟨_, rfl⟩

theorem Sound.ask_entry (hs : Sound cfg c) {i : Int} {e : Command}
    (he : e ∈ c.cmdQueue.queues i) :
    ∃ r, c.channelState.getReadyCommand cfg e c.clk = .ok r := by
  obtain ⟨⟨t, rfl⟩, -⟩ := hs.entry i e he
  exact getReadyCommand_isOk fun p =>
    ⟨_, BankState.requiredType_of_isReadWrite (hs.awake p) transToCommand_isReadWrite⟩

theorem Sound.ask_refresh (hs : Sound cfg c) {ref : Command}
    (href : ref ∈ c.channelState.refreshQ) :
    ∃ r, c.channelState.getReadyCommand cfg ref c.clk = .ok r :=
  getReadyCommand_isOk fun p =>
    ⟨_, BankState.requiredType_of_isRefresh (hs.awake p) (hs.refreshQ ref href)⟩

end Ask

section Choose

/-- The moves of `GetCommandToIssue` and of the commands it chooses. -/
inductive QueueMove (cfg : Config) (timing : Timing) : Controller → Controller → Prop where
  | nextQueue (c : Controller) (i : Int) :
    QueueMove cfg timing c { c with cmdQueue := { c.cmdQueue with queueIdx := i } }
  | issueQueued (c : Controller) {i : Int} {before behind : List Command} {entry cmd : Command}
    (hqueue : c.cmdQueue.queues i = before ++ entry :: behind)
    (hready : c.channelState.getReadyCommand cfg entry c.clk = .ok (some cmd))
    (hwrite : cmd.cmdType.isWrite = true → CommandQueue.hasRwDependency before entry = false)
    (hfree : ¬ (c.cmdQueue.isInRef = true ∧ i ∈ c.cmdQueue.refQIndices)) :
    QueueMove cfg timing c
      (issued cfg timing cmd { c with cmdQueue := c.cmdQueue.taken cfg cmd })

theorem QueueMove.move {c' : Controller} (h : QueueMove cfg timing c c') :
    Move cfg timing c c' := by
  cases h with
  | nextQueue i => exact .nextQueue c i
  | issueQueued hqueue hready hwrite hfree => exact .issueQueued c hqueue hready hwrite hfree

/-- What `FinishRefresh` does for the first waiting refresh, with the command it chooses. -/
inductive FrontMove (cfg : Config) (timing : Timing) (c : Controller) : Controller → Prop where
  | idle (hnone : c.channelState.refreshQ = []) : FrontMove cfg timing c c
  | wait {ref : Command} {rest : List Command} (hwait : c.channelState.refreshQ = ref :: rest)
    (hready : c.channelState.getReadyCommand cfg ref c.clk = .ok none) :
    FrontMove cfg timing c { c with cmdQueue := c.cmdQueue.startRefresh cfg ref }
  | issue {ref cmd : Command} {rest : List Command}
    (hwait : c.channelState.refreshQ = ref :: rest)
    (hready : c.channelState.getReadyCommand cfg ref c.clk = .ok (some cmd)) :
    FrontMove cfg timing c (issued cfg timing cmd { c with
      cmdQueue := if cmd.cmdType.isRefresh then (c.cmdQueue.startRefresh cfg ref).endRefresh
        else c.cmdQueue.startRefresh cfg ref })

theorem FrontMove.moves {c' : Controller} (h : FrontMove cfg timing c c') :
    ReflTransGen (Move cfg timing) c c' := by
  cases h with
  | idle => exact .refl
  | wait hwait => exact .single (.startRefresh c hwait)
  | @issue ref cmd rest hwait hready =>
    exact .tail (.single (.startRefresh c hwait))
      (.issueRefresh { c with cmdQueue := c.cmdQueue.startRefresh cfg ref } hwait hready)

/-- A command that has been chosen can be issued, and issuing it is a move. -/
structure Choice (cfg : Config) (timing : Timing) (c : Controller) (cmd : Command)
    (c' : Controller) : Prop where
  issues : c'.issueCommand cfg timing cmd = .ok (c'.issued cfg timing cmd)
  moves : ReflTransGen (QueueMove cfg timing) c (c'.issued cfg timing cmd)
  ready : c.channelState.Ready cfg c.clk cmd

theorem Sound.chosen (hs : Sound cfg c) :
    ∃ cmd q, c.getCommandToIssue cfg = .ok (cmd, { c with cmdQueue := q }) ∧
      CommandQueue.Chosen cfg c.channelState c.cmdQueue cmd q := by
  obtain ⟨cmd, q, hchosen, hq⟩ := @CommandQueue.commandToIssue_chosen cfg c.channelState
    (CommandQueue.numQueues cfg) c.cmdQueue
    (fun i e he => hs.clk ▸ hs.ask_entry he) (fun i e he => (hs.entry i e he).2)
    (fun i e he cmd hready hrw => by
      rw [hs.clk] at hready
      rcases (hs.ready_entry he hready).2 with h | h | h
      · exact h
      · rw [h] at hrw
        cases hrw
      · rw [h] at hrw
        cases hrw)
  refine ⟨cmd, q, ?_, hq⟩
  rw [Controller.getCommandToIssue, CommandQueue.getCommandToIssue, hchosen]

/-- `GetCommandToIssue` of a sound controller. -/
theorem Sound.getCommandToIssue (hs : Sound cfg c) :
    ∃ cmd c', c.getCommandToIssue cfg = .ok (cmd, c') ∧
      match cmd with
      | none => ReflTransGen (QueueMove cfg timing) c c'
      | some cmd => Choice cfg timing c cmd c' ∧
        (cmd.cmdType.isReadWrite = false → ReflTransGen (QueueMove cfg timing) c c') ∧
        (cmd.cmdType.isReadWrite = true → cfg.HasBank cmd.bankId) := by
  obtain ⟨cmd, q, hget, hq⟩ := hs.chosen
  refine ⟨cmd, { c with cmdQueue := q }, hget, ?_⟩
  cases hq with
  | none i => exact .single (.nextQueue c i)
  | @some i before behind entry cmd hqueue hready hwrite hfree =>
    rw [hs.clk] at hready
    have hmem : entry ∈ c.cmdQueue.queues i := by
      rw [hqueue]
      simp
    obtain ⟨hentry, hcmd⟩ := hs.ready_entry hmem hready
    have hnotSref : cmd.cmdType ≠ .srefExit := by
      rcases hcmd with rfl | h | h
      · obtain ⟨⟨t, rfl⟩, -⟩ := hs.entry i cmd hmem
        have hrw : (transToCommand cfg t).cmdType.isReadWrite = true :=
          transToCommand_isReadWrite
        intro h
        rw [h] at hrw
        cases hrw
      · rw [h]
        decide
      · rw [h]
        decide
    have hch : c.channelState.Ready cfg c.clk cmd :=
      ChannelState.ready_of_getReadyCommand hready hnotSref
    have hissue : QueueMove cfg timing { c with cmdQueue := { c.cmdQueue with queueIdx := i } }
        (issued cfg timing cmd { c with
          cmdQueue := CommandQueue.taken cfg cmd { c.cmdQueue with queueIdx := i } }) :=
      .issueQueued { c with cmdQueue := { c.cmdQueue with queueIdx := i } } hqueue hready
        hwrite hfree
    have hpending : cmd.cmdType.isReadWrite = true →
        0 < countAddr (c.pending cmd.cmdType.isWrite) cmd.hexAddr ∧
          cfg.HasBank cmd.bankId := by
      intro hrw
      rcases hcmd with rfl | h | h
      · refine ⟨(hs.pending_of_entry hmem).1, ?_⟩
        obtain ⟨⟨t, rfl⟩, -⟩ := hs.entry i cmd hmem
        exact hasBank_transToCommand
      · rw [h] at hrw
        cases hrw
      · rw [h] at hrw
        cases hrw
    refine ⟨⟨?_, ?_, hch⟩, ?_, fun hrw => (hpending hrw).2⟩
    · apply issueCommand_setCmdQueue _ hch.takes
      · intro hread
        have h := (hpending (by rw [CommandType.isReadWrite, hread]; rfl)).1
        have hnotWrite : cmd.cmdType.isWrite = false := by
          revert hread
          cases cmd.cmdType <;> decide
        rw [hnotWrite] at h
        exact h
      · intro hw
        have h := (hpending (by rw [CommandType.isReadWrite, hw, Bool.or_true])).1
        rw [hw] at h
        exact h
    · exact .tail (.single (.nextQueue c i)) hissue
    · intro hrw
      rw [CommandQueue.taken, hrw]
      exact .single (.nextQueue c i)

/-- `FinishRefresh` of a sound controller. -/
theorem Sound.finishRefresh (hs : Sound cfg c) :
    ∃ cmd c', c.finishRefresh cfg = .ok (cmd, c') ∧
      match cmd with
      | none => FrontMove cfg timing c c'
      | some cmd => c'.issueCommand cfg timing cmd = .ok (c'.issued cfg timing cmd) ∧
        FrontMove cfg timing c (c'.issued cfg timing cmd) ∧ cmd.cmdType.isReadWrite = false := by
  rw [Controller.finishRefresh]
  cases hwait : c.channelState.refreshQ with
  | nil => exact ⟨none, c, rfl, .idle hwait⟩
  | cons ref rest =>
    have href : ref ∈ c.channelState.refreshQ := hwait ▸ List.mem_cons_self
    obtain ⟨r, hr⟩ := hs.ask_refresh href
    have hask : c.channelState.getReadyCommand cfg ref (c.cmdQueue.startRefresh cfg ref).clk =
        .ok r := by
      rw [(startRefresh_frame c.cmdQueue ref).2, hs.clk]
      exact hr
    dsimp only
    rw [CommandQueue.finishRefresh, hask]
    cases r with
    | none => exact ⟨none, _, rfl, .wait hwait hr⟩
    | some cmd =>
      have hcmd : cmd.cmdType.isRefresh = true ∨ cmd.cmdType = .precharge :=
        (hs.ready_refresh href hr).imp (fun h => by rw [h]; exact hs.refreshQ ref href) id
      have hrw : cmd.cmdType.isRead = false ∧ cmd.cmdType.isWrite = false ∧
          cmd.cmdType ≠ .srefExit := by
        revert hcmd
        cases cmd.cmdType <;> decide
      have hready : c.channelState.Ready cfg c.clk cmd :=
        ChannelState.ready_of_getReadyCommand hr hrw.2.2
      refine ⟨some cmd, _, rfl, ?_, .issue hwait hr, ?_⟩
      · apply issueCommand_setCmdQueue _ hready.takes
        · intro h
          rw [hrw.1] at h
          cases h
        · intro h
          rw [hrw.2.1] at h
          cases h
      · rw [CommandType.isReadWrite, hrw.1, hrw.2.1]
        rfl

theorem Sound.moves {c' : Controller} (hs : Sound cfg c)
    (h : ReflTransGen (Move cfg timing) c c') : Sound cfg c' := by
  induction h with
  | refl => exact hs
  | tail _ hmove ih => exact ih.move hmove

/-- The commands of a cycle: one for the first waiting refresh, then those of the queues. -/
def Issue (cfg : Config) (timing : Timing) (c c' : Controller) : Prop :=
  ∃ d, FrontMove cfg timing c d ∧ ReflTransGen (QueueMove cfg timing) d c'

theorem Issue.moves {c' : Controller} (h : Issue cfg timing c c') :
    ReflTransGen (Move cfg timing) c c' := by
  obtain ⟨d, hfront, hqueue⟩ := h
  have hmono : ReflTransGen (QueueMove cfg timing) ≤ ReflTransGen (Move cfg timing) :=
    ReflTransGen.mono fun _ _ hmove => hmove.move
  exact hfront.moves.trans (hmono d c' hqueue)

/-- The command of a cycle of a sound controller. -/
theorem Sound.nextCommand (hs : Sound cfg c) :
    ∃ cmd c', c.nextCommand cfg = .ok (cmd, c') ∧
      match cmd with
      | none => Issue cfg timing c c'
      | some cmd => c'.issueCommand cfg timing cmd = .ok (c'.issued cfg timing cmd) ∧
        Issue cfg timing c (c'.issued cfg timing cmd) ∧
        (cmd.cmdType.isReadWrite = true → cfg.HasBank cmd.bankId) := by
  obtain ⟨cmd, c', hfinish, hc'⟩ := @Sound.finishRefresh cfg timing c hs
  rw [Controller.nextCommand, hfinish]
  cases cmd with
  | some cmd =>
    refine ⟨some cmd, c', rfl, hc'.1, ⟨_, hc'.2.1, .refl⟩, fun hrw => ?_⟩
    rw [hc'.2.2] at hrw
    cases hrw
  | none =>
    obtain ⟨cmd, c'', hget, hc''⟩ :=
      @Sound.getCommandToIssue cfg timing c' (hs.moves (FrontMove.moves hc'))
    dsimp only
    refine ⟨cmd, c'', hget, ?_⟩
    cases cmd with
    | none => exact ⟨c', hc', hc''⟩
    | some cmd => exact ⟨hc''.1.issues, ⟨c', hc', hc''.1.moves⟩, hc''.2.2⟩

end Choose

section ClockTick

/-- Once a burst has been issued, a bank is closed or has to wait for the next one. -/
theorem no_second_burst {cmd : Command} (hspaced : timing.SpacesBursts cfg)
    (hcmd : cmd.cmdType.isReadWrite = true) (hbank : cfg.HasBank cmd.bankId) {p : BankId}
    (hp : cfg.HasBank p) {t : CommandType} (ht : t.isReadWrite = true) :
    ((c.issued cfg timing cmd).channelState.bankStates p).state = .closed ∨
      c.clk < ((c.issued cfg timing cmd).channelState.bankStates p).cmdTiming t := by
  rcases hspaced cmd hcmd hbank p hp t ht with ⟨hself, hclose⟩ | ⟨d, hd, hpos⟩
  · left
    dsimp only [issued]
    rw [ChannelState.updateTiming_state, ChannelState.after]
    have hcovered : p ∈ ChannelState.covered cfg cmd := by
      rw [ChannelState.covered, CommandType.isRankCmd_of_isReadWrite hcmd, hself]
      exact List.mem_singleton_self _
    dsimp only
    rw [Table.forEach_of_mem hcovered, BankState.after]
    rcases hclose with h | h <;> rw [h]
  · right
    dsimp only [issued]
    rw [ChannelState.updateTiming_bankStates hp]
    exact Nat.lt_of_lt_of_le (lt_addDelay hpos c.clk) (BankState.addDelay_le_updateTimings hd)

/-- A second command in the cycle is issued, or it is no burst and stays in its queue. -/
theorem Sound.issueSecond {cmd : Command} (hs : Sound cfg (c.issued cfg timing cmd))
    (hcmd : cmd.cmdType.isReadWrite = true → cfg.HasBank cmd.bankId)
    (hspaced : timing.SpacesBursts cfg) :
    ∃ c', (c.issued cfg timing cmd).issueSecond cfg timing cmd = .ok c' ∧
      ReflTransGen (QueueMove cfg timing) (c.issued cfg timing cmd) c' := by
  obtain ⟨second, c', hget, hc'⟩ := @Sound.getCommandToIssue cfg timing _ hs
  rw [Controller.issueSecond, hget]
  cases second with
  | none => exact ⟨c', rfl, hc'⟩
  | some second =>
    obtain ⟨hchoice, hkept, hbank⟩ := hc'
    dsimp only
    by_cases hkind : second.cmdType.isReadWrite = cmd.cmdType.isReadWrite
    · rw [if_neg (not_not.mpr hkind)]
      refine ⟨c', rfl, hkept ?_⟩
      -- a second burst would have to be ready right after the first
      by_contra hrw
      rw [Bool.not_eq_false] at hrw
      have hmem : second.bankId ∈ ChannelState.covered cfg second := by
        rw [ChannelState.covered, CommandType.isRankCmd_of_isReadWrite hrw]
        exact List.mem_singleton_self _
      have htakes := hchoice.ready.takes _ hmem
      have hclk := hchoice.ready.timing _ hmem
      have hsecond := no_second_burst (c := c) hspaced (hkind ▸ hrw) (hcmd (hkind ▸ hrw))
        (hbank hrw) hrw
      rcases hsecond with h | h
      · rw [BankState.Takes] at htakes
        cases htype : second.cmdType <;> rw [htype] at htakes hrw
        case read | write | readPrecharge | writePrecharge =>
          rw [h] at htakes
          cases htakes.1
        all_goals cases hrw
      · have hsame : (c.issued cfg timing cmd).clk = c.clk := completed_clk
        omega
    · rw [if_pos hkind]
      exact ⟨_, hchoice.issues, hchoice.moves⟩

/-- The commands of a cycle of a sound controller. -/
theorem Sound.issueCommands (hs : Sound cfg c) (hsafe : cfg.Safe timing) :
    ∃ b c', c.issueCommands cfg timing = .ok (b, c') ∧ Issue cfg timing c c' := by
  obtain ⟨cmd, c', hnext, hc'⟩ := @Sound.nextCommand cfg timing c hs
  rw [Controller.issueCommands, hnext]
  cases cmd with
  | none => exact ⟨false, c', rfl, hc'⟩
  | some cmd =>
    obtain ⟨hissue, hchain, hbank⟩ := hc'
    dsimp only
    rw [hissue]
    dsimp only
    split
    · rename_i hdual
      obtain ⟨c'', hsecond, hmoves⟩ :=
        (hs.moves hchain.moves).issueSecond hbank (hsafe.spaced hdual)
      rw [hsecond]
      obtain ⟨d, hfront, hqueue⟩ := hchain
      exact ⟨true, c'', rfl, d, hfront, hqueue.trans hmoves⟩
    · exact ⟨true, _, rfl, hchain⟩

/-- A cycle does not end the process; the refresh counter ticks, commands are issued, and a
transaction may be scheduled. -/
theorem Sound.clockTick_issue (hs : Sound cfg c) (hsafe : cfg.Safe timing) :
    ∃ d, Issue cfg timing (c.refreshed cfg) d ∧
      c.clockTick cfg timing = .ok ((d.countIdle cfg).scheduleTransaction cfg).tickClock := by
  have hstart : Move cfg timing c (c.refreshed cfg) := .tickRefresh c
  obtain ⟨b, d, hissue, hd⟩ := (hs.move hstart).issueCommands hsafe
  refine ⟨d, hd, ?_⟩
  rw [Controller.clockTick, tickRefresh_eq_refreshed hsafe.interval]
  dsimp only
  rw [Controller.tickRest, hissue]
  dsimp only
  rw [hsafe.awake]
  rfl

/-- A cycle is a chain of moves. -/
theorem Sound.clockTick_moves (hs : Sound cfg c) (hsafe : cfg.Safe timing) :
    ∃ c', c.clockTick cfg timing = .ok c' ∧ ReflTransGen (Move cfg timing) c c' := by
  obtain ⟨d, hd, htick⟩ := hs.clockTick_issue hsafe
  refine ⟨_, htick, ?_⟩
  exact (ReflTransGen.head (.tickRefresh c) hd.moves).trans
    (.tail (.tail (.tail .refl (.countIdle d)) (.schedule _)) (.tickClock _))

theorem Sound.clockTick (hs : Sound cfg c) (hsafe : cfg.Safe timing) {c' : Controller}
    (h : c.clockTick cfg timing = .ok c') : Sound cfg c' := by
  obtain ⟨c'', hc'', hmoves⟩ := hs.clockTick_moves hsafe
  rw [h] at hc''
  cases hc''
  exact hs.moves hmoves

end ClockTick

end Controller

end GcnSim.Dramsim
