import GcnSim.Dramsim.CommandQueue
import GcnSim.Dramsim.Refresh

/-!
# The controller of a channel

A transaction waits in a queue of the controller, then as a command in a command queue, until
its read or write command is issued. Every cycle at most one command goes to the channel, with
`hbm_dual_cmd` a second one of the other kind. `cmdTrace` is the command trace that the source
writes with `CMD_TRACE`.
-/

namespace GcnSim.Dramsim

/-- `class Controller`. A multimap is the list of its values in the order of their insertion. -/
structure Controller where
  clk : Nat
  channelState : ChannelState
  cmdQueue : CommandQueue
  refresh : Refresh
  unifiedQueue : List Transaction
  readQueue : List Transaction
  writeBuffer : List Transaction
  pendingRdQ : List Transaction
  pendingWrQ : List Transaction
  returnQueue : List Transaction
  writeDraining : Int
  cmdTrace : List (Nat × Command)

/-- `count` of a multimap. -/
def countAddr (q : List Transaction) (hexAddr : Nat) : Nat :=
  q.countP fun t => decide (t.addr = hexAddr)

/-- `TransToCommand`. -/
def transToCommand (cfg : Config) (trans : Transaction) : Command where
  cmdType :=
    match cfg.rowBufPolicy with
    | .openPage => if trans.isWrite then .write else .read
    | .closePage => if trans.isWrite then .writePrecharge else .readPrecharge
  addr := cfg.addressMapping trans.addr
  hexAddr := trans.addr

namespace Controller

/-- The constructor. -/
def init : Controller where
  clk := 0
  channelState := .init
  cmdQueue := .init
  refresh := .init
  unifiedQueue := []
  readQueue := []
  writeBuffer := []
  pendingRdQ := []
  pendingWrQ := []
  returnQueue := []
  writeDraining := 0
  cmdTrace := []

variable (cfg : Config) (timing : Timing)

/-- `WillAcceptTransaction`. The capacity of a queue is what `reserve` asked for. -/
def willAcceptTransaction (c : Controller) (isWrite : Bool) : Bool :=
  if cfg.unifiedQueue then decide (c.unifiedQueue.length < cfg.transQueueSize)
  else if !isWrite then decide (c.readQueue.length < cfg.transQueueSize)
  else decide (c.writeBuffer.length < cfg.transQueueSize)

/-- `AddTransaction`. -/
def addTransaction (hexAddr : Nat) (isWrite : Bool) (c : Controller) : Controller :=
  let trans : Transaction := ⟨hexAddr, c.clk, 0, isWrite⟩
  if isWrite then
    let c := if countAddr c.pendingWrQ hexAddr = 0 then
        let c := { c with pendingWrQ := c.pendingWrQ ++ [trans] }
        if cfg.unifiedQueue then { c with unifiedQueue := c.unifiedQueue ++ [trans] }
        else { c with writeBuffer := c.writeBuffer ++ [trans] }
      else c
    { c with returnQueue := c.returnQueue ++ [{ trans with completeCycle := c.clk + 1 }] }
  else if 0 < countAddr c.pendingWrQ hexAddr then
    { c with returnQueue := c.returnQueue ++ [{ trans with completeCycle := c.clk + 1 }] }
  else
    let c := { c with pendingRdQ := c.pendingRdQ ++ [trans] }
    if countAddr c.pendingRdQ hexAddr = 1 then
      if cfg.unifiedQueue then { c with unifiedQueue := c.unifiedQueue ++ [trans] }
      else { c with readQueue := c.readQueue ++ [trans] }
    else c

/-- `ReturnDoneTrans`: the first transaction that is done leaves the return queue. -/
def returnDoneTrans (clk : Nat) (c : Controller) : Option Transaction × Controller :=
  (c.returnQueue.find? fun t => decide (t.completeCycle ≤ clk),
    { c with returnQueue := c.returnQueue.eraseP fun t => decide (t.completeCycle ≤ clk) })

/-- `n` rounds of the loop in `IssueCommand` over the reads of an address. -/
def completeReads (hexAddr : Nat) : Nat → Controller → Controller
  | 0, c => c
  | n + 1, c =>
    match c.pendingRdQ.find? fun t => decide (t.addr = hexAddr) with
    | none => c
    | some t => completeReads hexAddr n
        { c with
          returnQueue := c.returnQueue ++ [{ t with completeCycle := addDelay c.clk cfg.readDelay }]
          pendingRdQ := c.pendingRdQ.eraseP fun t => decide (t.addr = hexAddr) }

/-- The part of `IssueCommand` on the pending transactions. -/
def completePending (cmd : Command) (c : Controller) : Except Abort Controller :=
  if cmd.cmdType.isRead then
    if countAddr c.pendingRdQ cmd.hexAddr = 0 then .error .notInReadQueue
    else .ok (c.completeReads cfg cmd.hexAddr (countAddr c.pendingRdQ cmd.hexAddr))
  else if cmd.cmdType.isWrite then
    if c.pendingWrQ.any fun t => decide (t.addr = cmd.hexAddr) then
      .ok { c with pendingWrQ := c.pendingWrQ.eraseP fun t => decide (t.addr = cmd.hexAddr) }
    else .error .notInWriteQueue
  else .ok c

/-- `IssueCommand`. -/
def issueCommand (cmd : Command) (c : Controller) : Except Abort Controller :=
  match c.completePending cfg cmd with
  | .error e => .error e
  | .ok c =>
    match c.channelState.updateTimingAndStates cfg timing cmd c.clk with
    | .error e => .error e
    | .ok s => .ok { c with
        channelState := s
        cmdTrace := c.cmdTrace ++ [(c.clk, cmd)] }

/-- `refresh_.ClockTick()`. -/
def tickRefresh (c : Controller) : Except Abort Controller :=
  match c.refresh.clockTick cfg c.channelState with
  | .error e => .error e
  | .ok (refresh, s) => .ok { c with
      refresh := refresh
      channelState := s }

/-- `cmd_queue_.GetCommandToIssue()`. -/
def getCommandToIssue (c : Controller) : Except Abort (Option Command × Controller) :=
  match c.cmdQueue.getCommandToIssue cfg c.channelState with
  | .error e => .error e
  | .ok (cmd, q) => .ok (cmd, { c with cmdQueue := q })

/-- `cmd_queue_.FinishRefresh()`, if a refresh waits. -/
def finishRefresh (c : Controller) : Except Abort (Option Command × Controller) :=
  match c.channelState.refreshQ with
  | [] => .ok (none, c)
  | ref :: _ =>
    match c.cmdQueue.finishRefresh cfg c.channelState ref with
    | .error e => .error e
    | .ok (cmd, q) => .ok (cmd, { c with cmdQueue := q })

/-- The command for this cycle. -/
def nextCommand (c : Controller) : Except Abort (Option Command × Controller) :=
  match c.finishRefresh cfg with
  | .error e => .error e
  | .ok (some cmd, c) => .ok (some cmd, c)
  | .ok (none, c) => c.getCommandToIssue cfg

/-- The second command of a cycle with `enable_hbm_dual_cmd`. It is taken from its queue also
when it is not issued. -/
def issueSecond (cmd : Command) (c : Controller) : Except Abort Controller :=
  match c.getCommandToIssue cfg with
  | .error e => .error e
  | .ok (none, c) => .ok c
  | .ok (some second, c) =>
    if second.cmdType.isReadWrite ≠ cmd.cmdType.isReadWrite then
      c.issueCommand cfg timing second
    else .ok c

/-- The commands of a cycle, and whether there was one. -/
def issueCommands (c : Controller) : Except Abort (Bool × Controller) :=
  match c.nextCommand cfg with
  | .error e => .error e
  | .ok (none, c) => .ok (false, c)
  | .ok (some cmd, c) =>
    match c.issueCommand cfg timing cmd with
    | .error e => .error e
    | .ok c =>
      if cfg.enableHbmDualCmd then
        match c.issueSecond cfg timing cmd with
        | .error e => .error e
        | .ok c => .ok (true, c)
      else .ok (true, c)

/-- The idle cycles of the ranks. -/
def countIdle (c : Controller) : Controller :=
  { c with channelState := { c.channelState with
      rankIdleCycles := fun i =>
        if i ∈ upTo cfg.ranks ∧ c.channelState.rankIsSref i = false then
          if c.channelState.isAllBankIdleInRank cfg i then c.channelState.rankIdleCycles i + 1
          else 0
        else c.channelState.rankIdleCycles i } }

/-- A self-refresh command of a rank. -/
def srefCommand (t : CommandType) (rank : Int) : Command :=
  ⟨t, ⟨-1, rank, -1, -1, -1, -1⟩, noHexAddr⟩

/-- The loop over the ranks that wakes one or sends one to sleep. -/
def selfRefresh : List Int → Controller → Except Abort Controller
  | [], c => .ok c
  | i :: is, c =>
    let wanted : Option CommandType :=
      if c.channelState.rankIsSref i then
        if !c.cmdQueue.rankQEmpty i then some .srefExit else none
      else if c.cmdQueue.rankQEmpty i &&
          decide (cfg.srefThreshold ≤ c.channelState.rankIdleCycles i) then some .srefEnter
      else none
    match wanted with
    | none => selfRefresh is c
    | some t =>
      match c.channelState.getReadyCommand cfg (srefCommand t i) c.clk with
      | .error e => .error e
      | .ok none => selfRefresh is c
      | .ok (some cmd) => c.issueCommand cfg timing cmd

/-- The queue that `ScheduleTransaction` serves. -/
inductive Source where
  | unified | write | read
  deriving DecidableEq, Repr

/-- `queue` in `ScheduleTransaction`. -/
def source (c : Controller) : Source :=
  if cfg.unifiedQueue then .unified else if 0 < c.writeDraining then .write else .read

/-- The transactions of a queue. -/
def queue (c : Controller) : Source → List Transaction
  | .unified => c.unifiedQueue
  | .write => c.writeBuffer
  | .read => c.readQueue

/-- The controller with other transactions in a queue. -/
def setQueue (q : List Transaction) (c : Controller) : Source → Controller
  | .unified => { c with unifiedQueue := q }
  | .write => { c with writeBuffer := q }
  | .read => { c with readQueue := q }

/-- The beginning of `ScheduleTransaction`: whether to drain the write buffer. -/
def startDraining (c : Controller) : Controller :=
  if c.writeDraining = 0 ∧ cfg.unifiedQueue = false ∧
      (cfg.transQueueSize ≤ c.writeBuffer.length ∨
        (8 < c.writeBuffer.length ∧ c.cmdQueue.queueEmpty cfg = true)) then
    { c with writeDraining := c.writeBuffer.length }
  else c

/-- The command queue of a transaction has room. -/
def hasRoom (c : Controller) (t : Transaction) : Bool :=
  c.cmdQueue.willAcceptCommand cfg (transToCommand cfg t).bankId

/-- The loop of `ScheduleTransaction`, which ends at the first transaction of the queue whose
command queue has room. -/
def moveTransaction (c : Controller) : Controller :=
  let src := c.source cfg
  match (c.queue src).find? (c.hasRoom cfg) with
  | none => c
  | some t =>
    let cmd := transToCommand cfg t
    let isBuffered := !cfg.unifiedQueue && cmd.cmdType.isWrite
    if isBuffered && decide (0 < countAddr c.pendingRdQ t.addr) then { c with writeDraining := 0 }
    else
      let rest := (c.queue src).eraseP (c.hasRoom cfg)
      let c := if isBuffered then { c with writeDraining := c.writeDraining - 1 } else c
      { c with cmdQueue := c.cmdQueue.addCommand cfg cmd }.setQueue rest src

/-- `ScheduleTransaction`. -/
def scheduleTransaction (c : Controller) : Controller := (c.startDraining cfg).moveTransaction cfg

/-- The end of the cycle. -/
def tickClock (c : Controller) : Controller :=
  { c with
    clk := c.clk + 1
    cmdQueue := { c.cmdQueue with clk := c.cmdQueue.clk + 1 } }

/-- The rest of `ClockTick` behind the refresh counter. -/
def tickRest (c : Controller) : Except Abort Controller :=
  match c.issueCommands cfg timing with
  | .error e => .error e
  | .ok (cmdIssued, c) =>
    let c := c.countIdle cfg
    match (if cfg.enableSelfRefresh && !cmdIssued then c.selfRefresh cfg timing (upTo cfg.ranks)
      else .ok c) with
    | .error e => .error e
    | .ok c => .ok (c.scheduleTransaction cfg).tickClock

/-- `ClockTick`. -/
def clockTick (c : Controller) : Except Abort Controller :=
  match c.tickRefresh cfg with
  | .error e => .error e
  | .ok c => c.tickRest cfg timing

end Controller

end GcnSim.Dramsim
