import GcnSim.Dramsim.ChannelState

/-!
# The command queues

One queue for every bank or for every rank. `GetCommandToIssue` goes round the queues and
takes from each the first command that is ready, unless a precharge is not worth it yet or a
write has to wait for a read in front of it. The queues of a rank or bank that waits for a
refresh are left out.
-/

namespace GcnSim.Dramsim

/-- `class CommandQueue`. The set `ref_q_indices_` is a list. -/
structure CommandQueue where
  rankQEmpty : Int → Bool
  queues : Int → List Command
  refQIndices : List Int
  isInRef : Bool
  queueIdx : Int
  clk : Nat

namespace CommandQueue

/-- The constructor. -/
def init : CommandQueue where
  rankQEmpty := fun _ => true
  queues := fun _ => []
  refQIndices := []
  isInRef := false
  queueIdx := 0
  clk := 0

variable (cfg : Config)

/-- `num_queues_`. -/
def numQueues : Nat :=
  match cfg.queueStructure with
  | .perBank => cfg.banks * cfg.ranks
  | .perRank => cfg.ranks

/-- `GetQueueIndex`. -/
def getQueueIndex (p : BankId) : Int :=
  match cfg.queueStructure with
  | .perRank => p.rank
  | .perBank => p.rank * cfg.banks + p.bankgroup * cfg.banksPerGroup + p.bank

/-- `WillAcceptCommand`. -/
def willAcceptCommand (q : CommandQueue) (p : BankId) : Bool :=
  decide ((q.queues (getQueueIndex cfg p)).length < cfg.cmdQueueSize)

/-- `QueueEmpty`. -/
def queueEmpty (q : CommandQueue) : Bool :=
  (upTo (numQueues cfg)).all fun i => (q.queues i).isEmpty

/-- `AddCommand`. -/
def addCommand (cmd : Command) (q : CommandQueue) : CommandQueue :=
  let i := getQueueIndex cfg cmd.bankId
  if (q.queues i).length < cfg.cmdQueueSize then
    { q with
      queues := Function.update q.queues i (q.queues i ++ [cmd])
      rankQEmpty := Function.update q.rankQEmpty cmd.addr.rank false }
  else q

/-- `GetNextQueue`. -/
def getNextQueue (q : CommandQueue) : CommandQueue :=
  { q with queueIdx := if q.queueIdx + 1 = numQueues cfg then 0 else q.queueIdx + 1 }

/-- `GetRefQIndices`. -/
def getRefQIndices (ref : Command) : List Int :=
  if ref.cmdType = .refresh then
    match cfg.queueStructure with
    | .perBank => (upTo (numQueues cfg)).filter fun i => decide (i / cfg.banks = ref.addr.rank)
    | .perRank => [ref.addr.rank]
  else [getQueueIndex cfg ref.bankId]

/-- `ArbitratePrecharge` for the command `cmd` with `before` in front of it and `behind` after
it. -/
def arbitratePrecharge (s : ChannelState) (before : List Command) (cmd : Command)
    (behind : List Command) : Bool :=
  if before.any fun prev => decide (prev.bankId = cmd.bankId) then false
  else
    let pendingRowHitsExist := (cmd :: behind).any fun pending =>
      decide (pending.addr.row = s.openRow cmd.bankId ∧ pending.bankId = cmd.bankId)
    let rowhitLimitReached := decide (4 ≤ s.rowHitCount cmd.bankId)
    !pendingRowHitsExist || rowhitLimitReached

/-- `HasRWDependency`; the rank is not compared. -/
def hasRwDependency (before : List Command) (cmd : Command) : Bool :=
  before.any fun prev => prev.cmdType.isRead && decide (prev.addr.row = cmd.addr.row ∧
    prev.addr.column = cmd.addr.column ∧ prev.addr.bank = cmd.addr.bank ∧
    prev.addr.bankgroup = cmd.addr.bankgroup)

/-- The loop of `GetFirstReadyInQueue`, behind the commands `before`. -/
def firstReady (s : ChannelState) (clk : Nat) (before : List Command) :
    List Command → Except Abort (Option Command)
  | [] => .ok none
  | cmd :: behind =>
    match s.getReadyCommand cfg cmd clk with
    | .error e => .error e
    | .ok none => firstReady s clk (before ++ [cmd]) behind
    | .ok (some ready) =>
      if ready.cmdType = .precharge then
        if !arbitratePrecharge s before cmd behind then
          firstReady s clk (before ++ [cmd]) behind
        else .ok (some ready)
      else if ready.cmdType.isWrite then
        if hasRwDependency before cmd then firstReady s clk (before ++ [cmd]) behind
        else .ok (some ready)
      else .ok (some ready)

/-- `GetFirstReadyInQueue`. -/
def getFirstReadyInQueue (s : ChannelState) (clk : Nat) (queue : List Command) :
    Except Abort (Option Command) :=
  firstReady cfg s clk [] queue

/-- The test of `EraseRWCommand`. -/
def sameRequest (cmd entry : Command) : Bool :=
  decide (cmd.hexAddr = entry.hexAddr ∧ cmd.cmdType = entry.cmdType)

/-- `EraseRWCommand`. -/
def eraseRwCommand (cmd : Command) (q : CommandQueue) : Except Abort CommandQueue :=
  let i := getQueueIndex cfg cmd.bankId
  if (q.queues i).any (sameRequest cmd) then
    .ok { q with
      queues := Function.update q.queues i ((q.queues i).eraseP (sameRequest cmd)) }
  else .error .cannotFindCmd

/-- `n` rounds of the loop of `GetCommandToIssue`. -/
def commandToIssue (s : ChannelState) :
    Nat → CommandQueue → Except Abort (Option Command × CommandQueue)
  | 0, q => .ok (none, q)
  | n + 1, q =>
    let q := q.getNextQueue cfg
    if q.isInRef && decide (q.queueIdx ∈ q.refQIndices) then commandToIssue s n q
    else
      match getFirstReadyInQueue cfg s q.clk (q.queues q.queueIdx) with
      | .error e => .error e
      | .ok none => commandToIssue s n q
      | .ok (some cmd) =>
        if cmd.cmdType.isReadWrite then
          match q.eraseRwCommand cfg cmd with
          | .error e => .error e
          | .ok q => .ok (some cmd, q)
        else .ok (some cmd, q)

/-- `GetCommandToIssue`. -/
def getCommandToIssue (s : ChannelState) (q : CommandQueue) :
    Except Abort (Option Command × CommandQueue) :=
  commandToIssue cfg s (numQueues cfg) q

/-- The queue once `FinishRefresh` has taken up the refresh `ref`. -/
def startRefresh (ref : Command) (q : CommandQueue) : CommandQueue :=
  if q.isInRef then q
  else
    { q with
      refQIndices := q.refQIndices ++ getRefQIndices cfg ref
      isInRef := true }

/-- The queue once the refresh has been issued. -/
def endRefresh (q : CommandQueue) : CommandQueue :=
  { q with
    refQIndices := []
    isInRef := false }

/-- `FinishRefresh` for the first waiting refresh `ref`. -/
def finishRefresh (s : ChannelState) (ref : Command) (q : CommandQueue) :
    Except Abort (Option Command × CommandQueue) :=
  let q := q.startRefresh cfg ref
  match s.getReadyCommand cfg ref q.clk with
  | .error e => .error e
  | .ok none => .ok (none, q)
  | .ok (some cmd) => .ok (some cmd, if cmd.cmdType.isRefresh then q.endRefresh else q)

end CommandQueue

end GcnSim.Dramsim
