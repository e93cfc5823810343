import GcnSim.Dramsim.BankState
import GcnSim.Lib.Tables

/-!
# The state of a channel

`ChannelState` holds the banks of all ranks, the queue of the refresh commands that wait, and
the last activations of every rank. A command for a rank is ready when every bank of the rank
is; a bank that is still open is precharged first.
-/

namespace GcnSim.Dramsim

/-- `class ChannelState`. -/
structure ChannelState where
  rankIdleCycles : Int → Nat
  rankIsSref : Int → Bool
  bankStates : BankId → BankState
  refreshQ : List Command
  fourAw : Int → List Nat
  thirtyTwoAw : Int → List Nat

namespace ChannelState

/-- The constructor. -/
def init : ChannelState where
  rankIdleCycles := fun _ => 0
  rankIsSref := fun _ => false
  bankStates := fun _ => .init
  refreshQ := []
  fourAw := fun _ => []
  thirtyTwoAw := fun _ => []

variable (cfg : Config)

/-- `IsAllBankIdleInRank`. -/
def isAllBankIdleInRank (s : ChannelState) (rank : Int) : Bool :=
  (cfg.banksOf rank).all fun p => !(s.bankStates p).isRowOpen

/-- `OpenRow`. -/
def openRow (s : ChannelState) (p : BankId) : Int := (s.bankStates p).openRow

/-- `RowHitCount`. -/
def rowHitCount (s : ChannelState) (p : BankId) : Nat := (s.bankStates p).rowHitCount

/-- The command `BankNeedRefresh` puts into the queue. -/
def refreshBankCommand (p : BankId) : Command :=
  ⟨.refreshBank, ⟨-1, p.rank, p.bankgroup, p.bank, -1, -1⟩, noHexAddr⟩

/-- The command `RankNeedRefresh` puts into the queue. -/
def refreshCommand (rank : Int) : Command := ⟨.refresh, ⟨-1, rank, -1, -1, -1, -1⟩, noHexAddr⟩

/-- `BankNeedRefresh`. -/
def bankNeedRefresh (p : BankId) (need : Bool) (s : ChannelState) : ChannelState :=
  { s with
    refreshQ :=
      if need then s.refreshQ ++ [refreshBankCommand p]
      else s.refreshQ.eraseP fun ref => decide (ref.bankId = p) }

/-- `RankNeedRefresh`. -/
def rankNeedRefresh (rank : Int) (need : Bool) (s : ChannelState) : ChannelState :=
  { s with
    refreshQ :=
      if need then s.refreshQ ++ [refreshCommand rank]
      else s.refreshQ.eraseP fun ref => decide (ref.addr.rank = rank) }

/-- `IsFAWReady`. -/
def isFawReady (s : ChannelState) (rank : Int) (currTime : Nat) : Bool :=
  match s.fourAw rank with
  | [] => true
  | first :: rest => !(decide (currTime < first) && decide (4 ≤ (first :: rest).length))

/-- `Is32AWReady`. -/
def is32AwReady (s : ChannelState) (rank : Int) (currTime : Nat) : Bool :=
  match s.thirtyTwoAw rank with
  | [] => true
  | first :: rest => !(decide (currTime < first) && decide (32 ≤ (first :: rest).length))

/-- `ActivationWindowOk`. -/
def activationWindowOk (s : ChannelState) (rank : Int) (currTime : Nat) : Bool :=
  if cfg.isGddr then
    if !s.isFawReady rank currTime then false else s.is32AwReady rank currTime
  else s.isFawReady rank currTime

/-- The loops of `GetReadyCommand` over the banks of the rank, with `ready_cmd` and
`num_ready`. -/
def rankReady (s : ChannelState) (cmd : Command) (clk : Nat) :
    List BankId → Option Command → Nat → Except Abort (Option Command)
  | [], readyCmd, numReady => .ok (if numReady = cfg.banks then readyCmd else none)
  | p :: ps, _, numReady =>
    match (s.bankStates p).getReadyCommand cmd clk with
    | .error e => .error e
    | .ok none => s.rankReady cmd clk ps none numReady
    | .ok (some ready) =>
      if ready.cmdType ≠ cmd.cmdType then
        .ok (some { ready with addr := ⟨-1, cmd.addr.rank, p.bankgroup, p.bank, -1, -1⟩ })
      else s.rankReady cmd clk ps (some ready) (numReady + 1)

/-- `GetReadyCommand`. -/
def getReadyCommand (s : ChannelState) (cmd : Command) (clk : Nat) :
    Except Abort (Option Command) :=
  if cmd.cmdType.isRankCmd then
    s.rankReady cfg cmd clk (cfg.banksOf cmd.addr.rank) none 0
  else
    match (s.bankStates cmd.bankId).getReadyCommand cmd clk with
    | .error e => .error e
    | .ok none => .ok none
    | .ok (some ready) =>
      if ready.cmdType = .activate ∧ !s.activationWindowOk cfg ready.addr.rank clk then .ok none
      else .ok (some ready)

/-- `UpdateState`. -/
def updateState (s : ChannelState) (cmd : Command) : Except Abort ChannelState :=
  if cmd.cmdType.isRankCmd then
    match Table.forEachM (·.updateState cmd) (cfg.banksOf cmd.addr.rank) s.bankStates with
    | .error e => .error e
    | .ok banks =>
      let s := { s with bankStates := banks }
      .ok <| if cmd.cmdType.isRefresh then s.rankNeedRefresh cmd.addr.rank false
        else if cmd.cmdType = .srefEnter then
          { s with rankIsSref := Function.update s.rankIsSref cmd.addr.rank true }
        else if cmd.cmdType = .srefExit then
          { s with rankIsSref := Function.update s.rankIsSref cmd.addr.rank false }
        else s
  else
    match (s.bankStates cmd.bankId).updateState cmd with
    | .error e => .error e
    | .ok bank =>
      let s := { s with bankStates := Function.update s.bankStates cmd.bankId bank }
      .ok <| if cmd.cmdType.isRefresh then s.bankNeedRefresh cmd.bankId false else s

/-- One of the two lists in `UpdateActivationTimes`. -/
def pushActivation (window : Int) (currTime : Nat) (times : List Nat) : List Nat :=
  (match times with
    | [] => []
    | first :: rest => if first ≤ currTime then rest else first :: rest) ++
    [addDelay currTime window]

/-- `UpdateActivationTimes`. -/
def updateActivationTimes (rank : Int) (currTime : Nat) (s : ChannelState) : ChannelState :=
  { s with
    fourAw := Function.update s.fourAw rank (pushActivation cfg.tFAW currTime (s.fourAw rank))
    thirtyTwoAw :=
      if cfg.isGddr then
        Function.update s.thirtyTwoAw rank
          (pushActivation cfg.t32AW currTime (s.thirtyTwoAw rank))
      else s.thirtyTwoAw }

/-- The loops of an `Update…Timing` function. -/
def updateBanks (ps : List BankId) (delays : Delays) (clk : Nat) (s : ChannelState) :
    ChannelState :=
  { s with bankStates := Table.forEach ps (·.updateTimings clk delays) s.bankStates }

/-- The banks of `UpdateOtherBanksSameBankgroupTiming`. -/
def otherBanksSameBankgroup (a : Address) : List BankId :=
  ((upTo cfg.banksPerGroup).filter (· ≠ a.bank)).map fun k => ⟨a.rank, a.bankgroup, k⟩

/-- The banks of `UpdateOtherBankgroupsSameRankTiming`. -/
def otherBankgroupsSameRank (a : Address) : List BankId :=
  ((upTo cfg.bankgroups).filter (· ≠ a.bankgroup)).flatMap fun j =>
    (upTo cfg.banksPerGroup).map fun k => ⟨a.rank, j, k⟩

/-- The banks of `UpdateOtherRanksTiming`. -/
def otherRanks (a : Address) : List BankId :=
  ((upTo cfg.ranks).filter (· ≠ a.rank)).flatMap cfg.banksOf

/-- `UpdateTiming`. -/
def updateTiming (timing : Timing) (cmd : Command) (clk : Nat) (s : ChannelState) :
    ChannelState :=
  match cmd.cmdType with
  | .refresh | .srefEnter | .srefExit =>
    s.updateBanks (cfg.banksOf cmd.addr.rank) (timing.sameRank cmd.cmdType) clk
  | _ =>
    let s := if cmd.cmdType = .activate then s.updateActivationTimes cfg cmd.addr.rank clk else s
    let s := s.updateBanks [cmd.bankId] (timing.sameBank cmd.cmdType) clk
    let s := s.updateBanks (otherBanksSameBankgroup cfg cmd.addr)
      (timing.otherBanksSameBankgroup cmd.cmdType) clk
    let s := s.updateBanks (otherBankgroupsSameRank cfg cmd.addr)
      (timing.otherBankgroupsSameRank cmd.cmdType) clk
    s.updateBanks (otherRanks cfg cmd.addr) (timing.otherRanks cmd.cmdType) clk

/-- `UpdateTimingAndStates`. -/
def updateTimingAndStates (timing : Timing) (cmd : Command) (clk : Nat) (s : ChannelState) :
    Except Abort ChannelState :=
  match s.updateState cfg cmd with
  | .error e => .error e
  | .ok s => .ok (s.updateTiming cfg timing cmd clk)

/-- The banks a command goes to. -/
def covered (cmd : Command) : List BankId :=
  if cmd.cmdType.isRankCmd then cfg.banksOf cmd.addr.rank else [cmd.bankId]

/-- The channel state after a command that its banks take. -/
def after (cmd : Command) (s : ChannelState) : ChannelState :=
  { s with
    bankStates := Table.forEach (covered cfg cmd) (·.after cmd) s.bankStates
    rankIsSref :=
      if cmd.cmdType = .srefEnter then Function.update s.rankIsSref cmd.addr.rank true
      else if cmd.cmdType = .srefExit then Function.update s.rankIsSref cmd.addr.rank false
      else s.rankIsSref
    refreshQ :=
      if cmd.cmdType = .refresh then
        s.refreshQ.eraseP fun ref => decide (ref.addr.rank = cmd.addr.rank)
      else if cmd.cmdType = .refreshBank then
        s.refreshQ.eraseP fun ref => decide (ref.bankId = cmd.bankId)
      else s.refreshQ }

/-- A command may be issued: its banks take it and its earliest times have come. -/
structure Ready (s : ChannelState) (clk : Nat) (cmd : Command) : Prop where
  takes : ∀ p ∈ covered cfg cmd, (s.bankStates p).Takes cmd
  timing : ∀ p ∈ covered cfg cmd, (s.bankStates p).cmdTiming cmd.cmdType ≤ clk
  window : cmd.cmdType = .activate → s.activationWindowOk cfg cmd.addr.rank clk = true

section GetReadyCommand

variable {cfg} {s : ChannelState} {cmd ready : Command} {clk : Nat}

/-- The loop over the banks of a rank ends with a bank that needs another command first, or
with all banks ready for the command. -/
theorem rankReady_eq_some {ps : List BankId} {readyCmd : Option Command} {numReady : Nat}
    (hbanks : numReady + ps.length ≤ cfg.banks)
    (h : s.rankReady cfg cmd clk ps readyCmd numReady = .ok (some ready)) :
    (∃ p ∈ ps, ∃ t ≠ cmd.cmdType, (s.bankStates p).requiredType cmd = .ok t ∧
      (s.bankStates p).cmdTiming t ≤ clk ∧
      ready = ⟨t, ⟨-1, cmd.addr.rank, p.bankgroup, p.bank, -1, -1⟩, cmd.hexAddr⟩) ∨
    numReady + ps.length = cfg.banks ∧
      (∀ p ∈ ps, (s.bankStates p).requiredType cmd = .ok cmd.cmdType ∧
        (s.bankStates p).cmdTiming cmd.cmdType ≤ clk) ∧
      (ps = [] ∧ readyCmd = some ready ∨ ready = cmd) := by
  induction ps generalizing readyCmd numReady with
  | nil =>
    rw [rankReady] at h
    split at h
    · rename_i hall
      cases h
      exact .inr ⟨hall, fun p hp => (List.not_mem_nil hp).elim, .inl ⟨rfl, rfl⟩⟩
    · cases h
  | cons p ps ih =>
    rw [List.length_cons] at hbanks ⊢
    rw [rankReady] at h
    split at h
    · cases h
    · obtain ⟨q, hq, hother⟩ | ⟨hlength, -⟩ := ih (by omega) h
      · exact .inl ⟨q, List.mem_cons_of_mem p hq, hother⟩
      · omega
    · rename_i r hready
      obtain ⟨t, hrequired, hclk, rfl⟩ := BankState.getReadyCommand_eq_some.mp hready
      by_cases ht : t = cmd.cmdType
      · rw [if_neg (not_not.mpr ht)] at h
        subst ht
        obtain ⟨q, hq, hother⟩ | ⟨hlength, hall, hlast⟩ := ih (by omega) h
        · exact .inl ⟨q, List.mem_cons_of_mem p hq, hother⟩
        · refine .inr ⟨by omega, ?_, .inr ?_⟩
          · rw [List.forall_mem_cons]
            exact ⟨⟨hrequired, hclk⟩, hall⟩
          · rcases hlast with ⟨-, heq⟩ | heq
            · exact (Option.some.inj heq).symm
            · exact heq
      · rw [if_pos ht] at h
        cases h
        exact .inl ⟨p, List.mem_cons_self, t, ht, hrequired, hclk, rfl⟩

/-- What the ready command is: the one that the bank of the command requires, or for a rank the
command itself or what one of the banks requires before. -/
theorem getReadyCommand_eq_some (h : s.getReadyCommand cfg cmd clk = .ok (some ready)) :
    (cmd.cmdType.isRankCmd = false ∧ ∃ t, (s.bankStates cmd.bankId).requiredType cmd = .ok t ∧
      (s.bankStates cmd.bankId).cmdTiming t ≤ clk ∧ ready = { cmd with cmdType := t } ∧
      (t = .activate → s.activationWindowOk cfg cmd.addr.rank clk = true)) ∨
    (cmd.cmdType.isRankCmd = true ∧
      ((∃ p ∈ cfg.banksOf cmd.addr.rank, ∃ t ≠ cmd.cmdType,
        (s.bankStates p).requiredType cmd = .ok t ∧ (s.bankStates p).cmdTiming t ≤ clk ∧
        ready = ⟨t, ⟨-1, cmd.addr.rank, p.bankgroup, p.bank, -1, -1⟩, cmd.hexAddr⟩) ∨
      ready = cmd ∧ ∀ p ∈ cfg.banksOf cmd.addr.rank,
        (s.bankStates p).requiredType cmd = .ok cmd.cmdType ∧
        (s.bankStates p).cmdTiming cmd.cmdType ≤ clk)) := by
  rw [getReadyCommand] at h
  split at h
  · rename_i hrank
    have hlength : 0 + (cfg.banksOf cmd.addr.rank).length ≤ cfg.banks := by
      rw [Config.length_banksOf]
      omega
    refine .inr ⟨hrank, ?_⟩
    obtain hother | ⟨-, hall, hlast⟩ := rankReady_eq_some hlength h
    · exact .inl hother
    · rcases hlast with ⟨-, hnone⟩ | hcmd
      · cases hnone
      · exact .inr ⟨hcmd, hall⟩
  · rename_i hrank
    split at h
    · cases h
    · cases h
    · rename_i r hready
      obtain ⟨t, hrequired, hclk, rfl⟩ := BankState.getReadyCommand_eq_some.mp hready
      refine .inl ⟨by simpa using hrank, t, hrequired, hclk, ?_⟩
      split at h
      · cases h
      · rename_i hwindow
        cases h
        refine ⟨rfl, fun ht => ?_⟩
        by_contra hnot
        exact hwindow ⟨ht, by simpa using hnot⟩

/-- A bank requires the command itself, an activation or precharge, or the end of its
self-refresh. -/
theorem requiredType_cases {b : BankState} {t : CommandType} (h : b.requiredType cmd = .ok t) :
    t = cmd.cmdType ∨ t = .activate ∧ cmd.cmdType.isReadWrite = true ∨ t = .precharge ∨
      t = .srefExit := by
  revert h
  rw [BankState.requiredType]
  cases b.state <;> cases hcmd : cmd.cmdType <;> dsimp only <;> intro h
  all_goals first | cases h | split at h <;> cases h
  all_goals decide

/-- A ready command may be issued. -/
theorem ready_of_getReadyCommand (h : s.getReadyCommand cfg cmd clk = .ok (some ready))
    (hsref : ready.cmdType ≠ .srefExit) : s.Ready cfg clk ready := by
  rcases getReadyCommand_eq_some h with
    ⟨hrank, t, hrequired, hclk, rfl, hwindow⟩ | ⟨hrank, ⟨p, hp, t, ht, hrequired, hclk, rfl⟩ |
      ⟨rfl, hall⟩⟩
  · have hcovered : covered cfg { cmd with cmdType := t } = [cmd.bankId] := by
      refine if_neg fun htrank : t.isRankCmd = true => ?_
      rcases requiredType_cases hrequired with rfl | ⟨rfl, -⟩ | rfl | rfl
      · rw [hrank] at htrank
        cases htrank
      · cases htrank
      · cases htrank
      · exact hsref rfl
    refine ⟨?_, ?_, hwindow⟩ <;> rw [hcovered, List.forall_mem_singleton]
    · exact BankState.takes_of_requiredType hrequired
    · exact hclk
  · -- a bank of the rank is open and has to be precharged
    have hpre : t = .precharge := by
      rcases requiredType_cases hrequired with rfl | ⟨-, hrw⟩ | rfl | rfl
      · exact (ht rfl).elim
      · rw [CommandType.isRankCmd_of_isReadWrite hrw] at hrank
        cases hrank
      · rfl
      · exact (hsref rfl).elim
    subst hpre
    have hbank : (⟨cmd.addr.rank, p.bankgroup, p.bank⟩ : BankId) = p := by
      rw [← (Config.mem_banksOf.mp hp).1]
    have htakes : (s.bankStates p).state = .opened := BankState.takes_of_requiredType hrequired
    refine ⟨?_, ?_, nofun⟩
    · intro q hq
      rw [List.mem_singleton.mp hq]
      change (s.bankStates ⟨cmd.addr.rank, p.bankgroup, p.bank⟩).state = .opened
      rw [hbank]
      exact htakes
    · intro q hq
      rw [List.mem_singleton.mp hq]
      change (s.bankStates ⟨cmd.addr.rank, p.bankgroup, p.bank⟩).cmdTiming .precharge ≤ clk
      rw [hbank]
      exact hclk
  · have hcovered : covered cfg ready = cfg.banksOf ready.addr.rank := if_pos hrank
    refine ⟨?_, ?_, ?_⟩
    · rw [hcovered]
      exact fun p hp => BankState.takes_of_requiredType (hall p hp).1
    · rw [hcovered]
      exact fun p hp => (hall p hp).2
    · intro htype
      rw [htype] at hrank
      cases hrank

end GetReadyCommand

section Update

variable {cfg} {s : ChannelState} {cmd : Command} {clk : Nat} {timing : Timing}

/-- `UpdateState` does not end the process on a command that may be issued. -/
theorem updateState_of_takes (h : ∀ p ∈ covered cfg cmd, (s.bankStates p).Takes cmd) :
    s.updateState cfg cmd = .ok (s.after cfg cmd) := by
  rw [updateState, after]
  by_cases hrank : cmd.cmdType.isRankCmd = true
  · have hcovered : covered cfg cmd = cfg.banksOf cmd.addr.rank := if_pos hrank
    rw [hcovered] at h ⊢
    rw [if_pos hrank, Table.forEachM_eq_ok (Config.nodup_banksOf _) fun p hp =>
      BankState.updateState_of_takes (h p hp)]
    cases htype : cmd.cmdType <;> rw [htype] at hrank
    case refresh | srefEnter | srefExit => rfl
    all_goals cases hrank
  · have hcovered : covered cfg cmd = [cmd.bankId] := if_neg hrank
    rw [hcovered, List.forall_mem_singleton] at h
    have hbanks : Function.update s.bankStates cmd.bankId ((s.bankStates cmd.bankId).after cmd) =
        Table.forEach [cmd.bankId] (·.after cmd) s.bankStates := by
      rw [Table.forEach_eq_foldl (List.nodup_singleton _)]
      rfl
    rw [if_neg hrank, BankState.updateState_of_takes h, hcovered]
    dsimp only
    rw [hbanks]
    cases htype : cmd.cmdType <;> rw [htype] at hrank
    case refresh | srefEnter | srefExit => exact (hrank rfl).elim
    all_goals rfl

theorem after_awake {p : BankId}
    (h : (s.bankStates p).state = .opened ∨ (s.bankStates p).state = .closed)
    (hsref : cmd.cmdType ≠ .srefEnter) :
    ((s.after cfg cmd).bankStates p).state = .opened ∨
      ((s.after cfg cmd).bankStates p).state = .closed := by
  rw [after]
  dsimp only
  by_cases hp : p ∈ covered cfg cmd
  · rw [Table.forEach_of_mem hp]
    exact BankState.after_state_of_ne h hsref
  · rw [Table.forEach_of_notMem hp]
    exact h

/-- The loops of `UpdateTiming` change the earliest times and, for an activation, the last
activations of the rank. -/
theorem updateTiming_frame : ∃ banks, s.updateTiming cfg timing cmd clk =
    { if cmd.cmdType = .activate then s.updateActivationTimes cfg cmd.addr.rank clk else s with
      bankStates := banks } := by
  rw [updateTiming]
  cases hcmd : cmd.cmdType <;> exact ⟨_, rfl⟩

theorem updateTiming_bankStates_of_isRankCmd (h : cmd.cmdType.isRankCmd = true) :
    (s.updateTiming cfg timing cmd clk).bankStates =
      Table.forEach (cfg.banksOf cmd.addr.rank)
        (·.updateTimings clk (timing.sameRank cmd.cmdType)) s.bankStates := by
  rw [updateTiming]
  cases hcmd : cmd.cmdType <;> rw [hcmd] at h
  case refresh | srefEnter | srefExit => rfl
  all_goals cases h

theorem updateTiming_bankStates_of_not_isRankCmd (h : ¬ cmd.cmdType.isRankCmd = true) :
    (s.updateTiming cfg timing cmd clk).bankStates =
      Table.forEach (otherRanks cfg cmd.addr)
        (·.updateTimings clk (timing.otherRanks cmd.cmdType))
        (Table.forEach (otherBankgroupsSameRank cfg cmd.addr)
          (·.updateTimings clk (timing.otherBankgroupsSameRank cmd.cmdType))
          (Table.forEach (otherBanksSameBankgroup cfg cmd.addr)
            (·.updateTimings clk (timing.otherBanksSameBankgroup cmd.cmdType))
            (Table.forEach [cmd.bankId] (·.updateTimings clk (timing.sameBank cmd.cmdType))
              s.bankStates))) := by
  rw [updateTiming]
  cases hcmd : cmd.cmdType <;> rw [hcmd] at h
  case refresh | srefEnter | srefExit => exact (h rfl).elim
  all_goals rfl

theorem mem_otherBanksSameBankgroup {a : Address} {p : BankId} (hp : cfg.HasBank p) :
    p ∈ otherBanksSameBankgroup cfg a ↔
      p.rank = a.rank ∧ p.bankgroup = a.bankgroup ∧ p.bank ≠ a.bank := by
  rw [otherBanksSameBankgroup, List.mem_map]
  constructor
  · rintro ⟨k, hk, rfl⟩
    exact ⟨rfl, rfl, by simpa using (List.mem_filter.mp hk).2⟩
  · rintro ⟨hrank, hgroup, hbank⟩
    refine ⟨p.bank, List.mem_filter.mpr ⟨mem_upTo.mpr hp.bank, by simpa using hbank⟩, ?_⟩
    rw [← hrank, ← hgroup]

theorem mem_otherBankgroupsSameRank {a : Address} {p : BankId} (hp : cfg.HasBank p) :
    p ∈ otherBankgroupsSameRank cfg a ↔ p.rank = a.rank ∧ p.bankgroup ≠ a.bankgroup := by
  rw [otherBankgroupsSameRank, List.mem_flatMap]
  constructor
  · rintro ⟨j, hj, hmem⟩
    obtain ⟨k, -, rfl⟩ := List.mem_map.mp hmem
    exact ⟨rfl, by simpa using (List.mem_filter.mp hj).2⟩
  · rintro ⟨hrank, hgroup⟩
    refine ⟨p.bankgroup, List.mem_filter.mpr ⟨mem_upTo.mpr hp.bankgroup, by simpa using hgroup⟩,
      List.mem_map.mpr ⟨p.bank, mem_upTo.mpr hp.bank, ?_⟩⟩
    rw [← hrank]

theorem mem_otherRanks {a : Address} {p : BankId} (hp : cfg.HasBank p) :
    p ∈ otherRanks cfg a ↔ p.rank ≠ a.rank := by
  rw [otherRanks, List.mem_flatMap]
  constructor
  · rintro ⟨i, hi, hmem⟩
    rw [(Config.mem_banksOf.mp hmem).1]
    simpa using (List.mem_filter.mp hi).2
  · intro hrank
    exact ⟨p.rank, List.mem_filter.mpr ⟨mem_upTo.mpr hp.rank, by simpa using hrank⟩,
      Config.mem_banksOf_of_hasBank hp⟩

/-- Every bank of the channel gets the delays of the command that are meant for it. -/
theorem updateTiming_bankStates {p : BankId} (hp : cfg.HasBank p) :
    (s.updateTiming cfg timing cmd clk).bankStates p =
      (s.bankStates p).updateTimings clk (timing.delays cmd p) := by
  by_cases hrank : cmd.cmdType.isRankCmd = true
  · rw [updateTiming_bankStates_of_isRankCmd hrank, Timing.delays, if_pos hrank]
    by_cases h : p.rank = cmd.addr.rank
    · rw [if_pos h, Table.forEach_of_mem (h ▸ Config.mem_banksOf_of_hasBank hp)]
    · rw [if_neg h, Table.forEach_of_notMem fun hmem => h (Config.mem_banksOf.mp hmem).1]
      rfl
  · rw [updateTiming_bankStates_of_not_isRankCmd hrank, Timing.delays, if_neg hrank]
    have hself : p ∈ [cmd.bankId] ↔ p = cmd.bankId := List.mem_singleton
    by_cases hrank : p.rank = cmd.addr.rank
    · rw [Table.forEach_of_notMem ((mem_otherRanks hp).not.mpr (not_not.mpr hrank))]
      by_cases hgroup : p.bankgroup = cmd.addr.bankgroup
      · rw [Table.forEach_of_notMem
          ((mem_otherBankgroupsSameRank hp).not.mpr fun h => h.2 hgroup)]
        by_cases hbank : p.bank = cmd.addr.bank
        · have heq : p = cmd.bankId := BankId.ext hrank hgroup hbank
          rw [Table.forEach_of_notMem
            ((mem_otherBanksSameBankgroup hp).not.mpr fun h => h.2.2 hbank),
            Table.forEach_of_mem (hself.mpr heq), if_pos heq]
        · have hne : p ≠ cmd.bankId := fun h => hbank (congrArg BankId.bank h)
          rw [Table.forEach_of_mem ((mem_otherBanksSameBankgroup hp).mpr ⟨hrank, hgroup, hbank⟩),
            Table.forEach_of_notMem (hself.not.mpr hne), if_neg hne, if_pos hrank, if_pos hgroup]
      · have hne : p ≠ cmd.bankId := fun h => hgroup (congrArg BankId.bankgroup h)
        rw [Table.forEach_of_mem ((mem_otherBankgroupsSameRank hp).mpr ⟨hrank, hgroup⟩),
          Table.forEach_of_notMem
            ((mem_otherBanksSameBankgroup hp).not.mpr fun h => hgroup h.2.1),
          Table.forEach_of_notMem (hself.not.mpr hne), if_neg hne, if_pos hrank, if_neg hgroup]
    · have hne : p ≠ cmd.bankId := fun h => hrank (congrArg BankId.rank h)
      rw [Table.forEach_of_mem ((mem_otherRanks hp).mpr hrank),
        Table.forEach_of_notMem ((mem_otherBankgroupsSameRank hp).not.mpr fun h => hrank h.1),
        Table.forEach_of_notMem ((mem_otherBanksSameBankgroup hp).not.mpr fun h => hrank h.1),
        Table.forEach_of_notMem (hself.not.mpr hne), if_neg hne, if_neg hrank]

@[simp] theorem updateTiming_rankIsSref :
    (s.updateTiming cfg timing cmd clk).rankIsSref = s.rankIsSref := by
  obtain ⟨banks, h⟩ := @updateTiming_frame cfg s cmd clk timing
  rw [h]
  dsimp only
  split <;> rfl

@[simp] theorem updateTiming_refreshQ :
    (s.updateTiming cfg timing cmd clk).refreshQ = s.refreshQ := by
  obtain ⟨banks, h⟩ := @updateTiming_frame cfg s cmd clk timing
  rw [h]
  dsimp only
  split <;> rfl

theorem updateTimings_forEach_frame {ks : List BankId} {delays : Delays}
    {t t' : BankId → BankState} {p : BankId}
    (h : ∃ times, t' p = { t p with cmdTiming := times }) :
    ∃ times, Table.forEach ks (·.updateTimings clk delays) t' p =
      { t p with cmdTiming := times } := by
  obtain ⟨times, h⟩ := h
  by_cases hp : p ∈ ks
  · obtain ⟨times', h'⟩ := @BankState.updateTimings_frame clk delays (t' p)
    rw [Table.forEach_of_mem hp, h', h]
    exact ⟨times', rfl⟩
  · rw [Table.forEach_of_notMem hp]
    exact ⟨times, h⟩

/-- `UpdateTiming` opens and closes no bank. -/
theorem updateTiming_bank_frame (p : BankId) :
    ∃ times, (s.updateTiming cfg timing cmd clk).bankStates p =
      { s.bankStates p with cmdTiming := times } := by
  have hold : ∃ times, s.bankStates p = { s.bankStates p with cmdTiming := times } := ⟨_, rfl⟩
  by_cases hrank : cmd.cmdType.isRankCmd = true
  · rw [updateTiming_bankStates_of_isRankCmd hrank]
    exact updateTimings_forEach_frame hold
  · rw [updateTiming_bankStates_of_not_isRankCmd hrank]
    apply updateTimings_forEach_frame
    apply updateTimings_forEach_frame
    apply updateTimings_forEach_frame
    exact updateTimings_forEach_frame hold

@[simp] theorem updateTiming_state (p : BankId) :
    ((s.updateTiming cfg timing cmd clk).bankStates p).state = (s.bankStates p).state := by
  obtain ⟨times, h⟩ := @updateTiming_bank_frame cfg s cmd clk timing p
  rw [h]

@[simp] theorem updateTiming_openRow (p : BankId) :
    ((s.updateTiming cfg timing cmd clk).bankStates p).openRow = (s.bankStates p).openRow := by
  obtain ⟨times, h⟩ := @updateTiming_bank_frame cfg s cmd clk timing p
  rw [h]

end Update

end ChannelState

end GcnSim.Dramsim
