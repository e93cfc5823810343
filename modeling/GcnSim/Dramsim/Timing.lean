import GcnSim.Dramsim.Common

/-!
# The timing tables

`Timing` lists, for a command, the commands that have to wait for it and how long: in the same
bank, in the other banks of the bankgroup, in the other bankgroups of the rank, in the other
ranks, and in the whole rank for the commands that go to a rank.
-/

namespace GcnSim.Dramsim

/-- `std::vector<std::pair<CommandType, int>>`. -/
abbrev Delays := List (CommandType × Int)

/-- `class Timing`. -/
structure Timing where
  sameBank : CommandType → Delays
  otherBanksSameBankgroup : CommandType → Delays
  otherBankgroupsSameRank : CommandType → Delays
  otherRanks : CommandType → Delays
  sameRank : CommandType → Delays

/-- The delays that a command puts on the commands of a bank. -/
def Timing.delays (timing : Timing) (cmd : Command) (p : BankId) : Delays :=
  if cmd.cmdType.isRankCmd then
    if p.rank = cmd.addr.rank then timing.sameRank cmd.cmdType else []
  else if p = cmd.bankId then timing.sameBank cmd.cmdType
  else if p.rank = cmd.addr.rank then
    if p.bankgroup = cmd.addr.bankgroup then timing.otherBanksSameBankgroup cmd.cmdType
    else timing.otherBankgroupsSameRank cmd.cmdType
  else timing.otherRanks cmd.cmdType

/-- The members of `Timing`. -/
inductive Table where
  | sameBank | otherBanksSameBankgroup | otherBankgroupsSameRank | otherRanks | sameRank
  deriving DecidableEq, Repr

/-- The list of a table for a command. -/
def Timing.list (timing : Timing) : Table → CommandType → Delays
  | .sameBank => timing.sameBank
  | .otherBanksSameBankgroup => timing.otherBanksSameBankgroup
  | .otherBankgroupsSameRank => timing.otherBankgroupsSameRank
  | .otherRanks => timing.otherRanks
  | .sameRank => timing.sameRank

/-- The lists of the table for the command speak of the bank. -/
def Table.Concerns (cmd : Command) (p : BankId) : Table → Prop
  | .sameBank => p = cmd.bankId
  | .otherBanksSameBankgroup =>
    p.rank = cmd.addr.rank ∧ p.bankgroup = cmd.addr.bankgroup ∧ p ≠ cmd.bankId
  | .otherBankgroupsSameRank => p.rank = cmd.addr.rank ∧ p.bankgroup ≠ cmd.addr.bankgroup
  | .otherRanks => p.rank ≠ cmd.addr.rank
  | .sameRank => p.rank = cmd.addr.rank

/-- The timing parameters of `Config` that the constructor of `Timing` reads. -/
structure TimingParams where
  burstCycle : Int
  bankgroups : Nat
  /-- `IsGDDR()`. -/
  isGddr : Bool
  /-- `IsHBM()`. -/
  isHbm : Bool
  /-- `protocol == DRAMProtocol::LPDDR4`. -/
  isLpddr4 : Bool
  additiveLatency : Int
  cl : Int
  cwl : Int
  tCCDL : Int
  tCCDS : Int
  tRTRS : Int
  tRTP : Int
  tWTRL : Int
  tWTRS : Int
  tWR : Int
  tRP : Int
  tRRDL : Int
  tRRDS : Int
  tRAS : Int
  tRCD : Int
  tRCDRD : Int
  tRCDWR : Int
  tRFC : Int
  tRFCb : Int
  tREFI : Int
  tCKESR : Int
  tXS : Int
  tPPD : Int
  deriving DecidableEq, Repr

namespace TimingParams

variable (c : TimingParams)

/-- `RL`. -/
def rl : Int := c.additiveLatency + c.cl

/-- `WL`. -/
def wl : Int := c.additiveLatency + c.cwl

/-- `read_delay`. -/
def readDelay : Int := c.rl + c.burstCycle

/-- `write_delay`. -/
def writeDelay : Int := c.wl + c.burstCycle

/-- `tRC`. -/
def tRC : Int := c.tRAS + c.tRP

/-- `read_to_read_l`; one bankgroup counts as disabled bankgroups. -/
def readToReadL : Int :=
  if c.bankgroups = 1 then max c.burstCycle c.tCCDS else max c.burstCycle c.tCCDL

/-- `read_to_read_s`. -/
def readToReadS : Int := max c.burstCycle c.tCCDS

/-- `read_to_read_o`. -/
def readToReadO : Int := c.burstCycle + c.tRTRS

/-- `read_to_write`. -/
def readToWrite : Int := c.rl + c.burstCycle - c.wl + c.tRTRS

/-- `read_to_write_o`. -/
def readToWriteO : Int := c.readDelay + c.burstCycle + c.tRTRS - c.writeDelay

/-- `read_to_precharge`. -/
def readToPrecharge : Int := c.additiveLatency + c.tRTP

/-- `readp_to_act`. -/
def readpToAct : Int := c.additiveLatency + c.burstCycle + c.tRTP + c.tRP

/-- `write_to_read_l`. -/
def writeToReadL : Int :=
  if c.bankgroups = 1 then c.writeDelay + c.tWTRS else c.writeDelay + c.tWTRL

/-- `write_to_read_s`. -/
def writeToReadS : Int := c.writeDelay + c.tWTRS

/-- `write_to_read_o`. -/
def writeToReadO : Int := c.writeDelay + c.burstCycle + c.tRTRS - c.readDelay

/-- `write_to_write_l`. -/
def writeToWriteL : Int :=
  if c.bankgroups = 1 then max c.burstCycle c.tCCDS else max c.burstCycle c.tCCDL

/-- `write_to_write_s`. -/
def writeToWriteS : Int := max c.burstCycle c.tCCDS

/-- `write_to_write_o`. -/
def writeToWriteO : Int := c.burstCycle

/-- `write_to_precharge`. -/
def writeToPrecharge : Int := c.wl + c.burstCycle + c.tWR

/-- `read_to_activate`. -/
def readToActivate : Int := c.readToPrecharge + c.tRP

/-- `write_to_activate`. -/
def writeToActivate : Int := c.writeToPrecharge + c.tRP

/-- `activate_to_activate_l`. -/
def activateToActivateL : Int := if c.bankgroups = 1 then c.tRRDS else c.tRRDL

/-- `activate_to_read`. -/
def activateToRead : Int :=
  if c.isGddr || c.isHbm then c.tRCDRD else c.tRCD - c.additiveLatency

/-- `activate_to_write`. -/
def activateToWrite : Int :=
  if c.isGddr || c.isHbm then c.tRCDWR else c.tRCD - c.additiveLatency

/-- The entries for the four read and write commands. -/
def burstDelays (toRead toWrite : Int) : Delays :=
  [(.read, toRead), (.write, toWrite), (.readPrecharge, toRead), (.writePrecharge, toWrite)]

/-- The entries for the commands that need a closed bank. -/
def closedDelays (toActivate toRefresh : Int) : Delays :=
  [(.activate, toActivate), (.refresh, toRefresh), (.refreshBank, toRefresh),
    (.srefEnter, toRefresh)]

/-- `same_bank`. -/
def sameBank : CommandType → Delays
  | .read => burstDelays c.readToReadL c.readToWrite ++ [(.precharge, c.readToPrecharge)]
  | .write => burstDelays c.writeToReadL c.writeToWriteL ++ [(.precharge, c.writeToPrecharge)]
  | .readPrecharge => closedDelays c.readpToAct c.readToActivate
  | .writePrecharge => closedDelays c.writeToActivate c.writeToActivate
  | .activate =>
    (.activate, c.tRC) ::
      (burstDelays c.activateToRead c.activateToWrite ++ [(.precharge, c.tRAS)])
  | .precharge => closedDelays c.tRP c.tRP
  | .refreshBank | .refresh | .srefEnter | .srefExit => []

/-- The entry for `tPPD`. -/
def prechargeDelays : Delays :=
  if c.isGddr || c.isLpddr4 then [(.precharge, c.tPPD)] else []

/-- The entries of `REFRESH_BANK` for the other banks of the rank. -/
def refreshBankDelays : Delays := [(.activate, c.tRFC), (.refreshBank, c.tREFI)]

/-- `other_banks_same_bankgroup`. -/
def otherBanksSameBankgroup : CommandType → Delays
  | .read | .readPrecharge => burstDelays c.readToReadL c.readToWrite
  | .write | .writePrecharge => burstDelays c.writeToReadL c.writeToWriteL
  | .activate => [(.activate, c.activateToActivateL), (.refreshBank, c.tRC)]
  | .precharge => c.prechargeDelays
  | .refreshBank => c.refreshBankDelays
  | .refresh | .srefEnter | .srefExit => []

/-- `other_bankgroups_same_rank`. -/
def otherBankgroupsSameRank : CommandType → Delays
  | .read | .readPrecharge => burstDelays c.readToReadS c.readToWrite
  | .write | .writePrecharge => burstDelays c.writeToReadS c.writeToWriteS
  | .activate => [(.activate, c.tRRDS), (.refreshBank, c.tRC)]
  | .precharge => c.prechargeDelays
  | .refreshBank => c.refreshBankDelays
  | .refresh | .srefEnter | .srefExit => []

/-- `other_ranks`. -/
def otherRanks : CommandType → Delays
  | .read | .readPrecharge => burstDelays c.readToReadO c.readToWriteO
  | .write | .writePrecharge => burstDelays c.writeToReadO c.writeToWriteO
  | _ => []

/-- `same_rank`. Nothing reads the list of `REFRESH_BANK`, since `UpdateTiming` does not treat
it as a command of the rank. -/
def sameRank : CommandType → Delays
  | .refreshBank => [(.activate, c.tRFCb), (.refresh, c.tRFCb), (.refreshBank, c.tRFCb),
      (.srefEnter, c.tRFCb)]
  | .refresh => [(.activate, c.tRFC), (.refresh, c.tRFC), (.srefEnter, c.tRFC)]
  | .srefEnter => [(.srefExit, c.tCKESR)]
  | .srefExit => [(.activate, c.tXS), (.refresh, c.tXS), (.refreshBank, c.tXS),
      (.srefEnter, c.tXS)]
  | _ => []

/-- The constructor of `Timing`. -/
def timing : Timing where
  sameBank := c.sameBank
  otherBanksSameBankgroup := c.otherBanksSameBankgroup
  otherBankgroupsSameRank := c.otherBankgroupsSameRank
  otherRanks := c.otherRanks
  sameRank := c.sameRank

variable {c}

/-- The tables of the banks are empty for a command of the rank. -/
theorem list_rankCmd {t : CommandType} (ht : t.isRankCmd = true) {T : Table}
    (hT : T ≠ .sameRank) : c.timing.list T t = [] := by
  cases T
  case sameRank => exact (hT rfl).elim
  all_goals
    cases t
    case refresh | srefEnter | srefExit => rfl
    all_goals cases ht

/-- The table of the ranks is empty for the other commands, except for `REFRESH_BANK`. -/
theorem sameRank_bankCmd {t : CommandType} (ht : t.isRankCmd = false) (hne : t ≠ .refreshBank) :
    c.timing.list .sameRank t = [] := by
  cases t
  case refresh | srefEnter | srefExit => cases ht
  case refreshBank => exact (hne rfl).elim
  all_goals rfl

theorem mem_delays_of_rankCmd {cmd : Command} {p : BankId} {entry : CommandType × Int}
    (hrank : cmd.cmdType.isRankCmd = true) :
    entry ∈ c.timing.delays cmd p ↔
      ∃ T : Table, T.Concerns cmd p ∧ entry ∈ c.timing.list T cmd.cmdType := by
  rw [Timing.delays, if_pos hrank]
  constructor
  · intro h
    split at h
    · rename_i hp
      exact ⟨.sameRank, hp, h⟩
    · exact (List.not_mem_nil h).elim
  · rintro ⟨T, hT, h⟩
    by_cases hsame : T = .sameRank
    · subst hsame
      have hp : p.rank = cmd.addr.rank := hT
      rw [if_pos hp]
      exact h
    · rw [list_rankCmd hrank hsame] at h
      exact (List.not_mem_nil h).elim

theorem mem_delays_of_bankCmd {cmd : Command} {p : BankId} {entry : CommandType × Int}
    (hbank : cmd.cmdType.isRankCmd = false) :
    entry ∈ c.timing.delays cmd p ↔ ∃ T : Table, T ≠ .sameRank ∧ T.Concerns cmd p ∧
      entry ∈ c.timing.list T cmd.cmdType := by
  rw [Timing.delays, if_neg (by rw [hbank]; exact Bool.false_ne_true)]
  constructor
  · intro h
    split at h
    · rename_i hself
      exact ⟨.sameBank, by decide, hself, h⟩
    · rename_i hother
      split at h
      · rename_i hp
        split at h
        · rename_i hgroup
          exact ⟨.otherBanksSameBankgroup, by decide, ⟨hp, hgroup, hother⟩, h⟩
        · rename_i hgroup
          exact ⟨.otherBankgroupsSameRank, by decide, ⟨hp, hgroup⟩, h⟩
      · rename_i hp
        exact ⟨.otherRanks, by decide, hp, h⟩
  · rintro ⟨T, hsame, hT, h⟩
    cases T with
    | sameBank =>
      have hself : p = cmd.bankId := hT
      rw [if_pos hself]
      exact h
    | otherBanksSameBankgroup =>
      rw [if_neg hT.2.2, if_pos hT.1, if_pos hT.2.1]
      exact h
    | otherBankgroupsSameRank =>
      rw [if_neg fun heq => hT.2 (congrArg BankId.bankgroup heq), if_pos hT.1, if_neg hT.2]
      exact h
    | otherRanks =>
      have hp : p.rank ≠ cmd.addr.rank := hT
      rw [if_neg fun heq => hp (congrArg BankId.rank heq), if_neg hp]
      exact h
    | sameRank => exact (hsame rfl).elim

/-- A command puts the delays of the tables on the banks they speak of, except those that
`same_rank` has for `REFRESH_BANK`. -/
theorem mem_delays_iff {cmd : Command} {p : BankId} {entry : CommandType × Int} :
    entry ∈ c.timing.delays cmd p ↔ ∃ T : Table, T.Concerns cmd p ∧
      (T, cmd.cmdType) ≠ (.sameRank, .refreshBank) ∧ entry ∈ c.timing.list T cmd.cmdType := by
  cases hrank : cmd.cmdType.isRankCmd
  case true =>
    have hread : cmd.cmdType ≠ .refreshBank := by
      intro heq
      rw [heq] at hrank
      cases hrank
    rw [mem_delays_of_rankCmd hrank]
    constructor
    · rintro ⟨T, hT, h⟩
      exact ⟨T, hT, fun heq => hread (Prod.mk.inj heq).2, h⟩
    · rintro ⟨T, hT, -, h⟩
      exact ⟨T, hT, h⟩
  case false =>
    rw [mem_delays_of_bankCmd hrank]
    constructor
    · rintro ⟨T, hsame, hT, h⟩
      exact ⟨T, hT, fun heq => hsame (Prod.mk.inj heq).1, h⟩
    · rintro ⟨T, hT, hread, h⟩
      refine ⟨T, ?_, hT, h⟩
      rintro rfl
      rw [sameRank_bankCmd hrank fun ht => hread (Prod.ext rfl ht)] at h
      exact List.not_mem_nil h

end TimingParams

end GcnSim.Dramsim
