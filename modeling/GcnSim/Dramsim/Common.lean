import GcnSim.Core.Machine
import Mathlib.Data.List.Nodup
import Mathlib.Order.Basic

/-!
# Commands, transactions and the configuration of DRAMsim3

A command goes to one bank or, for `REFRESH` and the self-refresh commands, to a whole rank.
An invalid command, `CommandType::SIZE`, is `none` here. The coordinates are signed as in the
source, which writes `-1` where a command has none.
-/

namespace GcnSim.Dramsim

/-- The ways in which the source ends the process in what is modelled of it. -/
inductive Abort where
  /-- `AbruptExit`. -/
  | abruptExit
  /-- `not in read queue!`. -/
  | notInReadQueue
  /-- `not in write queue!`. -/
  | notInWriteQueue
  /-- `cannot find cmd!`. -/
  | cannotFindCmd
  /-- The rest of a division by zero. -/
  | divisionByZero
  /-- A controller `dc[id]` that there is not. -/
  | noUnit
  deriving DecidableEq, Repr

/-- `struct Address`. -/
structure Address where
  channel : Int
  rank : Int
  bankgroup : Int
  bank : Int
  row : Int
  column : Int
  deriving DecidableEq, Repr

/-- The indices of an entry of `bank_states_`. -/
@[ext] structure BankId where
  rank : Int
  bankgroup : Int
  bank : Int
  deriving DecidableEq, Repr

/-- The bank of an address. -/
def Address.bankId (a : Address) : BankId := ⟨a.rank, a.bankgroup, a.bank⟩

/-- `enum class CommandType`. -/
inductive CommandType where
  | read | readPrecharge | write | writePrecharge | activate | precharge | refreshBank | refresh
  | srefEnter | srefExit
  deriving DecidableEq, Repr

namespace CommandType

/-- `IsRefresh`. -/
def isRefresh : CommandType → Bool
  | refresh | refreshBank => true
  | _ => false

/-- `IsRead`. -/
def isRead : CommandType → Bool
  | read | readPrecharge => true
  | _ => false

/-- `IsWrite`. -/
def isWrite : CommandType → Bool
  | write | writePrecharge => true
  | _ => false

/-- `IsReadWrite`. -/
def isReadWrite (t : CommandType) : Bool := t.isRead || t.isWrite

/-- `IsRankCMD`. -/
def isRankCmd : CommandType → Bool
  | refresh | srefEnter | srefExit => true
  | _ => false

theorem isRankCmd_of_isReadWrite {t : CommandType} (h : t.isReadWrite = true) :
    t.isRankCmd = false := by
  cases t <;> first | rfl | cases h

end CommandType

/-- `struct Command`, a valid one. -/
structure Command where
  cmdType : CommandType
  addr : Address
  hexAddr : Nat
  deriving DecidableEq, Repr

/-- The bank of a command. -/
def Command.bankId (cmd : Command) : BankId := cmd.addr.bankId

/-- `struct Transaction`. -/
structure Transaction where
  addr : Nat
  addedCycle : Nat
  completeCycle : Nat
  isWrite : Bool
  deriving DecidableEq, Repr

/-- `hex_addr = -1` of the commands that serve no transaction. -/
def noHexAddr : Nat := u64Size - 1

/-- `clk + delay` for a cycle counter and an `int`; a negative sum wraps around. -/
def addDelay (clk : Nat) (delay : Int) : Nat :=
  if 0 ≤ clk + delay then (clk + delay).toNat else ((u64Size : Int) + (clk + delay)).toNat

theorem le_addDelay (clk : Nat) (delay : Int) : clk + delay ≤ addDelay clk delay := by
  rw [addDelay]
  split <;> omega

theorem lt_addDelay {delay : Int} (h : 0 < delay) (clk : Nat) : clk < addDelay clk delay := by
  have := le_addDelay clk delay
  omega

/-- `enum class QueueStructure`. -/
inductive QueueStructure where
  | perRank | perBank
  deriving DecidableEq, Repr

/-- `enum class RowBufPolicy`. -/
inductive RowBufPolicy where
  | openPage | closePage
  deriving DecidableEq, Repr

/-- `enum class RefreshPolicy`. -/
inductive RefreshPolicy where
  | rankLevelSimultaneous | rankLevelStaggered | bankLevelStaggered
  deriving DecidableEq, Repr

/-- The positions and masks that `SetAddressMapping` stores. -/
structure Mapping where
  shiftBits : Nat
  chPos : Nat
  raPos : Nat
  bgPos : Nat
  baPos : Nat
  roPos : Nat
  coPos : Nat
  chMask : Nat
  raMask : Nat
  bgMask : Nat
  baMask : Nat
  roMask : Nat
  coMask : Nat
  deriving DecidableEq, Repr

/-- What the controller reads of `Config`. A mask is smaller than the number of units it
selects from, since `LogBase2` rounds down. -/
structure Config where
  ranks : Nat
  bankgroups : Nat
  banksPerGroup : Nat
  mapping : Mapping
  queueStructure : QueueStructure
  rowBufPolicy : RowBufPolicy
  cmdQueueSize : Nat
  transQueueSize : Nat
  unifiedQueue : Bool
  refreshPolicy : RefreshPolicy
  enableSelfRefresh : Bool
  srefThreshold : Nat
  enableHbmDualCmd : Bool
  /-- `IsGDDR()`. -/
  isGddr : Bool
  readDelay : Int
  tFAW : Int
  t32AW : Int
  tREFI : Nat
  tREFIb : Nat
  epochPeriod : Nat
  raMask_lt : mapping.raMask < ranks
  bgMask_lt : mapping.bgMask < bankgroups
  baMask_lt : mapping.baMask < banksPerGroup

/-- `0, 1, …, n - 1`, the values of a loop variable. -/
def upTo (n : Nat) : List Int := (List.range n).map (↑)

theorem mem_upTo {n : Nat} {i : Int} : i ∈ upTo n ↔ 0 ≤ i ∧ i < n := by
  rw [upTo, List.mem_map]
  constructor
  · rintro ⟨k, hk, rfl⟩
    rw [List.mem_range] at hk
    omega
  · intro h
    exact ⟨i.toNat, List.mem_range.mpr (by omega), by omega⟩

theorem nodup_upTo (n : Nat) : (upTo n).Nodup :=
  (List.nodup_map_iff fun _ _ h => Int.ofNat.inj h).mpr List.nodup_range

theorem length_upTo (n : Nat) : (upTo n).length = n := by
  rw [upTo, List.length_map, List.length_range]

namespace Config

variable (cfg : Config)

/-- `banks`. -/
def banks : Nat := cfg.bankgroups * cfg.banksPerGroup

/-- `AddressMapping`. -/
def addressMapping (hexAddr : Nat) : Address :=
  let hexAddr := hexAddr >>> cfg.mapping.shiftBits
  { channel := ↑((hexAddr >>> cfg.mapping.chPos) &&& cfg.mapping.chMask)
    rank := ↑((hexAddr >>> cfg.mapping.raPos) &&& cfg.mapping.raMask)
    bankgroup := ↑((hexAddr >>> cfg.mapping.bgPos) &&& cfg.mapping.bgMask)
    bank := ↑((hexAddr >>> cfg.mapping.baPos) &&& cfg.mapping.baMask)
    row := ↑((hexAddr >>> cfg.mapping.roPos) &&& cfg.mapping.roMask)
    column := ↑((hexAddr >>> cfg.mapping.coPos) &&& cfg.mapping.coMask) }

/-- The banks of a rank, in the order of the loops over `bank_states_[rank]`. -/
def banksOf (rank : Int) : List BankId :=
  (upTo cfg.bankgroups).flatMap fun j => (upTo cfg.banksPerGroup).map fun k => ⟨rank, j, k⟩

/-- The indices of `bank_states_`. -/
structure HasBank (p : BankId) : Prop where
  rank : 0 ≤ p.rank ∧ p.rank < cfg.ranks
  bankgroup : 0 ≤ p.bankgroup ∧ p.bankgroup < cfg.bankgroups
  bank : 0 ≤ p.bank ∧ p.bank < cfg.banksPerGroup

variable {cfg}

theorem mem_banksOf {rank : Int} {p : BankId} :
    p ∈ cfg.banksOf rank ↔ p.rank = rank ∧ (0 ≤ p.bankgroup ∧ p.bankgroup < cfg.bankgroups) ∧
      0 ≤ p.bank ∧ p.bank < cfg.banksPerGroup := by
  rw [banksOf, List.mem_flatMap]
  constructor
  · rintro ⟨j, hj, hp⟩
    obtain ⟨k, hk, rfl⟩ := List.mem_map.mp hp
    exact ⟨rfl, mem_upTo.mp hj, mem_upTo.mp hk⟩
  · rintro ⟨rfl, hj, hk⟩
    exact ⟨p.bankgroup, mem_upTo.mpr hj, List.mem_map.mpr ⟨p.bank, mem_upTo.mpr hk, rfl⟩⟩

theorem nodup_banksOf (rank : Int) : (cfg.banksOf rank).Nodup := by
  rw [banksOf, List.nodup_flatMap]
  constructor
  · intro j _
    exact (List.nodup_map_iff fun k k' h => congrArg BankId.bank h).mpr (nodup_upTo _)
  · apply (nodup_upTo _).imp
    intro j j' hne p hp hp'
    obtain ⟨k, -, rfl⟩ := List.mem_map.mp hp
    obtain ⟨k', -, h⟩ := List.mem_map.mp hp'
    exact hne (congrArg BankId.bankgroup h).symm

theorem length_banksOf (rank : Int) : (cfg.banksOf rank).length = cfg.banks := by
  rw [banksOf, List.length_flatMap]
  simp [length_upTo, banks]

/-- Every address is in a bank of the channel. -/
theorem hasBank_addressMapping (hexAddr : Nat) :
    cfg.HasBank (cfg.addressMapping hexAddr).bankId :=
  have bounds {bits mask size : Nat} (h : mask < size) :
      0 ≤ ((bits &&& mask : Nat) : Int) ∧ ((bits &&& mask : Nat) : Int) < size :=
    ⟨Int.natCast_nonneg _, Int.ofNat_lt.mpr (Nat.lt_of_le_of_lt Nat.and_le_right h)⟩
  { rank := bounds cfg.raMask_lt
    bankgroup := bounds cfg.bgMask_lt
    bank := bounds cfg.baMask_lt }

theorem mem_banksOf_of_hasBank {p : BankId} (h : cfg.HasBank p) : p ∈ cfg.banksOf p.rank :=
  mem_banksOf.mpr ⟨rfl, h.bankgroup, h.bank⟩

end Config

end GcnSim.Dramsim
