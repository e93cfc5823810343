import GcnSim.Dramsim.Session
import GcnSim.Dramsim.Shipped

/-!
# The command trace on a memory device

A device knows the open row of every bank and executes a command only when the banks are in
the right state. It executes the whole trace of a controller: a read or write finds its own
row open, an activation a closed bank, a refresh all banks of the rank closed.
-/

namespace GcnSim.Dramsim

/-- The open row of every bank. -/
abbrev Device := BankId → Option Int

namespace Device

/-- All banks are precharged. -/
def idle : Device := fun _ => none

/-- The device is in the state for a command; it is never asked to sleep. -/
def Legal (cfg : Config) (d : Device) (cmd : Command) : Prop :=
  match cmd.cmdType with
  | .read | .readPrecharge | .write | .writePrecharge => d cmd.bankId = some cmd.addr.row
  | .precharge => d cmd.bankId ≠ none
  | .activate | .refreshBank => d cmd.bankId = none
  | .refresh => ∀ p ∈ cfg.banksOf cmd.addr.rank, d p = none
  | .srefEnter | .srefExit => False

/-- The device after a command. -/
def execute (d : Device) (cmd : Command) : Device :=
  match cmd.cmdType with
  | .activate => Function.update d cmd.bankId (some cmd.addr.row)
  | .precharge | .readPrecharge | .writePrecharge => Function.update d cmd.bankId none
  | _ => d

/-- The device executes the commands in order and ends in the state `d'`. -/
def Executes (cfg : Config) : Device → List Command → Device → Prop
  | d, [], d' => d' = d
  | d, cmd :: cmds, d' => d.Legal cfg cmd ∧ Executes cfg (d.execute cmd) cmds d'

variable {cfg : Config} {timing : Timing}

theorem Executes.concat {d d' : Device} {cmds : List Command} {cmd : Command}
    (h : Executes cfg d cmds d') (hlegal : d'.Legal cfg cmd) :
    Executes cfg d (cmds ++ [cmd]) (d'.execute cmd) := by
  induction cmds generalizing d with
  | nil =>
    cases h
    exact ⟨hlegal, rfl⟩
  | cons c cmds ih => exact ⟨h.1, ih h.2⟩

end Device

namespace ChannelState

/-- The open rows of the banks. -/
def device (s : ChannelState) : Device := fun p =>
  if (s.bankStates p).isRowOpen then some (s.bankStates p).openRow else none

variable {cfg : Config} {timing : Timing} {s : ChannelState} {cmd : Command} {clk : Nat}

theorem device_of_opened {p : BankId} (h : (s.bankStates p).state = .opened) :
    s.device p = some (s.bankStates p).openRow := by
  rw [device, BankState.isRowOpen, h]
  rfl

theorem device_of_closed {p : BankId} (h : (s.bankStates p).state = .closed) :
    s.device p = none := by
  rw [device, BankState.isRowOpen, h]
  rfl

theorem covered_of_not_isRankCmd (h : cmd.cmdType.isRankCmd = false) :
    cmd.bankId ∈ covered cfg cmd := by
  rw [covered, h]
  exact List.mem_singleton_self _

/-- A command that may be issued is legal on the device. -/
theorem legal_of_issues (h : Session.Issues cfg clk s cmd) : s.device.Legal cfg cmd := by
  have htakes := h.ready.takes
  rw [Device.Legal]
  cases htype : cmd.cmdType
  case read | readPrecharge | write | writePrecharge =>
    have hbank := htakes cmd.bankId (covered_of_not_isRankCmd (by rw [htype]; rfl))
    rw [BankState.Takes, htype] at hbank
    dsimp only at hbank ⊢
    rw [device_of_opened hbank.1, hbank.2]
  case precharge =>
    have hbank := htakes cmd.bankId (covered_of_not_isRankCmd (by rw [htype]; rfl))
    rw [BankState.Takes, htype] at hbank
    dsimp only at hbank ⊢
    rw [device_of_opened hbank]
    exact Option.some_ne_none _
  case activate | refreshBank =>
    have hbank := htakes cmd.bankId (covered_of_not_isRankCmd (by rw [htype]; rfl))
    rw [BankState.Takes, htype] at hbank
    exact device_of_closed hbank
  case refresh =>
    have hcovered : covered cfg cmd = cfg.banksOf cmd.addr.rank := if_pos (by rw [htype]; rfl)
    intro p hp
    have hbank := htakes p (hcovered ▸ hp)
    rw [BankState.Takes, htype] at hbank
    exact device_of_closed hbank
  case srefEnter => exact h.notEnter htype
  case srefExit => exact h.notExit htype

/-- `UpdateState` follows the device. -/
theorem device_after (h : Session.Issues cfg clk s cmd) :
    (s.after cfg cmd).device = s.device.execute cmd := by
  funext p
  have hafter : (s.after cfg cmd).bankStates p =
      if p ∈ covered cfg cmd then (s.bankStates p).after cmd else s.bankStates p := rfl
  rw [device, hafter, Device.execute]
  cases htype : cmd.cmdType
  case srefEnter => exact (h.notEnter htype).elim
  case srefExit => exact (h.notExit htype).elim
  case activate | precharge | readPrecharge | writePrecharge =>
    have hcovered : covered cfg cmd = [cmd.bankId] := if_neg (by rw [htype]; decide)
    dsimp only
    rw [hcovered, Function.update_apply]
    simp only [List.mem_singleton]
    by_cases hp : p = cmd.bankId
    · rw [if_pos hp, if_pos hp, BankState.after, htype]
      rfl
    · rw [if_neg hp, if_neg hp]
      rfl
  all_goals
    split
    · rw [BankState.after, htype]
      rfl
    · rfl

theorem device_updateTiming : (s.updateTiming cfg timing cmd clk).device = s.device := by
  funext p
  rw [device, device, BankState.isRowOpen, BankState.isRowOpen, updateTiming_state,
    updateTiming_openRow]

end ChannelState

namespace Session

variable {cfg : Config} {timing : Timing}

/-- In every run the device executes all commands of the trace, and the banks of the controller
are in its state. -/
theorem run_executes (hsafe : cfg.Safe timing) (actions : List Action) :
    ∃ s, run cfg timing actions = .ok s ∧
      Device.Executes cfg .idle (s.controller.cmdTrace.map Prod.snd)
        s.controller.channelState.device := by
  apply run_rule_trace hsafe
    (I := fun _ s trace => Device.Executes cfg .idle (trace.map Prod.snd) s.device)
  · rfl
  · intro clk s trace cmd hissues hI
    rw [List.map_append, ChannelState.device_updateTiming, ChannelState.device_after hissues]
    exact hI.concat (ChannelState.legal_of_issues hissues)
  · exact fun _ _ _ _ hI => hI
  · exact fun _ _ _ _ hI => hI
  · exact fun _ _ _ hI => hI

theorem run_executes_hbm2 :
    ∃ s, run hbm2 hbm2Timing.timing [.add 64 false, .clockTick, .clockTick] = .ok s ∧
      Device.Executes hbm2 .idle (s.controller.cmdTrace.map Prod.snd)
        s.controller.channelState.device :=
  run_executes hbm2_safe _

end Session

end GcnSim.Dramsim
