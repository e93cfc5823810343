import GcnSim.Dramsim.Timing

/-!
# The state of a bank

`GetReadyCommand` names the command a bank needs next for a given one, if that may be issued
now. `UpdateState` follows an issued command and ends the process on one that the bank cannot
take in its state.
-/

namespace GcnSim.Dramsim

/-- `BankState::State`. -/
inductive BankState.State where
  | opened | closed | sref | pd
  deriving DecidableEq, Repr

/-- `class BankState`. -/
structure BankState where
  state : BankState.State
  cmdTiming : CommandType → Nat
  openRow : Int
  rowHitCount : Nat

namespace BankState

/-- The constructor. -/
def init : BankState where
  state := .closed
  cmdTiming := fun _ => 0
  openRow := -1
  rowHitCount := 0

/-- `IsRowOpen`. -/
def isRowOpen (b : BankState) : Bool := b.state == .opened

/-- `required_type` in `GetReadyCommand`. -/
def requiredType (b : BankState) (cmd : Command) : Except Abort CommandType :=
  match b.state with
  | .closed =>
    match cmd.cmdType with
    | .read | .readPrecharge | .write | .writePrecharge => .ok .activate
    | .refresh | .refreshBank | .srefEnter => .ok cmd.cmdType
    | _ => .error .abruptExit
  | .opened =>
    match cmd.cmdType with
    | .read | .readPrecharge | .write | .writePrecharge =>
      if cmd.addr.row = b.openRow then .ok cmd.cmdType else .ok .precharge
    | .refresh | .refreshBank | .srefEnter => .ok .precharge
    | _ => .error .abruptExit
  | .sref =>
    match cmd.cmdType with
    | .read | .readPrecharge | .write | .writePrecharge => .ok .srefExit
    | _ => .error .abruptExit
  | .pd => .error .abruptExit

/-- `GetReadyCommand`. -/
def getReadyCommand (b : BankState) (cmd : Command) (clk : Nat) :
    Except Abort (Option Command) :=
  match b.requiredType cmd with
  | .ok t => .ok (if b.cmdTiming t ≤ clk then some { cmd with cmdType := t } else none)
  | .error e => .error e

/-- `UpdateState`. -/
def updateState (b : BankState) (cmd : Command) : Except Abort BankState :=
  match b.state with
  | .opened =>
    match cmd.cmdType with
    | .read | .write => .ok { b with rowHitCount := b.rowHitCount + 1 }
    | .readPrecharge | .writePrecharge | .precharge =>
      .ok { b with
        state := .closed
        openRow := -1
        rowHitCount := 0 }
    | _ => .error .abruptExit
  | .closed =>
    match cmd.cmdType with
    | .refresh | .refreshBank => .ok b
    | .activate =>
      .ok { b with
        state := .opened
        openRow := cmd.addr.row }
    | .srefEnter => .ok { b with state := .sref }
    | _ => .error .abruptExit
  | .sref =>
    match cmd.cmdType with
    | .srefExit => .ok { b with state := .closed }
    | _ => .error .abruptExit
  | .pd => .error .abruptExit

/-- `UpdateTiming`. -/
def updateTiming (b : BankState) (cmdType : CommandType) (time : Nat) : BankState :=
  { b with cmdTiming := Function.update b.cmdTiming cmdType (max (b.cmdTiming cmdType) time) }

/-- The loop over a list of delays. -/
def updateTimings (clk : Nat) (delays : Delays) (b : BankState) : BankState :=
  delays.foldl (fun b d => b.updateTiming d.1 (addDelay clk d.2)) b

/-- The state of a bank after a command that it takes. -/
def after (cmd : Command) (b : BankState) : BankState :=
  match cmd.cmdType with
  | .read | .write => { b with rowHitCount := b.rowHitCount + 1 }
  | .readPrecharge | .writePrecharge | .precharge =>
    { b with
      state := .closed
      openRow := -1
      rowHitCount := 0 }
  | .activate =>
    { b with
      state := .opened
      openRow := cmd.addr.row }
  | .srefEnter => { b with state := .sref }
  | .srefExit => { b with state := .closed }
  | .refresh | .refreshBank => b

/-- A bank takes a command in its state. -/
def Takes (cmd : Command) (b : BankState) : Prop :=
  match cmd.cmdType with
  | .read | .write | .readPrecharge | .writePrecharge =>
    b.state = .opened ∧ b.openRow = cmd.addr.row
  | .precharge => b.state = .opened
  | .activate | .refresh | .refreshBank | .srefEnter => b.state = .closed
  | .srefExit => b.state = .sref

theorem getReadyCommand_eq_some {b : BankState} {cmd ready : Command} {clk : Nat} :
    b.getReadyCommand cmd clk = .ok (some ready) ↔
      ∃ t, b.requiredType cmd = .ok t ∧ b.cmdTiming t ≤ clk ∧
        ready = { cmd with cmdType := t } := by
  rw [getReadyCommand]
  cases b.requiredType cmd with
  | error e => simp
  | ok t =>
    dsimp only
    constructor
    · intro h
      by_cases hclk : b.cmdTiming t ≤ clk
      · rw [if_pos hclk] at h
        cases h
        exact ⟨t, rfl, hclk, rfl⟩
      · rw [if_neg hclk] at h
        cases h
    · rintro ⟨t', ht, hclk, rfl⟩
      cases ht
      rw [if_pos hclk]

/-- The required command is one that the bank takes. -/
theorem takes_of_requiredType {b : BankState} {cmd : Command} {t : CommandType}
    (h : b.requiredType cmd = .ok t) : b.Takes { cmd with cmdType := t } := by
  revert h
  rw [requiredType]
  cases hstate : b.state
  case opened =>
    cases htype : cmd.cmdType <;> intro h
    case read | readPrecharge | write | writePrecharge =>
      dsimp only at h
      split at h
      · rename_i hrow
        cases h
        exact ⟨hstate, hrow.symm⟩
      · cases h
        exact hstate
    case refresh | refreshBank | srefEnter =>
      cases h
      exact hstate
    all_goals cases h
  all_goals
    cases htype : cmd.cmdType <;> intro h <;> cases h <;> exact hstate

/-- Only a self-refresh command sends a bank to sleep. -/
theorem after_state_of_ne {b : BankState} {cmd : Command}
    (h : b.state = .opened ∨ b.state = .closed) (hsref : cmd.cmdType ≠ .srefEnter) :
    (b.after cmd).state = .opened ∨ (b.after cmd).state = .closed := by
  rw [after]
  cases htype : cmd.cmdType
  case read | write | refreshBank | refresh => exact h
  case activate => exact .inl rfl
  case srefEnter => exact (hsref htype).elim
  all_goals exact .inr rfl

/-- `UpdateState` does not end the process on a command that the bank takes. -/
theorem updateState_of_takes {b : BankState} {cmd : Command} (h : b.Takes cmd) :
    b.updateState cmd = .ok (b.after cmd) := by
  rw [Takes] at h
  rw [updateState, after]
  cases htype : cmd.cmdType <;> rw [htype] at h <;> dsimp only at h
  case read | write | readPrecharge | writePrecharge => rw [h.1]
  all_goals rw [h]

/-- What a bank that is not asleep requires for a command of the queues. -/
theorem requiredType_of_isReadWrite {b : BankState} {cmd : Command}
    (hstate : b.state = .opened ∨ b.state = .closed) (hcmd : cmd.cmdType.isReadWrite = true) :
    b.requiredType cmd = .ok (if b.state = .closed then .activate
      else if cmd.addr.row = b.openRow then cmd.cmdType else .precharge) := by
  rw [requiredType]
  rcases hstate with hstate | hstate <;> rw [hstate] <;> dsimp only
  · rw [if_neg (show State.opened ≠ .closed from nofun)]
    cases htype : cmd.cmdType <;> rw [htype] at hcmd
    case read | readPrecharge | write | writePrecharge =>
      dsimp only
      split <;> rfl
    all_goals cases hcmd
  · rw [if_pos rfl]
    cases htype : cmd.cmdType <;> rw [htype] at hcmd
    all_goals cases hcmd

/-- What a bank that is not asleep requires for a refresh. -/
theorem requiredType_of_isRefresh {b : BankState} {cmd : Command}
    (hstate : b.state = .opened ∨ b.state = .closed) (hcmd : cmd.cmdType.isRefresh = true) :
    b.requiredType cmd = .ok (if b.state = .closed then cmd.cmdType else .precharge) := by
  rw [requiredType]
  rcases hstate with hstate | hstate <;> rw [hstate] <;> dsimp only
  · rw [if_neg (show State.opened ≠ .closed from nofun)]
    cases htype : cmd.cmdType <;> rw [htype] at hcmd
    all_goals cases hcmd
  · rw [if_pos rfl]
    cases htype : cmd.cmdType <;> rw [htype] at hcmd
    all_goals cases hcmd

section Timing

variable {clk : Nat} {delays : Delays} {b : BankState}

/-- The loop over the delays changes the earliest times only. -/
theorem updateTimings_frame :
    ∃ times, b.updateTimings clk delays = { b with cmdTiming := times } := by
  induction delays generalizing b with
  | nil => exact ⟨b.cmdTiming, rfl⟩
  | cons d delays ih =>
    obtain ⟨times, h⟩ := @ih (b.updateTiming d.1 (addDelay clk d.2))
    exact ⟨times, h⟩

@[simp] theorem updateTimings_state : (b.updateTimings clk delays).state = b.state := by
  obtain ⟨times, h⟩ := @updateTimings_frame clk delays b
  rw [h]

@[simp] theorem updateTimings_openRow : (b.updateTimings clk delays).openRow = b.openRow := by
  obtain ⟨times, h⟩ := @updateTimings_frame clk delays b
  rw [h]

theorem updateTiming_self (b : BankState) (t : CommandType) (time : Nat) :
    (b.updateTiming t time).cmdTiming t = max (b.cmdTiming t) time := Function.update_self ..

theorem updateTiming_of_ne (b : BankState) {t t' : CommandType} (h : t ≠ t') (time : Nat) :
    (b.updateTiming t' time).cmdTiming t = b.cmdTiming t := Function.update_of_ne h ..

/-- An earliest time never moves back. -/
theorem cmdTiming_le_updateTimings (t : CommandType) :
    b.cmdTiming t ≤ (b.updateTimings clk delays).cmdTiming t := by
  induction delays generalizing b with
  | nil => exact Nat.le_refl _
  | cons d delays ih =>
    refine Nat.le_trans ?_ (ih (b := b.updateTiming d.1 (addDelay clk d.2)))
    by_cases ht : t = d.1
    · rw [ht, updateTiming_self]
      exact Nat.le_max_left _ _
    · exact Nat.le_of_eq (updateTiming_of_ne b ht _).symm

/-- Every delay of the list is kept. -/
theorem addDelay_le_updateTimings {t : CommandType} {d : Int} (h : (t, d) ∈ delays) :
    addDelay clk d ≤ (b.updateTimings clk delays).cmdTiming t := by
  induction delays generalizing b with
  | nil => cases h
  | cons d' delays ih =>
    rcases List.mem_cons.mp h with rfl | h
    · refine Nat.le_trans ?_ (cmdTiming_le_updateTimings (b := b.updateTiming t (addDelay clk d)) t)
      rw [updateTiming_self]
      exact Nat.le_max_right _ _
    · exact ih h

/-- Nothing else moves an earliest time. -/
theorem updateTimings_le {t : CommandType} {bound : Nat} (hold : b.cmdTiming t ≤ bound)
    (hnew : ∀ d, (t, d) ∈ delays → addDelay clk d ≤ bound) :
    (b.updateTimings clk delays).cmdTiming t ≤ bound := by
  induction delays generalizing b with
  | nil => exact hold
  | cons d delays ih =>
    apply ih (b := b.updateTiming d.1 (addDelay clk d.2))
    · by_cases ht : t = d.1
      · subst ht
        rw [updateTiming_self]
        exact Nat.max_le.mpr ⟨hold, hnew d.2 List.mem_cons_self⟩
      · rwa [updateTiming_of_ne b ht]
    · exact fun d' hd' => hnew d' (List.mem_cons_of_mem _ hd')

end Timing

end BankState

end GcnSim.Dramsim
