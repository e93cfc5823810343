import GcnSim.Dramsim.Delays

/-!
# The data bus

The data of a read leaves `RL` cycles after its command and the data of a write arrives `WL`
cycles after it, `burst_cycle` cycles long. No two bursts of a channel overlap. After a command
with auto-precharge the next burst of its bank has to wait for an activation.
-/

namespace GcnSim.Dramsim

namespace TimingParams

/-- `RL` or `WL`. -/
def latency (c : TimingParams) (t : CommandType) : Int := if t.isRead then c.rl else c.wl

/-- `activate_to_read` or `activate_to_write`. -/
def activateTo (c : TimingParams) (t : CommandType) : Int :=
  if t.isRead then c.activateToRead else c.activateToWrite

/-- The first cycle of a burst on the data bus. -/
def burstStart (c : TimingParams) (e : Nat × Command) : Int := e.1 + c.latency e.2.cmdType

/-- The first cycle after a burst. -/
def burstEnd (c : TimingParams) (e : Nat × Command) : Int := c.burstStart e + c.burstCycle

/-- The parameters are those of a device: turn-around times are not negative, and the way
through a precharge and an activation is not shorter than a burst. -/
structure Orderly (c : TimingParams) : Prop where
  tRTRS : 0 ≤ c.tRTRS
  tWTRL : 0 ≤ c.tWTRL + c.rl
  tWTRS : 0 ≤ c.tWTRS + c.rl
  readpToRead : c.burstCycle ≤ c.readpToAct + c.activateToRead
  readpToWrite : c.rl + c.burstCycle ≤ c.readpToAct + c.activateToWrite + c.wl
  writepToRead : c.wl + c.burstCycle ≤ c.writeToActivate + c.activateToRead + c.rl
  writepToWrite : c.burstCycle ≤ c.writeToActivate + c.activateToWrite

variable {c : TimingParams}

/-- Delays long enough for the burst of a command to end before the next one starts. -/
theorem exists_delay_of_burstDelays {toRead toWrite lat : Int} {t : CommandType}
    (ht : t.isReadWrite = true) (hread : lat + c.burstCycle ≤ toRead + c.rl)
    (hwrite : lat + c.burstCycle ≤ toWrite + c.wl) :
    ∃ d, (t, d) ∈ burstDelays toRead toWrite ∧ lat + c.burstCycle ≤ d + c.latency t := by
  cases t
  case read | readPrecharge => exact ⟨toRead, by simp [burstDelays], hread⟩
  case write | writePrecharge => exact ⟨toWrite, by simp [burstDelays], hwrite⟩
  all_goals cases ht

/-- The tables keep two bursts apart, except in a bank that the first one closes. -/
theorem Orderly.exists_delay (h : c.Orderly) {cmd : Command} {p : BankId} {t : CommandType}
    (hcmd : cmd.cmdType.isReadWrite = true) (ht : t.isReadWrite = true) :
    (p = cmd.bankId ∧ (cmd.cmdType = .readPrecharge ∨ cmd.cmdType = .writePrecharge)) ∨
      ∃ d, (t, d) ∈ c.timing.delays cmd p ∧
        c.latency cmd.cmdType + c.burstCycle ≤ d + c.latency t := by
  have hL : c.burstCycle ≤ c.readToReadL ∧ c.burstCycle ≤ c.writeToWriteL ∧
      c.writeDelay ≤ c.writeToReadL + c.rl := by
    have htl := h.tWTRL
    have hts := h.tWTRS
    rw [readToReadL, writeToWriteL, writeToReadL]
    split <;> omega
  have hS : c.burstCycle ≤ c.readToReadS ∧ c.burstCycle ≤ c.writeToWriteS ∧
      c.writeDelay ≤ c.writeToReadS + c.rl := by
    have hts := h.tWTRS
    rw [readToReadS, writeToWriteS, writeToReadS]
    omega
  have hrtrs := h.tRTRS
  rw [writeDelay] at hL hS
  rw [or_iff_not_imp_left, Timing.delays,
    if_neg (by rw [CommandType.isRankCmd_of_isReadWrite hcmd]; decide)]
  intro hself
  -- a read or write without precharge, in its own bank and elsewhere
  have hread : ∀ toRead toWrite, c.burstCycle ≤ toRead → c.readToWrite ≤ toWrite →
      ∃ d, (t, d) ∈ burstDelays toRead toWrite ∧ c.rl + c.burstCycle ≤ d + c.latency t := by
    intro toRead toWrite hr hw
    rw [readToWrite] at hw
    exact exists_delay_of_burstDelays ht (by omega) (by omega)
  have hwrite : ∀ toRead toWrite, c.wl + c.burstCycle ≤ toRead + c.rl → c.burstCycle ≤ toWrite →
      ∃ d, (t, d) ∈ burstDelays toRead toWrite ∧ c.wl + c.burstCycle ≤ d + c.latency t :=
    fun toRead toWrite hr hw => exists_delay_of_burstDelays ht hr (by omega)
  by_cases heq : p = cmd.bankId
  · rw [if_pos heq]
    cases htype : cmd.cmdType <;> rw [htype] at hcmd
    case read =>
      obtain ⟨d, hd, hle⟩ := hread _ _ hL.1 (Int.le_refl _)
      exact ⟨d, List.mem_append_left _ hd, hle⟩
    case write =>
      obtain ⟨d, hd, hle⟩ := hwrite _ _ hL.2.2 hL.2.1
      exact ⟨d, List.mem_append_left _ hd, hle⟩
    case readPrecharge => exact (hself ⟨heq, .inl htype⟩).elim
    case writePrecharge => exact (hself ⟨heq, .inr htype⟩).elim
    all_goals cases hcmd
  · rw [if_neg heq]
    split
    · split
      · cases htype : cmd.cmdType <;> rw [htype] at hcmd
        case read | readPrecharge => exact hread _ _ hL.1 (Int.le_refl _)
        case write | writePrecharge => exact hwrite _ _ hL.2.2 hL.2.1
        all_goals cases hcmd
      · cases htype : cmd.cmdType <;> rw [htype] at hcmd
        case read | readPrecharge => exact hread _ _ hS.1 (Int.le_refl _)
        case write | writePrecharge => exact hwrite _ _ hS.2.2 hS.2.1
        all_goals cases hcmd
    · cases htype : cmd.cmdType <;> rw [htype] at hcmd
      case read | readPrecharge =>
        apply hread
        · rw [readToReadO]
          omega
        · rw [readToWriteO, readToWrite, readDelay, writeDelay]
          omega
      case write | writePrecharge =>
        apply hwrite
        · rw [writeToReadO, readDelay, writeDelay]
          omega
        · exact Int.le_refl _
      all_goals cases hcmd

/-- An activation puts its delays on the bank. -/
theorem activateTo_mem {cmd : Command} (hcmd : cmd.cmdType = .activate) {t : CommandType}
    (ht : t.isReadWrite = true) :
    (t, c.activateTo t) ∈ c.timing.delays cmd cmd.bankId := by
  rw [Timing.delays, hcmd, if_neg (by decide), if_pos rfl]
  cases t
  case read | write | readPrecharge | writePrecharge =>
    simp [timing, sameBank, burstDelays,
      activateTo, CommandType.isRead]
  all_goals cases ht

/-- A burst with precharge puts a delay on the next activation of its bank. -/
theorem Orderly.precharge_mem (h : c.Orderly) {cmd : Command}
    (hcmd : cmd.cmdType = .readPrecharge ∨ cmd.cmdType = .writePrecharge) {t : CommandType}
    (ht : t.isReadWrite = true) :
    ∃ d, (CommandType.activate, d) ∈ c.timing.delays cmd cmd.bankId ∧
      c.latency cmd.cmdType + c.burstCycle ≤ d + c.activateTo t + c.latency t := by
  have hrr := h.readpToRead
  have hrw := h.readpToWrite
  have hwr := h.writepToRead
  have hww := h.writepToWrite
  have hcases : c.burstCycle + c.rl ≤ c.readpToAct + c.activateTo t + c.latency t ∧
      c.burstCycle + c.wl ≤ c.writeToActivate + c.activateTo t + c.latency t := by
    cases t
    case read | readPrecharge =>
      constructor <;> simp only [activateTo, latency,
        CommandType.isRead, if_true] <;> omega
    case write | writePrecharge =>
      constructor <;> simp only [activateTo, latency,
        CommandType.isRead, Bool.false_eq_true, if_false] <;> omega
    all_goals cases ht
  rcases hcmd with hcmd | hcmd
  · refine ⟨c.readpToAct, ?_, ?_⟩
    · rw [Timing.delays, hcmd, if_neg (by decide), if_pos rfl]
      simp [timing, sameBank, closedDelays]
    · rw [hcmd]
      change c.rl + c.burstCycle ≤ _
      omega
  · refine ⟨c.writeToActivate, ?_, ?_⟩
    · rw [Timing.delays, hcmd, if_neg (by decide), if_pos rfl]
      simp [timing, sameBank, closedDelays]
    · rw [hcmd]
      change c.wl + c.burstCycle ≤ _
      omega

end TimingParams

namespace ChannelState

variable {cfg : Config} {timing : Timing} {s : ChannelState} {cmd : Command} {clk : Nat}
  {p : BankId}

/-- A closed bank is opened by an activation only. -/
theorem issued_state_of_closed (hissues : Session.Issues cfg clk s cmd)
    (hclosed : (s.bankStates p).state = .closed) :
    (((s.after cfg cmd).updateTiming cfg timing cmd clk).bankStates p).state = .closed ∨
      cmd.cmdType = .activate ∧ p = cmd.bankId := by
  rw [updateTiming_state]
  have hafter : (s.after cfg cmd).bankStates p =
      if p ∈ covered cfg cmd then (s.bankStates p).after cmd else s.bankStates p := rfl
  rw [hafter]
  split
  · rename_i hp
    by_cases hact : cmd.cmdType = .activate
    · rw [covered, hact] at hp
      exact .inr ⟨hact, List.mem_singleton.mp hp⟩
    · left
      rw [BankState.after]
      cases htype : cmd.cmdType
      case activate => exact (hact htype).elim
      case srefEnter => exact (hissues.notEnter htype).elim
      case precharge | readPrecharge | writePrecharge | srefExit => rfl
      all_goals exact hclosed
  · exact .inl hclosed

end ChannelState

namespace Session

variable {cfg : Config} {c : TimingParams}

/-- The bursts issued so far do not overlap, and no bank starts the next one too early. A
closed bank may have to go through an activation first. -/
structure BusFree (cfg : Config) (c : TimingParams) (s : ChannelState)
    (trace : List (Nat × Command)) : Prop where
  pairs : trace.Pairwise fun e e' => e.2.cmdType.isReadWrite = true →
    e'.2.cmdType.isReadWrite = true → c.burstEnd e ≤ c.burstStart e'
  banks : ∀ e ∈ trace, e.2.cmdType.isReadWrite = true → ∀ p, cfg.HasBank p → ∀ t,
    t.isReadWrite = true → c.burstEnd e ≤ (s.bankStates p).cmdTiming t + c.latency t ∨
      (s.bankStates p).state = .closed ∧
        c.burstEnd e ≤ (s.bankStates p).cmdTiming .activate + c.activateTo t + c.latency t

theorem BusFree.issue (horderly : c.Orderly) {clk : Nat} {s : ChannelState}
    {trace : List (Nat × Command)} {cmd : Command} (hissues : Issues cfg clk s cmd)
    (h : BusFree cfg c s trace) :
    BusFree cfg c ((s.after cfg cmd).updateTiming cfg c.timing cmd clk)
      (trace ++ [(clk, cmd)]) := by
  refine ⟨List.pairwise_append.mpr ⟨h.pairs, List.pairwise_singleton _ _, ?_⟩, ?_⟩
  · intro e he e' he' hrw hrw'
    rw [List.mem_singleton.mp he'] at hrw' ⊢
    have hcovered := @ChannelState.covered_of_not_isRankCmd cfg cmd
      (CommandType.isRankCmd_of_isReadWrite hrw')
    have hready := hissues.ready.timing _ hcovered
    have hopened : (s.bankStates cmd.bankId).state = .opened := by
      have htakes := hissues.ready.takes _ hcovered
      rw [BankState.Takes] at htakes
      cases htype : cmd.cmdType <;> rw [htype] at htakes hrw'
      case read | readPrecharge | write | writePrecharge => exact htakes.1
      all_goals cases hrw'
    rcases h.banks e he hrw _ (hissues.bank hrw') _ hrw' with hle | ⟨hclosed, -⟩
    · rw [TimingParams.burstStart]
      dsimp only at hle ⊢
      omega
    · rw [hopened] at hclosed
      cases hclosed
  · intro e he hrw p hp t ht
    have hmono := @ChannelState.cmdTiming_le_issued cfg c.timing s cmd clk p hp
    rcases List.mem_append.mp he with he | he
    · rcases h.banks e he hrw p hp t ht with hle | ⟨hclosed, hle⟩
      · left
        have hmono := hmono t
        omega
      · rcases @ChannelState.issued_state_of_closed cfg c.timing s cmd clk p hissues hclosed with
          hclosed' | ⟨hact, rfl⟩
        · right
          have hmono := hmono .activate
          exact ⟨hclosed', by omega⟩
        · -- the bank is opened, after the delay of the activation
          left
          have hready := hissues.ready.timing _ (ChannelState.covered_of_not_isRankCmd
            (by rw [hact]; rfl))
          have hdelay := @ChannelState.delay_le_issued cfg c.timing s cmd clk _ hp _ _
            (TimingParams.activateTo_mem (c := c) hact ht)
          rw [hact] at hready
          omega
    · rw [List.mem_singleton.mp he] at hrw ⊢
      rw [TimingParams.burstEnd, TimingParams.burstStart]
      dsimp only at hrw ⊢
      rcases horderly.exists_delay (p := p) hrw ht with ⟨rfl, hclose⟩ | ⟨d, hd, hle⟩
      · right
        obtain ⟨d, hd, hle⟩ := horderly.precharge_mem hclose ht
        have hdelay := @ChannelState.delay_le_issued cfg c.timing s cmd clk _ hp _ _ hd
        refine ⟨?_, by omega⟩
        rw [ChannelState.updateTiming_state]
        have hafter : (s.after cfg cmd).bankStates cmd.bankId =
            (s.bankStates cmd.bankId).after cmd :=
          Table.forEach_of_mem (ChannelState.covered_of_not_isRankCmd
            (CommandType.isRankCmd_of_isReadWrite hrw))
        rw [hafter, BankState.after]
        rcases hclose with h | h <;> rw [h]
      · left
        have hdelay := @ChannelState.delay_le_issued cfg c.timing s cmd clk _ hp _ _ hd
        omega

/-- In every run no two bursts of the channel overlap on the data bus. -/
theorem run_bus_free (horderly : c.Orderly) (hsafe : cfg.Safe c.timing)
    (actions : List Action) :
    ∃ s, run cfg c.timing actions = .ok s ∧
      s.controller.cmdTrace.Pairwise fun e e' => e.2.cmdType.isReadWrite = true →
        e'.2.cmdType.isReadWrite = true → c.burstEnd e ≤ c.burstStart e' := by
  obtain ⟨s, hrun, hfree⟩ := run_rule_trace hsafe
    (I := fun _ s trace => BusFree cfg c s trace)
    ⟨List.Pairwise.nil, fun _ h => (List.not_mem_nil h).elim⟩
    (fun _ _ _ _ hissues h => h.issue horderly hissues) (fun _ _ _ _ h => ⟨h.pairs, h.banks⟩)
    (fun _ _ _ _ h => ⟨h.pairs, h.banks⟩) (fun _ _ _ h => h) actions
  exact ⟨s, hrun, hfree.pairs⟩

theorem run_bus_free_hbm2 :
    ∃ s, run hbm2 hbm2Timing.timing [.add 64 false, .clockTick, .clockTick] = .ok s ∧
      s.controller.cmdTrace.Pairwise fun e e' => e.2.cmdType.isReadWrite = true →
        e'.2.cmdType.isReadWrite = true → hbm2Timing.burstEnd e ≤ hbm2Timing.burstStart e' :=
  run_bus_free ⟨by decide, by decide, by decide, by decide, by decide, by decide, by decide⟩
    hbm2_safe _

end Session

end GcnSim.Dramsim
