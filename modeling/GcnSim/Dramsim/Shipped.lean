import GcnSim.Dramsim.Cycle

/-!
# Shipped memories

`DDR4_8Gb_x4_2666.ini`, the memory that the configurations of the simulator name, has eight ranks
and one command in a cycle. `HBM2_8Gb_x128.ini`, which none of them names, has one rank for each
channel and, by default, two commands in a cycle; its delays keep two bursts apart, so no command
is lost.
-/

namespace GcnSim.Dramsim

namespace TimingParams

/-- The delays between two bursts are positive; those between ranks count when there are
several. -/
structure Spaced (c : TimingParams) (ranks : Nat) : Prop where
  readToReadL : 0 < c.readToReadL
  readToReadS : 0 < c.readToReadS
  readToWrite : 0 < c.readToWrite
  writeToReadL : 0 < c.writeToReadL
  writeToReadS : 0 < c.writeToReadS
  writeToWriteL : 0 < c.writeToWriteL
  writeToWriteS : 0 < c.writeToWriteS
  otherRanks : 1 < ranks → 0 < c.readToReadO ∧ 0 < c.readToWriteO ∧ 0 < c.writeToReadO ∧
    0 < c.writeToWriteO

theorem exists_mem_burstDelays {toRead toWrite : Int} (hread : 0 < toRead) (hwrite : 0 < toWrite)
    {t : CommandType} (ht : t.isReadWrite = true) :
    ∃ d, (t, d) ∈ burstDelays toRead toWrite ∧ 0 < d := by
  cases t
  case read | readPrecharge => exact ⟨toRead, by simp [burstDelays], hread⟩
  case write | writePrecharge => exact ⟨toWrite, by simp [burstDelays], hwrite⟩
  all_goals cases ht

/-- Positive delays between bursts keep a second one out of the cycle. -/
theorem Spaced.spacesBursts {c : TimingParams} {cfg : Config} (h : c.Spaced cfg.ranks) :
    c.timing.SpacesBursts cfg := by
  intro cmd hcmd hbank p hp t ht
  rw [or_iff_not_imp_left, Timing.delays,
    if_neg (by rw [CommandType.isRankCmd_of_isReadWrite hcmd]; decide)]
  intro hself
  by_cases heq : p = cmd.bankId
  · rw [if_pos heq]
    cases htype : cmd.cmdType <;> rw [htype] at hcmd
    case read =>
      obtain ⟨d, hd, hpos⟩ := exists_mem_burstDelays h.readToReadL h.readToWrite ht
      exact ⟨d, List.mem_append_left _ hd, hpos⟩
    case write =>
      obtain ⟨d, hd, hpos⟩ := exists_mem_burstDelays h.writeToReadL h.writeToWriteL ht
      exact ⟨d, List.mem_append_left _ hd, hpos⟩
    case readPrecharge => exact (hself ⟨heq, .inl htype⟩).elim
    case writePrecharge => exact (hself ⟨heq, .inr htype⟩).elim
    all_goals cases hcmd
  · rw [if_neg heq]
    split
    · split
      all_goals
        cases htype : cmd.cmdType <;> rw [htype] at hcmd
        case read | readPrecharge =>
          first
          | exact exists_mem_burstDelays h.readToReadL h.readToWrite ht
          | exact exists_mem_burstDelays h.readToReadS h.readToWrite ht
        case write | writePrecharge =>
          first
          | exact exists_mem_burstDelays h.writeToReadL h.writeToWriteL ht
          | exact exists_mem_burstDelays h.writeToReadS h.writeToWriteS ht
        all_goals cases hcmd
    · rename_i hrank
      have hranks : 1 < cfg.ranks := by
        have hone := hp.rank
        have htwo : 0 ≤ cmd.addr.rank ∧ cmd.addr.rank < cfg.ranks := hbank.rank
        omega
      obtain ⟨hrr, hrw, hwr, hww⟩ := h.otherRanks hranks
      cases htype : cmd.cmdType <;> rw [htype] at hcmd
      case read | readPrecharge => exact exists_mem_burstDelays hrr hrw ht
      case write | writePrecharge => exact exists_mem_burstDelays hwr hww ht
      all_goals cases hcmd

end TimingParams

/-- The timing parameters of `HBM2_8Gb_x128.ini`, with the defaults for those it does not give. -/
def hbm2Timing : TimingParams where
  burstCycle := 2
  bankgroups := 4
  isGddr := false
  isHbm := true
  isLpddr4 := false
  additiveLatency := 0
  cl := 14
  cwl := 4
  tCCDL := 2
  tCCDS := 1
  tRTRS := 2
  tRTP := 5
  tWTRL := 8
  tWTRS := 6
  tWR := 16
  tRP := 14
  tRRDL := 6
  tRRDS := 4
  tRAS := 34
  tRCD := 10
  tRCDRD := 14
  tRCDWR := 14
  tRFC := 260
  tRFCb := 20
  tREFI := 3900
  tCKESR := 12
  tXS := 268
  tPPD := 0

/-- The configuration of a channel of `HBM2_8Gb_x128.ini`. -/
def hbm2 : Config where
  ranks := 1
  bankgroups := 4
  banksPerGroup := 4
  mapping := ⟨6, 5, 12, 10, 8, 12, 0, 7, 0, 3, 3, 32767, 31⟩
  queueStructure := .perBank
  rowBufPolicy := .openPage
  cmdQueueSize := 8
  transQueueSize := 32
  unifiedQueue := false
  refreshPolicy := .rankLevelStaggered
  enableSelfRefresh := false
  srefThreshold := 1000
  enableHbmDualCmd := true
  isGddr := false
  readDelay := 16
  tFAW := 30
  t32AW := 330
  tREFI := 3900
  tREFIb := 128
  epochPeriod := 1000000
  raMask_lt := by decide
  bgMask_lt := by decide
  baMask_lt := by decide

theorem hbm2_spaced : hbm2Timing.Spaced hbm2.ranks :=
  ⟨by decide, by decide, by decide, by decide, by decide, by decide, by decide, by decide⟩

/-- The HBM memory loses no command. -/
theorem hbm2_safe : hbm2.Safe hbm2Timing.timing where
  interval := by decide
  epoch := by decide
  awake := rfl
  spaced := fun _ => hbm2_spaced.spacesBursts

/-- The timing parameters of `DDR4_8Gb_x4_2666.ini`, with the defaults for those it does not
give. -/
def ddr4Timing : TimingParams where
  burstCycle := 4
  bankgroups := 4
  isGddr := false
  isHbm := false
  isLpddr4 := false
  additiveLatency := 0
  cl := 19
  cwl := 14
  tCCDL := 7
  tCCDS := 4
  tRTRS := 1
  tRTP := 10
  tWTRL := 10
  tWTRS := 4
  tWR := 20
  tRP := 19
  tRRDL := 7
  tRRDS := 4
  tRAS := 43
  tRCD := 19
  tRCDRD := 24
  tRCDWR := 20
  tRFC := 467
  tRFCb := 20
  tREFI := 10398
  tCKESR := 8
  tXS := 480
  tPPD := 0

/-- The configuration of the channel of `DDR4_8Gb_x4_2666.ini`. -/
def ddr4 : Config where
  ranks := 8
  bankgroups := 4
  banksPerGroup := 4
  mapping := ⟨6, 14, 11, 7, 9, 14, 0, 0, 7, 3, 3, 131071, 127⟩
  queueStructure := .perBank
  rowBufPolicy := .openPage
  cmdQueueSize := 8
  transQueueSize := 32
  unifiedQueue := false
  refreshPolicy := .rankLevelStaggered
  enableSelfRefresh := false
  srefThreshold := 1000
  enableHbmDualCmd := false
  isGddr := false
  readDelay := 23
  tFAW := 16
  t32AW := 330
  tREFI := 10398
  tREFIb := 1950
  epochPeriod := 1333333
  raMask_lt := by decide
  bgMask_lt := by decide
  baMask_lt := by decide

/-- One command in a cycle is never a second burst. -/
theorem ddr4_safe (timing : Timing) : ddr4.Safe timing where
  interval := by decide
  epoch := by decide
  awake := rfl
  spaced := fun hdual => (Bool.false_ne_true hdual).elim

end GcnSim.Dramsim
