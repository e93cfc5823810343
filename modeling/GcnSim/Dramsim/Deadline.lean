import GcnSim.Dramsim.Delays

/-!
# The deadline of a refresh

A refresh of a rank waits until all banks of the rank are closed and their delays are over.
While no command of the queues goes to the rank, each open bank costs at most one delay before
`PRECHARGE`, and the refresh itself at most one delay before `REFRESH`.
-/

namespace GcnSim.Dramsim

/-- The longest delays before a precharge and before a refresh of a rank, which commands of
other ranks do not cause. -/
structure Timing.BoundsRefresh (timing : Timing) (dp dr : Nat) : Prop where
  precharge : ∀ cmd p d, (.precharge, d) ∈ timing.delays cmd p → 0 ≤ d ∧ d ≤ dp
  refresh : ∀ cmd p d, (.refresh, d) ∈ timing.delays cmd p → 0 ≤ d ∧ d ≤ dr
  others : ∀ cmd p, p.rank ≠ cmd.addr.rank → ∀ d,
    (.precharge, d) ∉ timing.delays cmd p ∧ (.refresh, d) ∉ timing.delays cmd p

theorem addDelay_le {clk : Nat} {delay : Int} {bound : Nat} (h : 0 ≤ delay ∧ delay ≤ bound) :
    addDelay clk delay ≤ clk + bound := by
  rw [addDelay, if_pos (by omega)]
  omega

namespace TimingParams

variable {c : TimingParams}

/-- The delays before a precharge. -/
def prechargeTimes (c : TimingParams) : List Int :=
  [c.readToPrecharge, c.writeToPrecharge, c.tRAS, c.tPPD]

/-- The delays before a refresh of a rank. -/
def refreshTimes (c : TimingParams) : List Int :=
  [c.readToActivate, c.writeToActivate, c.tRP, c.tRFC, c.tXS, c.tRFCb]

theorem mem_prechargeTimes {cmd : Command} {p : BankId} {d : Int}
    (h : (.precharge, d) ∈ c.timing.delays cmd p) :
    d ∈ c.prechargeTimes ∧ p.rank = cmd.addr.rank := by
  revert h
  rw [Timing.delays]
  split
  · split
    · cases cmd.cmdType <;> simp [timing, sameRank]
    · exact fun h => (List.not_mem_nil h).elim
  · split
    · rename_i hp
      rw [hp]
      change _ → _ ∧ cmd.addr.rank = _
      cases cmd.cmdType <;>
        simp [timing, sameBank, burstDelays, closedDelays, prechargeTimes] <;> tauto
    · split
      · rename_i hrank
        split
        all_goals
          cases cmd.cmdType <;> simp [timing, otherBanksSameBankgroup, otherBankgroupsSameRank,
            burstDelays, prechargeDelays, refreshBankDelays, prechargeTimes, hrank]
          tauto
      · cases cmd.cmdType <;> simp [timing, otherRanks, burstDelays]

theorem mem_refreshTimes {cmd : Command} {p : BankId} {d : Int}
    (h : (.refresh, d) ∈ c.timing.delays cmd p) :
    d ∈ c.refreshTimes ∧ p.rank = cmd.addr.rank := by
  revert h
  rw [Timing.delays]
  split
  · split
    · rename_i hrank
      cases cmd.cmdType <;> simp [timing, sameRank, refreshTimes, hrank] <;> tauto
    · exact fun h => (List.not_mem_nil h).elim
  · split
    · rename_i hp
      rw [hp]
      change _ → _ ∧ cmd.addr.rank = _
      cases cmd.cmdType <;>
        simp [timing, sameBank, burstDelays, closedDelays, refreshTimes] <;> tauto
    · split
      · split
        all_goals
          cases cmd.cmdType <;> simp [timing, otherBanksSameBankgroup, otherBankgroupsSameRank,
            burstDelays, prechargeDelays, refreshBankDelays]
      · cases cmd.cmdType <;> simp [timing, otherRanks, burstDelays]

/-- The tables of `Timing` bound the delays of a refresh by their own entries. -/
theorem boundsRefresh {dp dr : Nat} (hp : ∀ d ∈ c.prechargeTimes, 0 ≤ d ∧ d ≤ dp)
    (hr : ∀ d ∈ c.refreshTimes, 0 ≤ d ∧ d ≤ dr) : c.timing.BoundsRefresh dp dr where
  precharge := fun _ _ d h => hp d (mem_prechargeTimes h).1
  refresh := fun _ _ d h => hr d (mem_refreshTimes h).1
  others := fun _ _ hother _ =>
    ⟨fun h => hother (mem_prechargeTimes h).2, fun h => hother (mem_refreshTimes h).2⟩

end TimingParams

namespace ChannelState

variable {cfg : Config} {timing : Timing} {s s' : ChannelState} {cmd : Command} {clk dp dr : Nat}
  {p : BankId}

section Ready

/-- A refresh that is not ready waits for each open bank and for one bank at least. -/
theorem rankReady_eq_none {ps : List BankId} {readyCmd : Option Command} {numReady : Nat}
    (h : s.rankReady cfg cmd clk ps readyCmd numReady = .ok none) {p : BankId} (hp : p ∈ ps)
    {t : CommandType} (hrequired : (s.bankStates p).requiredType cmd = .ok t)
    (hother : t ≠ cmd.cmdType) : clk < (s.bankStates p).cmdTiming t := by
  induction ps generalizing readyCmd numReady with
  | nil => cases hp
  | cons q ps ih =>
    rw [rankReady] at h
    rcases List.mem_cons.mp hp with rfl | hp
    · rw [BankState.getReadyCommand, hrequired] at h
      dsimp only at h
      by_contra hle
      rw [if_pos (Nat.le_of_not_lt hle)] at h
      dsimp only at h
      rw [if_pos hother] at h
      cases h
    · split at h
      · cases h
      · exact ih h hp
      · split at h
        · cases h
        · exact ih h hp

theorem rankReady_ne_none {ps : List BankId} {readyCmd : Option Command} {numReady : Nat}
    (hbanks : numReady + ps.length = cfg.banks)
    (hready : ∀ p ∈ ps, (s.bankStates p).requiredType cmd = .ok cmd.cmdType ∧
      (s.bankStates p).cmdTiming cmd.cmdType ≤ clk)
    (hsome : ps = [] → readyCmd ≠ none) :
    s.rankReady cfg cmd clk ps readyCmd numReady ≠ .ok none := by
  induction ps generalizing readyCmd numReady with
  | nil =>
    rw [rankReady, if_pos (show numReady = cfg.banks from hbanks)]
    exact fun h => hsome rfl (Except.ok.inj h)
  | cons q ps ih =>
    obtain ⟨hrequired, hclk⟩ := hready q List.mem_cons_self
    rw [rankReady, BankState.getReadyCommand, hrequired]
    dsimp only
    rw [if_pos hclk]
    dsimp only
    rw [if_neg (not_not.mpr rfl)]
    rw [List.length_cons] at hbanks
    exact ih (by omega) (fun p hp => hready p (List.mem_cons_of_mem q hp))
      fun _ => Option.some_ne_none _

theorem banksOf_ne_nil (rank : Int) : cfg.banksOf rank ≠ [] := by
  intro h
  have hlength := @Config.length_banksOf cfg rank
  have hbg := cfg.bgMask_lt
  have hba := cfg.baMask_lt
  rw [h, List.length_nil, Config.banks] at hlength
  have hpos := Nat.mul_pos (Nat.zero_lt_of_lt hbg) (Nat.zero_lt_of_lt hba)
  omega

/-- Why a refresh of a rank is not ready. -/
theorem not_ready_refresh
    (hawake : ∀ p, (s.bankStates p).state = .opened ∨ (s.bankStates p).state = .closed)
    (hcmd : cmd.cmdType = .refresh) (h : s.getReadyCommand cfg cmd clk = .ok none) :
    (∀ p ∈ cfg.banksOf cmd.addr.rank, (s.bankStates p).isRowOpen = true →
      clk < (s.bankStates p).cmdTiming .precharge) ∧
    ((∀ p ∈ cfg.banksOf cmd.addr.rank, (s.bankStates p).isRowOpen = false) →
      ∃ p ∈ cfg.banksOf cmd.addr.rank, clk < (s.bankStates p).cmdTiming .refresh) := by
  have hrequired : ∀ p, (s.bankStates p).requiredType cmd =
      .ok (if (s.bankStates p).state = .closed then cmd.cmdType else .precharge) := fun p =>
    BankState.requiredType_of_isRefresh (hawake p) (by rw [hcmd]; rfl)
  rw [getReadyCommand, if_pos (by rw [hcmd]; rfl)] at h
  constructor
  · intro p hp hopen
    refine rankReady_eq_none h hp ?_ (by rw [hcmd]; decide)
    rw [hrequired, if_neg]
    rw [BankState.isRowOpen, beq_iff_eq] at hopen
    rw [hopen]
    decide
  · intro hclosed
    by_contra hnone
    refine rankReady_ne_none ?_ ?_ ?_ h
    · rw [Nat.zero_add, Config.length_banksOf]
    · intro p hp
      have hstate : (s.bankStates p).state = .closed := by
        have hp := hclosed p hp
        rw [BankState.isRowOpen, beq_eq_false_iff_ne] at hp
        exact (hawake p).resolve_left hp
      refine ⟨by rw [hrequired, if_pos hstate], ?_⟩
      rw [hcmd]
      by_contra hlt
      exact hnone ⟨p, hp, Nat.lt_of_not_le hlt⟩
    · exact fun hnil => (banksOf_ne_nil _ hnil).elim

end Ready

section Timely

/-- No bank has to wait longer than one delay for a precharge or a refresh. -/
structure Timely (cfg : Config) (dp dr clk : Nat) (s : ChannelState) : Prop where
  precharge : ∀ p, cfg.HasBank p → (s.bankStates p).cmdTiming .precharge ≤ clk + dp
  refresh : ∀ p, cfg.HasBank p → (s.bankStates p).cmdTiming .refresh ≤ clk + dr

theorem Timely.mono (h : Timely cfg dp dr clk s) {later : Nat} (hle : clk ≤ later) :
    Timely cfg dp dr later s where
  precharge := fun p hp => by have := h.precharge p hp; omega
  refresh := fun p hp => by have := h.refresh p hp; omega

/-- An earliest time after an issued command. -/
theorem cmdTiming_issued_le (hp : cfg.HasBank p) {t : CommandType} {bound : Nat}
    (hold : (s.bankStates p).cmdTiming t ≤ bound)
    (hnew : ∀ d, (t, d) ∈ timing.delays cmd p → addDelay clk d ≤ bound) :
    (((s.after cfg cmd).updateTiming cfg timing cmd clk).bankStates p).cmdTiming t ≤ bound := by
  rw [issued_bankStates hp]
  exact BankState.updateTimings_le (by rw [after_cmdTiming]; exact hold) hnew

theorem cmdTiming_issued_of_notMem (hp : cfg.HasBank p) {t : CommandType}
    (hnone : ∀ d, (t, d) ∉ timing.delays cmd p) :
    (((s.after cfg cmd).updateTiming cfg timing cmd clk).bankStates p).cmdTiming t =
      (s.bankStates p).cmdTiming t :=
  Nat.le_antisymm
    (cmdTiming_issued_le hp (Nat.le_refl _) fun d hd => (hnone d hd).elim)
    (cmdTiming_le_issued hp t)

theorem Timely.issued {later : Nat} (h : Timely cfg dp dr later s) (hle : clk ≤ later)
    (hbounds : timing.BoundsRefresh dp dr) :
    Timely cfg dp dr later ((s.after cfg cmd).updateTiming cfg timing cmd clk) where
  precharge := fun p hp => cmdTiming_issued_le hp (h.precharge p hp) fun d hd => by
    have := @addDelay_le clk d _ (hbounds.precharge cmd p d hd)
    omega
  refresh := fun p hp => cmdTiming_issued_le hp (h.refresh p hp) fun d hd => by
    have := @addDelay_le clk d _ (hbounds.refresh cmd p d hd)
    omega

end Timely

section Undisturbed

/-- The banks of a rank are as open as before and as ready for a precharge or a refresh. -/
structure Undisturbed (cfg : Config) (rank : Int) (s s' : ChannelState) : Prop where
  state : ∀ p ∈ cfg.banksOf rank, (s'.bankStates p).state = (s.bankStates p).state
  precharge : ∀ p ∈ cfg.banksOf rank,
    (s'.bankStates p).cmdTiming .precharge = (s.bankStates p).cmdTiming .precharge
  refresh : ∀ p ∈ cfg.banksOf rank,
    (s'.bankStates p).cmdTiming .refresh = (s.bankStates p).cmdTiming .refresh

theorem Undisturbed.refl (cfg : Config) (rank : Int) (s : ChannelState) :
    Undisturbed cfg rank s s := ⟨fun _ _ => rfl, fun _ _ => rfl, fun _ _ => rfl⟩

theorem Undisturbed.trans {rank : Int} {s'' : ChannelState} (h : Undisturbed cfg rank s s')
    (h' : Undisturbed cfg rank s' s'') : Undisturbed cfg rank s s'' where
  state := fun p hp => (h'.state p hp).trans (h.state p hp)
  precharge := fun p hp => (h'.precharge p hp).trans (h.precharge p hp)
  refresh := fun p hp => (h'.refresh p hp).trans (h.refresh p hp)

theorem hasBank_of_mem {rank : Int} (hrank : 0 ≤ rank ∧ rank < cfg.ranks)
    (hp : p ∈ cfg.banksOf rank) : cfg.HasBank p := by
  obtain ⟨rfl, hbg, hba⟩ := Config.mem_banksOf.mp hp
  exact ⟨hrank, hbg, hba⟩

/-- A command for a bank of another rank. -/
theorem undisturbed_issued {rank : Int} (hbounds : timing.BoundsRefresh dp dr)
    (hrank : 0 ≤ rank ∧ rank < cfg.ranks) (hother : cmd.addr.rank ≠ rank)
    (hcmd : cmd.cmdType.isRankCmd = false) :
    Undisturbed cfg rank s ((s.after cfg cmd).updateTiming cfg timing cmd clk) := by
  have hdelays : ∀ p ∈ cfg.banksOf rank, ∀ d,
      (.precharge, d) ∉ timing.delays cmd p ∧ (.refresh, d) ∉ timing.delays cmd p := by
    intro p hp
    apply hbounds.others
    rw [(Config.mem_banksOf.mp hp).1]
    exact Ne.symm hother
  refine ⟨fun p hp => ?_, fun p hp => ?_, fun p hp => ?_⟩
  · rw [updateTiming_state, after]
    dsimp only
    rw [Table.forEach_of_notMem]
    rw [covered, hcmd, if_neg (by decide), List.mem_singleton]
    rintro rfl
    exact hother (Config.mem_banksOf.mp hp).1
  · exact cmdTiming_issued_of_notMem (hasBank_of_mem hrank hp) fun d => (hdelays p hp d).1
  · exact cmdTiming_issued_of_notMem (hasBank_of_mem hrank hp) fun d => (hdelays p hp d).2

end Undisturbed

section Due

/-- The number of open banks of a rank. -/
def openBanks (cfg : Config) (rank : Int) (s : ChannelState) : Nat :=
  (cfg.banksOf rank).countP fun p => (s.bankStates p).isRowOpen

theorem openBanks_le (rank : Int) : openBanks cfg rank s ≤ cfg.banks := by
  rw [← Config.length_banksOf rank]
  exact List.countP_le_length

/-- A refresh of the rank will have been issued by the cycle `deadline`, if no command of the
queues goes to the rank: all banks are closed and ready by then, or an open one can be
precharged early enough. -/
inductive Due (cfg : Config) (dp dr : Nat) (rank : Int) (clk deadline : Nat) (s : ChannelState) :
    Prop where
  | closed (hclk : clk ≤ deadline)
    (hclosed : ∀ p ∈ cfg.banksOf rank, (s.bankStates p).isRowOpen = false)
    (htime : ∀ p ∈ cfg.banksOf rank, (s.bankStates p).cmdTiming .refresh ≤ deadline)
  | opened {p : BankId} (hp : p ∈ cfg.banksOf rank) (hopen : (s.bankStates p).isRowOpen = true)
    (htime : max clk ((s.bankStates p).cmdTiming .precharge) +
      (openBanks cfg rank s - 1) * (dp + 1) + dr + 1 ≤ deadline)

variable {rank : Int} {deadline : Nat}

theorem Due.clk_le (h : Due cfg dp dr rank clk deadline s) : clk ≤ deadline := by
  cases h with
  | closed hclk => exact hclk
  | opened hp hopen htime => omega

/-- A deadline that leaves one delay for each open bank. -/
theorem due_of_timely (htimely : Timely cfg dp dr clk s) (hrank : 0 ≤ rank ∧ rank < cfg.ranks)
    (hdeadline : clk + openBanks cfg rank s * (dp + 1) + dr ≤ deadline) :
    Due cfg dp dr rank clk deadline s := by
  by_cases hopen : openBanks cfg rank s = 0
  · refine .closed (by omega) (fun p hp => ?_) fun p hp => ?_
    · simpa using List.countP_eq_zero.mp hopen p hp
    · have := htimely.refresh p (hasBank_of_mem hrank hp)
      rw [hopen] at hdeadline
      omega
  · obtain ⟨p, hp, hrow⟩ := List.countP_pos_iff.mp (Nat.pos_of_ne_zero hopen)
    refine .opened hp hrow ?_
    have htime := htimely.precharge p (hasBank_of_mem hrank hp)
    obtain ⟨k, hk⟩ : ∃ k, openBanks cfg rank s = k + 1 :=
      ⟨_, (Nat.succ_pred_eq_of_ne_zero hopen).symm⟩
    rw [hk, Nat.add_sub_cancel]
    rw [hk, Nat.succ_mul] at hdeadline
    omega

theorem openBanks_congr (h : ∀ p ∈ cfg.banksOf rank,
    (s'.bankStates p).state = (s.bankStates p).state) :
    openBanks cfg rank s' = openBanks cfg rank s := by
  apply List.countP_congr
  intro p hp
  rw [BankState.isRowOpen, BankState.isRowOpen, h p hp]

theorem Due.congr (h : Due cfg dp dr rank clk deadline s) (hs : Undisturbed cfg rank s s') :
    Due cfg dp dr rank clk deadline s' := by
  have hrow : ∀ p ∈ cfg.banksOf rank,
      (s'.bankStates p).isRowOpen = (s.bankStates p).isRowOpen := by
    intro p hp
    rw [BankState.isRowOpen, BankState.isRowOpen, hs.state p hp]
  cases h with
  | closed hclk hclosed htime =>
    refine .closed hclk (fun p hp => ?_) fun p hp => ?_
    · rw [hrow p hp]
      exact hclosed p hp
    · rw [hs.refresh p hp]
      exact htime p hp
  | opened hp hopen htime =>
    refine .opened hp ?_ ?_
    · rw [hrow _ hp]
      exact hopen
    · rw [hs.precharge _ hp, openBanks_congr hs.state]
      exact htime

/-- A cycle in which the refresh is not ready. -/
theorem Due.wait (h : Due cfg dp dr rank clk deadline s)
    (hawake : ∀ p, (s.bankStates p).state = .opened ∨ (s.bankStates p).state = .closed)
    (hcmd : cmd.cmdType = .refresh) (hrank : cmd.addr.rank = rank)
    (hready : s.getReadyCommand cfg cmd clk = .ok none) :
    Due cfg dp dr rank (clk + 1) deadline s := by
  obtain ⟨hopened, hclosed⟩ := not_ready_refresh hawake hcmd hready
  subst hrank
  cases h with
  | closed hclk hall htime =>
    obtain ⟨p, hp, hlt⟩ := hclosed hall
    have := htime p hp
    exact .closed (by omega) hall htime
  | opened hp hopen htime =>
    have := hopened _ hp hopen
    refine .opened hp hopen ?_
    omega

/-- Closing one of the open banks. -/
theorem openBanks_precharge (hcmd : cmd.cmdType = .precharge)
    (hp : cmd.bankId ∈ cfg.banksOf rank)
    (hopen : (s.bankStates cmd.bankId).isRowOpen = true) :
    openBanks cfg rank ((s.after cfg cmd).updateTiming cfg timing cmd clk) + 1 =
      openBanks cfg rank s := by
  have hcovered : covered cfg cmd = [cmd.bankId] := by
    rw [covered, hcmd]
    rfl
  apply Table.countP_clear (Config.nodup_banksOf rank) hp hopen
  · rw [BankState.isRowOpen, updateTiming_state, after]
    dsimp only
    rw [Table.forEach_of_mem (by rw [hcovered]; exact List.mem_singleton_self _), BankState.after,
      hcmd]
    rfl
  · intro q _ hne
    rw [BankState.isRowOpen, BankState.isRowOpen, updateTiming_state, after]
    dsimp only
    rw [Table.forEach_of_notMem]
    rw [hcovered, List.mem_singleton]
    exact hne

/-- A cycle in which a bank is precharged for the refresh. -/
theorem Due.precharge (h : Due cfg dp dr rank clk deadline s) (htimely : Timely cfg dp dr clk s)
    (hbounds : timing.BoundsRefresh dp dr) (hrank : 0 ≤ rank ∧ rank < cfg.ranks)
    (hcmd : cmd.cmdType = .precharge) (hp : cmd.bankId ∈ cfg.banksOf rank)
    (hopen : (s.bankStates cmd.bankId).isRowOpen = true) :
    Due cfg dp dr rank (clk + 1) deadline
      ((s.after cfg cmd).updateTiming cfg timing cmd clk) := by
  have hclose := @openBanks_precharge cfg timing s cmd clk rank hcmd hp hopen
  refine due_of_timely ((htimely.issued (Nat.le_refl clk) hbounds).mono (Nat.le_succ clk)) hrank ?_
  cases h with
  | closed _ hclosed _ =>
    rw [hclosed _ hp] at hopen
    cases hopen
  | opened hq hrow htime =>
    rw [← hclose, Nat.add_sub_cancel] at htime
    omega

end Due

end ChannelState

end GcnSim.Dramsim
