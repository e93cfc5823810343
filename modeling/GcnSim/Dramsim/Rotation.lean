import GcnSim.Dramsim.Session
import GcnSim.Dramsim.Shipped

/-!
# The refreshes in turn

`Refresh` asks for a refresh at every multiple of its interval, of the ranks or banks in turn.
What it has asked for is issued in that order, and none is lost or issued twice. With
`RANK_LEVEL_SIMULTANEOUS` the loop stops at the first rank that is awake, so it is always rank 0
that is refreshed, and no other rank ever is.
-/

namespace GcnSim.Dramsim

namespace Refresh

variable (cfg : Config)

/-- The refresh that is due after `k` others; `RANK_LEVEL_SIMULTANEOUS` refreshes rank 0 every
time. -/
def due (k : Nat) : Command :=
  match cfg.refreshPolicy with
  | .rankLevelSimultaneous => ChannelState.refreshCommand 0
  | .rankLevelStaggered => ChannelState.refreshCommand ↑(k % cfg.ranks)
  | .bankLevelStaggered => ChannelState.refreshBankCommand
    ⟨↑(k / cfg.bankgroups / cfg.banksPerGroup % cfg.ranks), ↑(k % cfg.bankgroups),
      ↑(k / cfg.bankgroups % cfg.banksPerGroup)⟩

/-- The number of refreshes asked for in the first `clk` cycles. -/
def asked (clk : Nat) : Nat := (clk - 1) / refreshInterval cfg

/-- The refreshes asked for in the first `clk` cycles. -/
def schedule (clk : Nat) : List Command := (List.range (asked cfg clk)).map (due cfg)

/-- The counter after `k` refreshes. -/
structure PointsAt (r : Refresh) (k : Nat) : Prop where
  rank : cfg.refreshPolicy = .rankLevelStaggered → r.nextRank = k % cfg.ranks
  bank : cfg.refreshPolicy = .bankLevelStaggered → r.nextBg = k % cfg.bankgroups ∧
    r.nextBank = k / cfg.bankgroups % cfg.banksPerGroup ∧
    r.nextRank = k / cfg.bankgroups / cfg.banksPerGroup % cfg.ranks

variable {cfg} {r : Refresh} {k : Nat}

/-- A digit of a counter that goes to zero carries into the next one. -/
theorem succ_div_mod (k n m : Nat) : (k + 1) / n % m =
    if (k + 1) % n = 0 then (k / n % m + 1) % m else k / n % m := by
  rw [Nat.succ_div]
  simp only [Nat.dvd_iff_mod_eq_zero]
  split
  · rw [Nat.mod_add_mod]
  · rfl

@[simp] theorem iterateNext_clk : (r.iterateNext cfg).clk = r.clk := by
  rw [iterateNext]
  split
  · rfl
  · dsimp only
    split
    · split <;> rfl
    · rfl
  · rfl

@[simp] theorem insertRefresh_clk (s : ChannelState) :
    (r.insertRefresh cfg s).1.clk = r.clk := by
  rw [insertRefresh]
  split
  · split <;> rfl
  · exact iterateNext_clk
  · exact iterateNext_clk

@[simp] theorem advance_clk (s : ChannelState) : (r.advance cfg s).1.clk = r.clk + 1 := by
  rw [advance]
  dsimp only
  split
  · rw [insertRefresh_clk]
  · rfl

theorem PointsAt.iterateNext (h : PointsAt cfg r k) :
    PointsAt cfg (r.iterateNext cfg) (k + 1) := by
  rw [Refresh.iterateNext]
  cases hpolicy : cfg.refreshPolicy with
  | rankLevelSimultaneous =>
    refine ⟨fun h => ?_, fun h => ?_⟩ <;> rw [hpolicy] at h <;> cases h
  | rankLevelStaggered =>
    refine ⟨fun _ => ?_, fun h => ?_⟩
    · dsimp only
      rw [h.rank hpolicy, Nat.mod_add_mod]
    · rw [hpolicy] at h
      cases h
  | bankLevelStaggered =>
    obtain ⟨hbg, hbank, hrank⟩ := h.bank hpolicy
    have hbg' : (r.nextBg + 1) % cfg.bankgroups = (k + 1) % cfg.bankgroups := by
      rw [hbg, Nat.mod_add_mod]
    have hbank' := succ_div_mod k cfg.bankgroups cfg.banksPerGroup
    have hcarry := @Nat.succ_div k cfg.bankgroups
    simp only [Nat.dvd_iff_mod_eq_zero] at hcarry
    refine ⟨fun h => ?_, fun _ => ?_⟩
    · rw [hpolicy] at h
      cases h
    · dsimp only
      rw [hbg']
      by_cases hzero : (k + 1) % cfg.bankgroups = 0
      · rw [if_pos hzero] at hbank' hcarry
        rw [if_pos hzero, hbank, ← hbank']
        have hrank' := succ_div_mod (k / cfg.bankgroups) cfg.banksPerGroup cfg.ranks
        rw [hcarry, hrank']
        by_cases hlast : (k / cfg.bankgroups + 1) % cfg.banksPerGroup = 0
        · rw [if_pos hlast, if_pos hlast]
          exact ⟨rfl, rfl, by rw [hrank]⟩
        · rw [if_neg hlast, if_neg hlast]
          exact ⟨rfl, rfl, hrank⟩
      · rw [if_neg hzero] at hbank' hcarry
        rw [if_neg hzero, hbank', hcarry]
        exact ⟨rfl, hbank, by rw [Nat.add_zero]; exact hrank⟩

/-- While all ranks are awake, what is due is put at the end of the queue. -/
theorem PointsAt.insertRefresh (h : PointsAt cfg r k) {s : ChannelState}
    (hawake : ∀ i, s.rankIsSref i = false) :
    (r.insertRefresh cfg s).2 = { s with refreshQ := s.refreshQ ++ [due cfg k] } ∧
      PointsAt cfg (r.insertRefresh cfg s).1 (k + 1) := by
  rw [Refresh.insertRefresh, due]
  cases hpolicy : cfg.refreshPolicy with
  | rankLevelSimultaneous =>
    have hfirst : (upTo cfg.ranks).find? (fun i => !s.rankIsSref i) = some 0 := by
      obtain ⟨n, hn⟩ : ∃ n, cfg.ranks = n + 1 :=
        ⟨cfg.ranks - 1, by have := cfg.raMask_lt; omega⟩
      rw [upTo, hn, List.range_succ_eq_map, List.map_cons]
      exact List.find?_cons_of_pos (by rw [hawake]; rfl)
    dsimp only
    rw [hfirst]
    refine ⟨rfl, ⟨fun h => ?_, fun h => ?_⟩⟩ <;> rw [hpolicy] at h <;> cases h
  | rankLevelStaggered =>
    dsimp only
    rw [hawake, h.rank hpolicy]
    exact ⟨rfl, h.iterateNext⟩
  | bankLevelStaggered =>
    obtain ⟨hbg, hbank, hrank⟩ := h.bank hpolicy
    dsimp only
    rw [hawake, nextBankId, hbg, hbank, hrank]
    exact ⟨rfl, h.iterateNext⟩

/-- A tick of the counter. -/
theorem PointsAt.advance (h : PointsAt cfg r (asked cfg r.clk)) {s : ChannelState}
    (hawake : ∀ i, s.rankIsSref i = false) :
    ∃ new, (r.advance cfg s).2 = { s with refreshQ := s.refreshQ ++ new } ∧
      schedule cfg (r.clk + 1) = schedule cfg r.clk ++ new ∧
      PointsAt cfg (r.advance cfg s).1 (asked cfg (r.clk + 1)) := by
  rw [Refresh.advance]
  dsimp only
  by_cases htime : r.clk % refreshInterval cfg = 0 ∧ 0 < r.clk
  · rw [if_pos htime]
    obtain ⟨hq, hpoints⟩ := h.insertRefresh hawake
    have hnext : asked cfg (r.clk + 1) = asked cfg r.clk + 1 := by
      have hsucc := @Nat.succ_div (r.clk - 1) (refreshInterval cfg)
      rw [Nat.sub_add_cancel htime.2, if_pos (Nat.dvd_of_mod_eq_zero htime.1)] at hsucc
      exact hsucc
    refine ⟨[due cfg (asked cfg r.clk)], hq, ?_, ?_⟩
    · rw [schedule, hnext, List.range_succ, List.map_append]
      rfl
    · rw [hnext]
      exact ⟨hpoints.rank, hpoints.bank⟩
  · rw [if_neg htime]
    have hsame : asked cfg (r.clk + 1) = asked cfg r.clk := by
      rw [asked, asked, Nat.add_sub_cancel]
      rcases Nat.eq_zero_or_pos r.clk with hzero | hpos
      · rw [hzero]
      · have hsucc := @Nat.succ_div (r.clk - 1) (refreshInterval cfg)
        rw [Nat.sub_add_cancel hpos, if_neg, Nat.add_zero] at hsucc
        · exact hsucc
        · exact fun hdvd => htime ⟨Nat.mod_eq_zero_of_dvd hdvd, hpos⟩
    refine ⟨[], by rw [List.append_nil], ?_, ?_⟩
    · rw [schedule, hsame, List.append_nil]
      rfl
    · rw [hsame]
      exact ⟨h.rank, h.bank⟩

end Refresh

namespace Controller

variable {cfg : Config} {timing : Timing} {c c' : Controller}

section Clock

@[simp] theorem completed_refresh {cmd : Command} :
    (c.completed cfg cmd).refresh = c.refresh := by
  rw [completed]
  split
  · rfl
  · split <;> rfl

/-- The commands of a cycle leave the clocks alone. -/
theorem Issue.frame (h : Issue cfg timing c c') : c'.clk = c.clk ∧ c'.refresh = c.refresh := by
  obtain ⟨d, hfront, hqueue⟩ := h
  have hd : d.clk = c.clk ∧ d.refresh = c.refresh := by
    cases hfront with
    | idle => exact ⟨rfl, rfl⟩
    | wait => exact ⟨rfl, rfl⟩
    | issue => exact ⟨completed_clk, completed_refresh⟩
  induction hqueue with
  | refl => exact hd
  | tail _ hmove ih =>
    cases hmove with
    | nextQueue => exact ih
    | issueQueued => exact ⟨completed_clk.trans ih.1, completed_refresh.trans ih.2⟩

theorem addTransaction_frame {a : Nat} {w : Bool} :
    (c.addTransaction cfg a w).clk = c.clk ∧ (c.addTransaction cfg a w).refresh = c.refresh ∧
      (c.addTransaction cfg a w).channelState = c.channelState ∧
      (c.addTransaction cfg a w).cmdTrace = c.cmdTrace := by
  rcases @addTransaction_cases cfg c a w with
    ⟨-, h⟩ | ⟨-, -, -, h⟩ | ⟨-, -, unified, read, write, -, -, h⟩ <;> rw [h] <;>
    exact ⟨rfl, rfl, rfl, rfl⟩

/-- The two clocks of a controller go together. -/
theorem Sound.clockTick_clk (hs : Sound cfg c) (hsafe : cfg.Safe timing)
    (h : c.clockTick cfg timing = .ok c') :
    c'.clk = c.clk + 1 ∧ c'.refresh = (c.refresh.advance cfg c.channelState).1 := by
  obtain ⟨d, hd, htick⟩ := hs.clockTick_issue hsafe
  obtain ⟨hclk, hrefresh⟩ := hd.frame
  obtain ⟨unified, read, write, n, q, heq, -⟩ := @scheduleTransaction_frame cfg (d.countIdle cfg)
  rw [htick, heq] at h
  cases h
  exact ⟨congrArg (· + 1) hclk, hrefresh⟩

end Clock

/-- The refreshes of a command trace. -/
def refreshes (trace : List (Nat × Command)) : List Command :=
  (trace.map Prod.snd).filter fun cmd => cmd.cmdType.isRefresh

theorem refreshes_concat (trace : List (Nat × Command)) (clk : Nat) (cmd : Command) :
    refreshes (trace ++ [(clk, cmd)]) =
      refreshes trace ++ if cmd.cmdType.isRefresh then [cmd] else [] := by
  rw [refreshes, List.map_append, List.filter_append]
  congr 1
  cases h : cmd.cmdType.isRefresh with
  | false => exact List.filter_cons_of_neg (by simp [h])
  | true => exact List.filter_cons_of_pos (by simp [h])

/-- The refreshes that were issued and those that wait are what `Refresh` has asked for. -/
structure Rotates (cfg : Config) (c : Controller) : Prop where
  points : c.refresh.PointsAt cfg (Refresh.asked cfg c.refresh.clk)
  issued : refreshes c.cmdTrace ++ c.channelState.refreshQ =
    Refresh.schedule cfg c.refresh.clk

theorem rotates_init (cfg : Config) : Rotates cfg .init where
  points := by
    rw [show Refresh.asked cfg init.refresh.clk = 0 from Nat.zero_div _]
    refine ⟨fun _ => (Nat.zero_mod _).symm, fun _ => ⟨(Nat.zero_mod _).symm, ?_, ?_⟩⟩
    · rw [Nat.zero_div, Nat.zero_mod]
      rfl
    · rw [Nat.zero_div, Nat.zero_div, Nat.zero_mod]
      rfl
  issued := by
    rw [Refresh.schedule, show Refresh.asked cfg init.refresh.clk = 0 from Nat.zero_div _]
    rfl

/-- Only a refresh leaves the queue, and it is the first one. -/
theorem refreshQ_issued {cmd : Command} {q : CommandQueue} :
    (issued cfg timing cmd { c with cmdQueue := q }).channelState.refreshQ =
      if cmd.cmdType = .refresh then
        c.channelState.refreshQ.eraseP fun ref => decide (ref.addr.rank = cmd.addr.rank)
      else if cmd.cmdType = .refreshBank then
        c.channelState.refreshQ.eraseP fun ref => decide (ref.bankId = cmd.bankId)
      else c.channelState.refreshQ := by
  dsimp only [Controller.issued]
  rw [ChannelState.updateTiming_refreshQ]
  rfl

theorem Rotates.issue_other {cmd : Command} {q : CommandQueue} (h : Rotates cfg c)
    (hkind : cmd.cmdType.isRefresh = false) :
    Rotates cfg (Controller.issued cfg timing cmd { c with cmdQueue := q }) := by
  have hrefresh : (Controller.issued cfg timing cmd { c with cmdQueue := q }).refresh =
      c.refresh := completed_refresh
  refine ⟨by rw [hrefresh]; exact h.points, ?_⟩
  have hne : cmd.cmdType ≠ .refresh ∧ cmd.cmdType ≠ .refreshBank := by
    revert hkind
    cases cmd.cmdType <;> decide
  rw [hrefresh, refreshQ_issued, if_neg hne.1, if_neg hne.2]
  dsimp only [Controller.issued]
  rw [refreshes_concat, hkind, if_neg (by decide), List.append_nil]
  exact h.issued

theorem Rotates.addTransaction (h : Rotates cfg c) {a : Nat} {w : Bool} :
    Rotates cfg (c.addTransaction cfg a w) := by
  obtain ⟨-, hrefresh, hchannel, htrace⟩ := @addTransaction_frame cfg c a w
  refine ⟨by rw [hrefresh]; exact h.points, ?_⟩
  rw [hrefresh, hchannel, htrace]
  exact h.issued

/-- Every move keeps the rotation. -/
theorem Rotates.move (h : Rotates cfg c) (hs : Sound cfg c) (hmove : Move cfg timing c c') :
    Rotates cfg c' := by
  cases hmove with
  | tickRefresh =>
    obtain ⟨new, hq, hschedule, hpoints⟩ := h.points.advance hs.rankAwake
    have hclk' : (c.refreshed cfg).refresh.clk = c.refresh.clk + 1 :=
      Refresh.advance_clk c.channelState
    refine ⟨by rw [hclk']; exact hpoints, ?_⟩
    rw [hclk', hschedule, ← h.issued, List.append_assoc]
    congr 1
    change (c.refresh.advance cfg c.channelState).2.refreshQ = _
    rw [hq]
  | @issueRefresh ref cmd rest hwait hready =>
    have href : ref ∈ c.channelState.refreshQ := hwait ▸ List.mem_cons_self
    rcases hs.ready_refresh href hready with rfl | hcmd
    · -- the refresh at the front leaves the queue for the trace
      have hkind := hs.refreshQ cmd href
      have hrefresh : ∀ q, (Controller.issued cfg timing cmd { c with cmdQueue := q }).refresh =
          c.refresh := fun q => completed_refresh
      have hrest : ∀ q, (Controller.issued cfg timing cmd
          { c with cmdQueue := q }).channelState.refreshQ = rest := by
        intro q
        rw [refreshQ_issued, hwait]
        split
        · exact List.eraseP_cons_of_pos (decide_eq_true rfl)
        · rename_i hne
          have hbank : cmd.cmdType = .refreshBank := by
            revert hkind hne
            cases cmd.cmdType <;> decide
          rw [if_pos hbank]
          exact List.eraseP_cons_of_pos (decide_eq_true rfl)
      refine ⟨by rw [hrefresh]; exact h.points, ?_⟩
      rw [hrefresh, hrest]
      dsimp only [Controller.issued]
      rw [refreshes_concat, hkind, if_pos rfl, ← h.issued, hwait, List.append_assoc]
      rfl
    · exact h.issue_other (by rw [hcmd]; rfl)
  | @issueQueued i before behind entry cmd hqueue hready _ _ =>
    have hmem : entry ∈ c.cmdQueue.queues i := by
      rw [hqueue]
      simp
    apply h.issue_other
    rcases (hs.ready_entry hmem hready).2 with rfl | hcmd | hcmd
    · obtain ⟨⟨t, rfl⟩, -⟩ := hs.entry i cmd hmem
      have hrw : (transToCommand cfg t).cmdType.isReadWrite = true := transToCommand_isReadWrite
      revert hrw
      cases (transToCommand cfg t).cmdType <;> decide
    · rw [hcmd]
      rfl
    · rw [hcmd]
      rfl
  | schedule =>
    obtain ⟨unified, read, write, n, q, heq, -⟩ := @scheduleTransaction_frame cfg c
    rw [heq]
    exact ⟨h.points, h.issued⟩
  | _ => exact ⟨h.points, h.issued⟩

end Controller

namespace Session

open Controller

variable {cfg : Config} {timing : Timing}

/-- The clocks of a controller count its cycles. -/
theorem run_clk (hsafe : cfg.Safe timing) {actions : List Action} {s : Session}
    (h : run cfg timing actions = .ok s) :
    s.controller.clk = actions.count .clockTick ∧
      s.controller.refresh.clk = actions.count .clockTick := by
  have hfrom : ∀ (actions : List Action) (p : Session), Sound cfg p.controller →
      Transition.runM (step cfg timing) p actions = .ok s →
      s.controller.clk = p.controller.clk + actions.count .clockTick ∧
        s.controller.refresh.clk = p.controller.refresh.clk + actions.count .clockTick := by
    intro actions
    induction actions with
    | nil =>
      intro p _ hp
      cases hp
      exact ⟨rfl, rfl⟩
    | cons action actions ih =>
      intro p hs hp
      rw [Transition.runM] at hp
      split at hp
      · rename_i p' hstep
        cases action with
        | clockTick =>
          rw [step] at hstep
          split at hstep
          · cases hstep
          · rename_i c' htick
            cases hstep
            obtain ⟨hclk, hrefresh⟩ := ih _ (hs.clockTick hsafe htick) hp
            obtain ⟨hc, hr⟩ := hs.clockTick_clk hsafe htick
            have hr' : c'.refresh.clk = p.controller.refresh.clk + 1 := by
              rw [hr, Refresh.advance_clk]
            rw [List.count_cons_self]
            dsimp only at hclk hrefresh
            omega
        | add a w =>
          rw [List.count_cons_of_ne Action.noConfusion]
          rw [step] at hstep
          split at hstep
          · cases hstep
            obtain ⟨hclk, hrefresh⟩ := ih _ (hs.addTransaction a w) hp
            obtain ⟨hc, hr, -⟩ := @addTransaction_frame cfg p.controller a w
            dsimp only at hclk hrefresh
            rw [hc] at hclk
            rw [hr] at hrefresh
            exact ⟨hclk, hrefresh⟩
          · cases hstep
            exact ih _ hs hp
        | returnDone clk =>
          rw [List.count_cons_of_ne Action.noConfusion]
          cases hstep
          have hclocks := ih ⟨_, _, _⟩ (hs.returnDoneTrans clk) hp
          exact hclocks
      · cases hp
  have h0 := hfrom actions init (sound_init cfg) h
  rw [show init.controller.clk = 0 from rfl, show init.controller.refresh.clk = 0 from rfl,
    Nat.zero_add] at h0
  exact h0

/-- After `n` cycles the refreshes that were issued, followed by those that wait, are those due
first in the rotation, as many as the interval has gone by before the last cycle. -/
theorem run_refreshes (hsafe : cfg.Safe timing) (actions : List Action) :
    ∃ s k, run cfg timing actions = .ok s ∧ s.controller.clk = actions.count .clockTick ∧
      k * Refresh.refreshInterval cfg ≤ s.controller.clk - 1 ∧
      s.controller.clk - 1 < (k + 1) * Refresh.refreshInterval cfg ∧
      refreshes s.controller.cmdTrace ++ s.controller.channelState.refreshQ =
        (List.range k).map (Refresh.due cfg) := by
  obtain ⟨s, hrun, -, hrotates⟩ := run_rule hsafe (I := fun s => Rotates cfg s.controller)
    (rotates_init cfg) (fun _ _ _ _ hI _ => hI.addTransaction)
    (fun _ _ _ hI => ⟨hI.points, hI.issued⟩)
    (fun _ _ hs hI hmove => hI.move hs hmove) actions
  obtain ⟨hclk, hrefresh⟩ := run_clk hsafe hrun
  refine ⟨s, Refresh.asked cfg s.controller.clk, hrun, hclk, Nat.div_mul_le_self _ _, ?_, ?_⟩
  · rw [Refresh.asked, Nat.mul_comm]
    exact Nat.lt_mul_div_succ _ hsafe.interval
  · rw [hrotates.issued, hrefresh, ← hclk]
    rfl

theorem run_refreshes_hbm2 :
    ∃ s k, run hbm2 hbm2Timing.timing [.clockTick, .add 64 false, .clockTick] = .ok s ∧
      s.controller.clk = List.count Action.clockTick [.clockTick, .add 64 false, .clockTick] ∧
      k * Refresh.refreshInterval hbm2 ≤ s.controller.clk - 1 ∧
      s.controller.clk - 1 < (k + 1) * Refresh.refreshInterval hbm2 ∧
      refreshes s.controller.cmdTrace ++ s.controller.channelState.refreshQ =
        (List.range k).map (Refresh.due hbm2) :=
  run_refreshes hbm2_safe _

end Session

end GcnSim.Dramsim
