import GcnSim.Dramsim.ChannelState

/-!
# The refresh counter

Every `refresh_interval_` cycles a refresh is put into the queue of the channel: of the first
rank that is awake, of the ranks in turn, or of the banks in turn.
-/

namespace GcnSim.Dramsim

/-- `class Refresh`. -/
structure Refresh where
  clk : Nat
  nextRank : Nat
  nextBg : Nat
  nextBank : Nat
  deriving DecidableEq, Repr

namespace Refresh

/-- The constructor. -/
def init : Refresh where
  clk := 0
  nextRank := 0
  nextBg := 0
  nextBank := 0

variable (cfg : Config)

/-- `refresh_interval_`. -/
def refreshInterval : Nat :=
  match cfg.refreshPolicy with
  | .rankLevelSimultaneous => cfg.tREFI
  | .bankLevelStaggered => cfg.tREFIb
  | .rankLevelStaggered => cfg.tREFI / cfg.ranks

/-- The bank that `BANK_LEVEL_STAGGERED` refreshes next. -/
def nextBankId (r : Refresh) : BankId := ⟨r.nextRank, r.nextBg, r.nextBank⟩

/-- `IterateNext`. -/
def iterateNext (r : Refresh) : Refresh :=
  match cfg.refreshPolicy with
  | .rankLevelStaggered => { r with nextRank := (r.nextRank + 1) % cfg.ranks }
  | .bankLevelStaggered =>
    let r := { r with nextBg := (r.nextBg + 1) % cfg.bankgroups }
    if r.nextBg = 0 then
      let r := { r with nextBank := (r.nextBank + 1) % cfg.banksPerGroup }
      if r.nextBank = 0 then { r with nextRank := (r.nextRank + 1) % cfg.ranks } else r
    else r
  | .rankLevelSimultaneous => r

/-- `InsertRefresh`. The loop of the simultaneous policy breaks at the first rank that is
awake. -/
def insertRefresh (r : Refresh) (s : ChannelState) : Refresh × ChannelState :=
  match cfg.refreshPolicy with
  | .rankLevelSimultaneous =>
    match (upTo cfg.ranks).find? fun i => !s.rankIsSref i with
    | some i => (r, s.rankNeedRefresh i true)
    | none => (r, s)
  | .rankLevelStaggered =>
    (r.iterateNext cfg,
      if !s.rankIsSref r.nextRank then s.rankNeedRefresh r.nextRank true else s)
  | .bankLevelStaggered =>
    (r.iterateNext cfg,
      if !s.rankIsSref r.nextRank then s.bankNeedRefresh r.nextBankId true else s)

/-- What `ClockTick` does if there is an interval. -/
def advance (r : Refresh) (s : ChannelState) : Refresh × ChannelState :=
  let p := if r.clk % refreshInterval cfg = 0 ∧ 0 < r.clk then r.insertRefresh cfg s else (r, s)
  ({ p.1 with clk := p.1.clk + 1 }, p.2)

/-- `ClockTick`: `clk_ % refresh_interval_` ends the process for an interval of zero. -/
def clockTick (r : Refresh) (s : ChannelState) : Except Abort (Refresh × ChannelState) :=
  if refreshInterval cfg = 0 then .error .divisionByZero else .ok (r.advance cfg s)

variable {cfg}

theorem insertRefresh_refreshQ (r : Refresh) (s : ChannelState) :
    ∃ new, (r.insertRefresh cfg s).2 = { s with refreshQ := s.refreshQ ++ new } ∧
      ∀ ref ∈ new, ref.cmdType.isRefresh = true := by
  have hrank : ∀ rank, ∀ ref ∈ [ChannelState.refreshCommand rank],
      ref.cmdType.isRefresh = true := fun rank ref h => by rw [List.mem_singleton.mp h]; rfl
  have hbank : ∀ p, ∀ ref ∈ [ChannelState.refreshBankCommand p],
      ref.cmdType.isRefresh = true := fun p ref h => by rw [List.mem_singleton.mp h]; rfl
  have hnone : ∃ new, s = { s with refreshQ := s.refreshQ ++ new } ∧
      ∀ ref ∈ new, ref.cmdType.isRefresh = true :=
    ⟨[], by rw [List.append_nil], fun _ h => (List.not_mem_nil h).elim⟩
  rw [insertRefresh]
  split
  · split
    · exact ⟨_, rfl, hrank _⟩
    · exact hnone
  · dsimp only
    split
    · exact ⟨_, rfl, hrank _⟩
    · exact hnone
  · dsimp only
    split
    · exact ⟨_, rfl, hbank _⟩
    · exact hnone

/-- A tick of the counter puts refreshes at the end of the queue and changes nothing else. -/
theorem advance_refreshQ (r : Refresh) (s : ChannelState) :
    ∃ new, (r.advance cfg s).2 = { s with refreshQ := s.refreshQ ++ new } ∧
      ∀ ref ∈ new, ref.cmdType.isRefresh = true := by
  rw [advance]
  dsimp only
  split
  · exact insertRefresh_refreshQ r s
  · exact ⟨[], by rw [List.append_nil], fun _ h => (List.not_mem_nil h).elim⟩

end Refresh

end GcnSim.Dramsim
