import GcnSim.Dramsim.Device

/-!
# The delays between commands

A command of the trace is not issued before the delays of all earlier commands are over, in
every bank it goes to. The delays are those of the tables of `Timing`, except that nothing reads
the list that `same_rank` has for `REFRESH_BANK`: a bank may be activated right after its refresh.
-/

namespace GcnSim.Dramsim

/-- The later command keeps the delays that the earlier one put on its banks. -/
def Waits (cfg : Config) (timing : Timing) (e e' : Nat × Command) : Prop :=
  ∀ p ∈ ChannelState.covered cfg e'.2, cfg.HasBank p →
    ∀ d, (e'.2.cmdType, d) ∈ timing.delays e.2 p → e.1 + d ≤ e'.1

/-- The later command keeps the delays that the tables have after the earlier one, for every bank
it goes to. -/
def Keeps (cfg : Config) (timing : Timing) (e e' : Nat × Command) : Prop :=
  ∀ p ∈ ChannelState.covered cfg e'.2, cfg.HasBank p → ∀ T : Table, T.Concerns e.2 p →
    (T, e.2.cmdType) ≠ (.sameRank, .refreshBank) →
    ∀ d, (e'.2.cmdType, d) ∈ timing.list T e.2.cmdType → e.1 + d ≤ e'.1

namespace ChannelState

variable {cfg : Config} {timing : Timing} {s : ChannelState} {cmd : Command} {clk : Nat}
  {p : BankId}

@[simp] theorem after_cmdTiming :
    ((s.after cfg cmd).bankStates p).cmdTiming = (s.bankStates p).cmdTiming := by
  have hafter : (s.after cfg cmd).bankStates p =
      if p ∈ covered cfg cmd then (s.bankStates p).after cmd else s.bankStates p := rfl
  rw [hafter]
  split
  · rw [BankState.after]
    cases cmd.cmdType <;> rfl
  · rfl

/-- The bank after an issued command. -/
theorem issued_bankStates (hp : cfg.HasBank p) :
    ((s.after cfg cmd).updateTiming cfg timing cmd clk).bankStates p =
      ((s.after cfg cmd).bankStates p).updateTimings clk (timing.delays cmd p) :=
  updateTiming_bankStates hp

theorem cmdTiming_le_issued (hp : cfg.HasBank p) (t : CommandType) :
    (s.bankStates p).cmdTiming t ≤
      (((s.after cfg cmd).updateTiming cfg timing cmd clk).bankStates p).cmdTiming t := by
  rw [issued_bankStates hp]
  refine Nat.le_trans ?_ (BankState.cmdTiming_le_updateTimings t)
  exact Nat.le_of_eq (congrFun after_cmdTiming.symm t)

theorem delay_le_issued (hp : cfg.HasBank p) {t : CommandType} {d : Int}
    (hd : (t, d) ∈ timing.delays cmd p) :
    clk + d ≤
      (((s.after cfg cmd).updateTiming cfg timing cmd clk).bankStates p).cmdTiming t := by
  rw [issued_bankStates hp]
  have hle := le_addDelay clk d
  have hnew : addDelay clk d ≤
      (((s.after cfg cmd).bankStates p).updateTimings clk (timing.delays cmd p)).cmdTiming t :=
    BankState.addDelay_le_updateTimings hd
  omega

end ChannelState

namespace Session

variable {cfg : Config} {timing : Timing}

/-- The commands issued so far keep their delays, and the earliest times of the banks know
them. -/
structure Delayed (cfg : Config) (timing : Timing) (s : ChannelState)
    (trace : List (Nat × Command)) : Prop where
  pairs : trace.Pairwise (Waits cfg timing)
  kept : ∀ e ∈ trace, ∀ p, cfg.HasBank p → ∀ t d, (t, d) ∈ timing.delays e.2 p →
    e.1 + d ≤ (s.bankStates p).cmdTiming t

theorem Delayed.issue {clk : Nat} {s : ChannelState} {trace : List (Nat × Command)}
    {cmd : Command} (hissues : Issues cfg clk s cmd) (h : Delayed cfg timing s trace) :
    Delayed cfg timing ((s.after cfg cmd).updateTiming cfg timing cmd clk)
      (trace ++ [(clk, cmd)]) := by
  refine ⟨List.pairwise_append.mpr ⟨h.pairs, List.pairwise_singleton _ _, ?_⟩, ?_⟩
  · intro e he e' he' p hp hbank d hd
    rw [List.mem_singleton.mp he'] at hp hd ⊢
    have hold := h.kept e he p hbank _ d hd
    have hready := hissues.ready.timing p hp
    dsimp only at hold ⊢
    omega
  · intro e he p hbank t d hd
    rcases List.mem_append.mp he with he | he
    · have hold := h.kept e he p hbank t d hd
      have hmono := @ChannelState.cmdTiming_le_issued cfg timing s cmd clk p hbank t
      omega
    · rw [List.mem_singleton.mp he] at hd ⊢
      exact ChannelState.delay_le_issued hbank hd

theorem run_waits (hsafe : cfg.Safe timing) (actions : List Action) :
    ∃ s, run cfg timing actions = .ok s ∧
      s.controller.cmdTrace.Pairwise (Waits cfg timing) := by
  obtain ⟨s, hrun, hdelayed⟩ := run_rule_trace hsafe
    (I := fun _ s trace => Delayed cfg timing s trace)
    ⟨List.Pairwise.nil, fun _ h => (List.not_mem_nil h).elim⟩
    (fun _ _ _ _ hissues h => h.issue hissues) (fun _ _ _ _ h => ⟨h.pairs, h.kept⟩)
    (fun _ _ _ _ h => ⟨h.pairs, h.kept⟩) (fun _ _ _ h => h) actions
  exact ⟨s, hrun, hdelayed.pairs⟩

/-- In every run every two commands of the trace keep the delays that the tables of `Timing` have
for them, except for those of `same_rank` after a `REFRESH_BANK`. -/
theorem run_keeps {c : TimingParams} (hsafe : cfg.Safe c.timing) (actions : List Action) :
    ∃ s, run cfg c.timing actions = .ok s ∧
      s.controller.cmdTrace.Pairwise (Keeps cfg c.timing) := by
  obtain ⟨s, hrun, hwaits⟩ := run_waits hsafe actions
  refine ⟨s, hrun, hwaits.imp fun {e e'} h p hp hbank T hT hread d hd => ?_⟩
  exact h p hp hbank d (TimingParams.mem_delays_iff.mpr ⟨T, hT, hread, hd⟩)

/-- The HBM memory with the refresh of a bank in every second cycle. -/
def staggered : Config := { hbm2 with
  refreshPolicy := .bankLevelStaggered
  tREFIb := 2 }

theorem staggered_safe : staggered.Safe hbm2Timing.timing where
  interval := by decide
  epoch := by decide
  awake := rfl
  spaced := fun _ => @TimingParams.Spaced.spacesBursts _ staggered hbm2_spaced

/-- A bank is activated in the cycle after its refresh, for which `same_rank` has 20 cycles. -/
theorem run_keeps_staggered :
    ∃ s, run staggered hbm2Timing.timing
        (.clockTick :: .add 0 false :: List.replicate 3 .clockTick) = .ok s ∧
      s.controller.cmdTrace.Pairwise (Keeps staggered hbm2Timing.timing) ∧
      s.controller.cmdTrace.map (fun e => (e.1, e.2.cmdType, e.2.bankId)) =
        [(2, .refreshBank, ⟨0, 0, 0⟩), (3, .activate, ⟨0, 0, 0⟩)] ∧
      (.activate, 20) ∈ hbm2Timing.timing.list .sameRank .refreshBank := by
  obtain ⟨s, hrun, hkeeps⟩ := run_keeps staggered_safe
    (.clockTick :: .add 0 false :: List.replicate 3 .clockTick)
  have htrace : (run staggered hbm2Timing.timing
      (.clockTick :: .add 0 false :: List.replicate 3 .clockTick)).toOption.map
        (fun s => s.controller.cmdTrace.map fun e => (e.1, e.2.cmdType, e.2.bankId)) =
      some [(2, .refreshBank, ⟨0, 0, 0⟩), (3, .activate, ⟨0, 0, 0⟩)] := by
    decide +kernel
  rw [hrun] at htrace
  exact ⟨s, hrun, hkeeps, Option.some.inj htrace, by decide⟩

end Session

end GcnSim.Dramsim
