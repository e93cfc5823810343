import GcnSim.Dramsim.Device
import GcnSim.Lib.SlidingWindow

/-!
# The activation windows

`four_aw_` and `thirty_two_aw_` hold the expiry times of the last activations of a rank. They
keep a rank from being activated more than four times within `tFAW` cycles and, for GDDR, more
than 32 times within `t32AW` cycles.
-/

namespace GcnSim.Dramsim

/-- The cycles in which a rank has been activated. -/
def activations (rank : Int) (trace : List (Nat × Command)) : List Nat :=
  (trace.filter fun e => decide (e.2.cmdType = .activate ∧ e.2.addr.rank = rank)).map Prod.fst

/-- The activations with the expiry times that `UpdateActivationTimes` stores. -/
def expiries (window : Int) (times : List Nat) : List (Nat × Nat) :=
  times.map fun t => (t, addDelay t window)

theorem activations_concat (rank : Int) (trace : List (Nat × Command)) (clk : Nat)
    (cmd : Command) : activations rank (trace ++ [(clk, cmd)]) =
      activations rank trace ++
        if cmd.cmdType = .activate ∧ cmd.addr.rank = rank then [clk] else [] := by
  rw [activations, List.filter_append, List.map_append]
  congr 1
  by_cases h : cmd.cmdType = .activate ∧ cmd.addr.rank = rank
  · rw [if_pos h, List.filter_cons_of_pos (by simpa using h)]
    rfl
  · rw [if_neg h, List.filter_cons_of_neg (by simpa using h)]
    rfl

namespace ChannelState

variable {cfg : Config} {timing : Timing} {s : ChannelState} {cmd : Command} {clk : Nat}

/-- Only an activation changes the windows of its rank. -/
theorem issued_fourAw (rank : Int) :
    ((s.after cfg cmd).updateTiming cfg timing cmd clk).fourAw rank =
      if cmd.cmdType = .activate ∧ cmd.addr.rank = rank then
        SlidingWindow.push clk (addDelay clk cfg.tFAW) (s.fourAw rank)
      else s.fourAw rank := by
  obtain ⟨banks, h⟩ := @updateTiming_frame cfg (s.after cfg cmd) cmd clk timing
  rw [h]
  by_cases hact : cmd.cmdType = .activate
  · rw [if_pos hact]
    dsimp only [updateActivationTimes]
    rw [Function.update_apply]
    by_cases hrank : rank = cmd.addr.rank
    · rw [if_pos hrank, if_pos ⟨hact, hrank.symm⟩, hrank]
      rfl
    · rw [if_neg hrank, if_neg fun h => hrank h.2.symm]
      rfl
  · rw [if_neg hact, if_neg fun h => hact h.1]
    rfl

theorem issued_thirtyTwoAw (hgddr : cfg.isGddr = true) (rank : Int) :
    ((s.after cfg cmd).updateTiming cfg timing cmd clk).thirtyTwoAw rank =
      if cmd.cmdType = .activate ∧ cmd.addr.rank = rank then
        SlidingWindow.push clk (addDelay clk cfg.t32AW) (s.thirtyTwoAw rank)
      else s.thirtyTwoAw rank := by
  obtain ⟨banks, h⟩ := @updateTiming_frame cfg (s.after cfg cmd) cmd clk timing
  rw [h]
  by_cases hact : cmd.cmdType = .activate
  · rw [if_pos hact]
    dsimp only [updateActivationTimes]
    rw [hgddr, if_pos rfl, Function.update_apply]
    by_cases hrank : rank = cmd.addr.rank
    · rw [if_pos hrank, if_pos ⟨hact, hrank.symm⟩, hrank]
      rfl
    · rw [if_neg hrank, if_neg fun h => hrank h.2.symm]
      rfl
  · rw [if_neg hact, if_neg fun h => hact h.1]
    rfl

theorem admits_of_isFawReady {rank : Int} (h : s.isFawReady rank clk = true) :
    SlidingWindow.Admits 4 clk (s.fourAw rank) := by
  intro first rest heq hlt
  rw [isFawReady, heq] at h
  rw [heq]
  simp only [Bool.not_eq_true', Bool.and_eq_false_iff, decide_eq_false_iff_not] at h
  omega

theorem admits_of_is32AwReady {rank : Int} (h : s.is32AwReady rank clk = true) :
    SlidingWindow.Admits 32 clk (s.thirtyTwoAw rank) := by
  intro first rest heq hlt
  rw [is32AwReady, heq] at h
  rw [heq]
  simp only [Bool.not_eq_true', Bool.and_eq_false_iff, decide_eq_false_iff_not] at h
  omega

/-- `ActivationWindowOk` asks for room in both windows. -/
theorem admits_of_activationWindowOk {rank : Int}
    (h : s.activationWindowOk cfg rank clk = true) :
    SlidingWindow.Admits 4 clk (s.fourAw rank) ∧
      (cfg.isGddr = true → SlidingWindow.Admits 32 clk (s.thirtyTwoAw rank)) := by
  rw [activationWindowOk] at h
  split at h
  · split at h
    · cases h
    · rename_i hfaw
      exact ⟨admits_of_isFawReady (by simpa using hfaw), fun _ => admits_of_is32AwReady h⟩
  · rename_i hgddr
    exact ⟨admits_of_isFawReady h, fun h => (hgddr h).elim⟩

end ChannelState

namespace Session

variable {cfg : Config} {timing : Timing}

/-- The windows of the ranks follow the trace. -/
structure Windows (cfg : Config) (clk : Nat) (s : ChannelState) (trace : List (Nat × Command)) :
    Prop where
  four : ∀ rank, SlidingWindow.Tracks 4 clk (expiries cfg.tFAW (activations rank trace))
    (s.fourAw rank)
  thirtyTwo : cfg.isGddr = true → ∀ rank,
    SlidingWindow.Tracks 32 clk (expiries cfg.t32AW (activations rank trace))
      (s.thirtyTwoAw rank)

/-- One of the windows of a rank after a command. -/
theorem tracks_issue {capacity clk : Nat} {window : Int} {times new : List Nat}
    {trace : List (Nat × Command)} {cmd : Command} {rank : Int}
    (h : SlidingWindow.Tracks capacity clk (expiries window (activations rank trace)) times)
    (hpos : 0 < capacity)
    (hadmits : cmd.cmdType = .activate → cmd.addr.rank = rank →
      SlidingWindow.Admits capacity clk times)
    (hnew : new = if cmd.cmdType = .activate ∧ cmd.addr.rank = rank then
      SlidingWindow.push clk (addDelay clk window) times else times) :
    SlidingWindow.Tracks capacity clk
      (expiries window (activations rank (trace ++ [(clk, cmd)]))) new := by
  rw [activations_concat, expiries, List.map_append, hnew]
  split
  · rename_i hact
    exact h.push hpos (hadmits hact.1 hact.2) _
  · rw [List.map_nil, List.append_nil]
    exact h

theorem Windows.issue {clk : Nat} {s : ChannelState} {trace : List (Nat × Command)}
    {cmd : Command} (hissues : Issues cfg clk s cmd) (h : Windows cfg clk s trace) :
    Windows cfg clk ((s.after cfg cmd).updateTiming cfg timing cmd clk)
      (trace ++ [(clk, cmd)]) where
  four := by
    intro rank
    refine tracks_issue (h.four rank) (by decide) ?_ (ChannelState.issued_fourAw rank)
    rintro hact rfl
    exact (ChannelState.admits_of_activationWindowOk (hissues.ready.window hact)).1
  thirtyTwo := by
    intro hgddr rank
    refine tracks_issue (h.thirtyTwo hgddr rank) (by decide) ?_
      (ChannelState.issued_thirtyTwoAw hgddr rank)
    rintro hact rfl
    exact (ChannelState.admits_of_activationWindowOk (hissues.ready.window hact)).2 hgddr

/-- Events that a window tracks are spread out. -/
theorem spread_of_tracks {capacity clk : Nat} {window : Int} {times list : List Nat}
    (h : SlidingWindow.Tracks capacity clk (expiries window list) times) (i t t' : Nat)
    (ht : list[i]? = some t) (ht' : list[i + capacity]? = some t') : t + window ≤ t' := by
  have hspaced := h.spaced i (t, addDelay t window) (t', addDelay t' window)
    (by rw [expiries, List.getElem?_map, ht]; rfl)
    (by rw [expiries, List.getElem?_map, ht']; rfl)
  have hle := le_addDelay t window
  dsimp only at hspaced
  omega

/-- In every run the fourth activation of a rank after another comes `tFAW` cycles later or
more, and for GDDR the 32nd `t32AW` cycles. -/
theorem run_activations (hsafe : cfg.Safe timing) (actions : List Action) :
    ∃ s, run cfg timing actions = .ok s ∧ ∀ (rank : Int) (i t t' : Nat),
      (activations rank s.controller.cmdTrace)[i]? = some t →
      ((activations rank s.controller.cmdTrace)[i + 4]? = some t' → t + cfg.tFAW ≤ t') ∧
      (cfg.isGddr = true → (activations rank s.controller.cmdTrace)[i + 32]? = some t' →
        t + cfg.t32AW ≤ t') := by
  obtain ⟨s, hrun, hwindows⟩ := run_rule_trace hsafe
    (I := fun clk s trace => Windows cfg clk s trace)
    ⟨fun _ => SlidingWindow.tracks_nil 4 0, fun _ _ => SlidingWindow.tracks_nil 32 0⟩
    (fun _ _ _ _ hissues h => h.issue hissues) (fun _ _ _ _ h => ⟨h.four, h.thirtyTwo⟩)
    (fun _ _ _ _ h => ⟨h.four, h.thirtyTwo⟩)
    (fun clk _ _ h => ⟨fun rank => (h.four rank).mono (Nat.le_succ clk),
      fun hgddr rank => (h.thirtyTwo hgddr rank).mono (Nat.le_succ clk)⟩) actions
  refine ⟨s, hrun, fun rank i t t' ht => ⟨fun ht' => ?_, fun hgddr ht' => ?_⟩⟩
  · exact spread_of_tracks (hwindows.four rank) i t t' ht ht'
  · exact spread_of_tracks (hwindows.thirtyTwo hgddr rank) i t t' ht ht'

theorem run_activations_hbm2 :
    ∃ s, run hbm2 hbm2Timing.timing [.add 64 false, .clockTick, .clockTick] = .ok s ∧
      ∀ (rank : Int) (i t t' : Nat), (activations rank s.controller.cmdTrace)[i]? = some t →
      ((activations rank s.controller.cmdTrace)[i + 4]? = some t' → t + hbm2.tFAW ≤ t') ∧
      (hbm2.isGddr = true → (activations rank s.controller.cmdTrace)[i + 32]? = some t' →
        t + hbm2.t32AW ≤ t') :=
  run_activations hbm2_safe _

end Session

end GcnSim.Dramsim
