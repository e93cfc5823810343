import GcnSim.Dramsim.Deadline
import GcnSim.Dramsim.Rotation

/-!
# Refreshes come in time

While a refresh of a rank waits, the queues of the rank are left out and its banks are closed
one by one. So it is issued within a bound that does not depend on the traffic; when the bound
is below the refresh interval, no refresh ever waits for another one.
-/

namespace GcnSim.Dramsim

open ChannelState Relation

namespace Controller

variable {cfg : Config} {timing : Timing} {c c' : Controller} {dp dr : Nat}

section Lock

/-- The queue of every bank of the rank is left out. -/
theorem mem_getRefQIndices {ref : Command} {p : BankId} (href : ref.cmdType = .refresh)
    (hp : cfg.HasBank p) (hrank : p.rank = ref.addr.rank) :
    CommandQueue.getQueueIndex cfg p ∈ CommandQueue.getRefQIndices cfg ref := by
  rw [CommandQueue.getRefQIndices, if_pos href, CommandQueue.getQueueIndex]
  cases hstructure : cfg.queueStructure with
  | perRank =>
    dsimp only
    rw [hrank]
    exact List.mem_singleton_self _
  | perBank =>
    dsimp only
    have hlocal : 0 ≤ p.bankgroup * cfg.banksPerGroup + p.bank ∧
        p.bankgroup * cfg.banksPerGroup + p.bank < cfg.banks := by
      obtain ⟨hbg, hbg'⟩ := hp.bankgroup
      obtain ⟨hba, hba'⟩ := hp.bank
      have hnonneg := Int.mul_nonneg hbg (Int.natCast_nonneg cfg.banksPerGroup)
      have hlast : (p.bankgroup + 1) * (cfg.banksPerGroup : Int) ≤
          cfg.bankgroups * cfg.banksPerGroup :=
        Int.mul_le_mul_of_nonneg_right (by omega) (Int.natCast_nonneg _)
      rw [Config.banks, Int.natCast_mul]
      rw [Int.add_mul, Int.one_mul] at hlast
      constructor <;> omega
    rw [List.mem_filter, decide_eq_true_eq, mem_upTo, CommandQueue.numQueues, hstructure,
      Int.add_assoc]
    obtain ⟨hrk, hrk'⟩ := hp.rank
    refine ⟨⟨?_, ?_⟩, ?_⟩
    · have := Int.mul_nonneg hrk (Int.natCast_nonneg cfg.banks)
      omega
    · have hlast : (p.rank + 1) * (cfg.banks : Int) ≤ cfg.ranks * cfg.banks :=
        Int.mul_le_mul_of_nonneg_right (by omega) (Int.natCast_nonneg _)
      dsimp only
      rw [Int.natCast_mul, Int.mul_comm (cfg.banks : Int)]
      rw [Int.add_mul, Int.one_mul] at hlast
      omega
    · rw [Int.add_comm, Int.add_mul_ediv_right _ _ (by omega),
        Int.ediv_eq_zero_of_lt hlocal.1 hlocal.2, Int.zero_add, hrank]

/-- The queues that are left out are those of the first waiting refresh. -/
def Lock (c : Controller) (cfg : Config) : Prop :=
  (c.cmdQueue.isInRef = false ∧ c.cmdQueue.refQIndices = []) ∨
    c.cmdQueue.isInRef = true ∧ ∃ ref rest, c.channelState.refreshQ = ref :: rest ∧
      c.cmdQueue.refQIndices = CommandQueue.getRefQIndices cfg ref

/-- The queues that are left out once a refresh has been taken up. -/
theorem Lock.startRefresh (h : c.Lock cfg) {ref : Command} {rest : List Command}
    (hwait : c.channelState.refreshQ = ref :: rest) :
    (c.cmdQueue.startRefresh cfg ref).isInRef = true ∧
      (c.cmdQueue.startRefresh cfg ref).refQIndices = CommandQueue.getRefQIndices cfg ref := by
  rw [CommandQueue.startRefresh]
  rcases h with ⟨hfree, hnil⟩ | ⟨hlocked, ref', rest', hwait', hindices⟩
  · rw [hfree, hnil]
    exact ⟨rfl, rfl⟩
  · rw [if_pos hlocked]
    rw [hwait] at hwait'
    cases hwait'
    exact ⟨hlocked, hindices⟩

end Lock

section Quiet

/-- The cycles of the refreshes of a trace. -/
def refreshTimes (trace : List (Nat × Command)) : List Nat :=
  (trace.filter fun e => e.2.cmdType.isRefresh).map Prod.fst

theorem refreshTimes_concat (trace : List (Nat × Command)) (clk : Nat) (cmd : Command) :
    refreshTimes (trace ++ [(clk, cmd)]) =
      refreshTimes trace ++ if cmd.cmdType.isRefresh then [clk] else [] := by
  rw [refreshTimes, List.filter_append, List.map_append]
  congr 1
  cases h : cmd.cmdType.isRefresh with
  | false =>
    rw [List.filter_cons_of_neg (by simp [h])]
    rfl
  | true =>
    rw [List.filter_cons_of_pos (by simp [h])]
    rfl

theorem length_refreshTimes (trace : List (Nat × Command)) :
    (refreshTimes trace).length = (refreshes trace).length := by
  rw [refreshTimes, refreshes, List.length_map, ← List.countP_eq_length_filter,
    ← List.countP_eq_length_filter, List.countP_map]
  rfl

/-- What the commands of the queues leave alone. -/
structure Quiet (cfg : Config) (dp dr : Nat) (c c' : Controller) : Prop where
  clk : c'.clk = c.clk
  refreshQ : c'.channelState.refreshQ = c.channelState.refreshQ
  times : refreshTimes c'.cmdTrace = refreshTimes c.cmdTrace
  isInRef : c'.cmdQueue.isInRef = c.cmdQueue.isInRef
  refQIndices : c'.cmdQueue.refQIndices = c.cmdQueue.refQIndices
  timely : ∀ later, c.clk ≤ later → Timely cfg dp dr later c.channelState →
    Timely cfg dp dr later c'.channelState

/-- A command of the queues is no refresh and goes to the bank of its entry. -/
theorem Sound.entry_command (hs : Sound cfg c) {i : Int} {entry cmd : Command}
    (hmem : entry ∈ c.cmdQueue.queues i)
    (hready : c.channelState.getReadyCommand cfg entry c.clk = .ok (some cmd)) :
    cmd.cmdType.isRefresh = false ∧ cmd.cmdType.isRankCmd = false ∧ cmd.bankId = entry.bankId ∧
      cfg.HasBank entry.bankId := by
  obtain ⟨⟨t, ht⟩, -⟩ := hs.entry i entry hmem
  have hrw : entry.cmdType.isReadWrite = true := by
    rw [ht]
    exact transToCommand_isReadWrite
  obtain ⟨hsame, hcmd⟩ := hs.ready_entry hmem hready
  have hkind : cmd.cmdType.isRefresh = false ∧ cmd.cmdType.isRankCmd = false := by
    rcases hcmd with rfl | h | h
    · revert hrw
      cases cmd.cmdType <;> decide
    · rw [h]
      decide
    · rw [h]
      decide
  refine ⟨hkind.1, hkind.2, ?_, ?_⟩
  · rw [hsame]
    rfl
  · rw [ht]
    exact hasBank_transToCommand

theorem taken_frame (q : CommandQueue) (cmd : Command) :
    (q.taken cfg cmd).isInRef = q.isInRef ∧ (q.taken cfg cmd).refQIndices = q.refQIndices := by
  rw [CommandQueue.taken]
  split <;> exact ⟨rfl, rfl⟩

/-- A command that is no refresh. -/
theorem quiet_issued {cmd : Command} {q : CommandQueue} (hbounds : timing.BoundsRefresh dp dr)
    (hcmd : cmd.cmdType.isRefresh = false) (hin : q.isInRef = c.cmdQueue.isInRef)
    (hindices : q.refQIndices = c.cmdQueue.refQIndices) :
    Quiet cfg dp dr c (issued cfg timing cmd { c with cmdQueue := q }) where
  clk := completed_clk
  refreshQ := by
    have hne : cmd.cmdType ≠ .refresh ∧ cmd.cmdType ≠ .refreshBank := by
      revert hcmd
      cases cmd.cmdType <;> decide
    rw [refreshQ_issued, if_neg hne.1, if_neg hne.2]
  times := by
    dsimp only [issued]
    rw [refreshTimes_concat, hcmd, if_neg (by decide), List.append_nil]
  isInRef := by
    simp only [issued, completed_cmdQueue]
    exact hin
  refQIndices := by
    simp only [issued, completed_cmdQueue]
    exact hindices
  timely := fun _ hle h => h.issued hle hbounds

theorem Quiet.trans {c'' : Controller} (h : Quiet cfg dp dr c c')
    (h' : Quiet cfg dp dr c' c'') : Quiet cfg dp dr c c'' where
  clk := h'.clk.trans h.clk
  refreshQ := h'.refreshQ.trans h.refreshQ
  times := h'.times.trans h.times
  isInRef := h'.isInRef.trans h.isInRef
  refQIndices := h'.refQIndices.trans h.refQIndices
  timely := fun later hle ht => h'.timely later (h.clk ▸ hle) (h.timely later hle ht)

theorem QueueMove.quiet (hbounds : timing.BoundsRefresh dp dr) (hs : Sound cfg c)
    (h : QueueMove cfg timing c c') : Quiet cfg dp dr c c' := by
  cases h with
  | nextQueue => exact ⟨rfl, rfl, rfl, rfl, rfl, fun _ _ h => h⟩
  | @issueQueued i before behind entry cmd hqueue hready _ _ =>
    have hmem : entry ∈ c.cmdQueue.queues i := by
      rw [hqueue]
      simp
    exact quiet_issued hbounds (hs.entry_command hmem hready).1 (taken_frame _ _).1
      (taken_frame _ _).2

/-- The commands of the queues leave a rank alone whose refresh waits. -/
theorem QueueMove.undisturbed {rank : Int} {ref : Command} (hbounds : timing.BoundsRefresh dp dr)
    (hs : Sound cfg c) (hrank : 0 ≤ rank ∧ rank < cfg.ranks) (href : ref.cmdType = .refresh)
    (hrefRank : ref.addr.rank = rank) (hlocked : c.cmdQueue.isInRef = true)
    (hindices : c.cmdQueue.refQIndices = CommandQueue.getRefQIndices cfg ref)
    (h : QueueMove cfg timing c c') :
    Undisturbed cfg rank c.channelState c'.channelState := by
  cases h with
  | nextQueue => exact .refl cfg rank _
  | @issueQueued i before behind entry cmd hqueue hready _ hfree =>
    have hmem : entry ∈ c.cmdQueue.queues i := by
      rw [hqueue]
      simp
    obtain ⟨-, hkind, hbank, hhas⟩ := hs.entry_command hmem hready
    refine undisturbed_issued hbounds hrank (fun hsame => hfree ⟨hlocked, ?_⟩) hkind
    have hentry : entry.bankId.rank = ref.addr.rank := by
      rw [hrefRank, ← hsame, ← hbank]
      rfl
    rw [hindices, ← (hs.entry i entry hmem).2]
    exact mem_getRefQIndices href hhas hentry

/-- So do chains of them. -/
theorem quiet_of_queueMoves (hbounds : timing.BoundsRefresh dp dr) (hs : Sound cfg c)
    (h : ReflTransGen (QueueMove cfg timing) c c') :
    Quiet cfg dp dr c c' ∧ Sound cfg c' ∧ ∀ rank ref, 0 ≤ rank ∧ rank < (cfg.ranks : Int) →
      ref.cmdType = .refresh → ref.addr.rank = rank → c.cmdQueue.isInRef = true →
      c.cmdQueue.refQIndices = CommandQueue.getRefQIndices cfg ref →
      Undisturbed cfg rank c.channelState c'.channelState := by
  induction h with
  | refl =>
    exact ⟨⟨rfl, rfl, rfl, rfl, rfl, fun _ _ h => h⟩, hs, fun _ _ _ _ _ _ _ => .refl cfg _ _⟩
  | @tail b d _ hlast ih =>
    obtain ⟨hquiet, hsound, hundisturbed⟩ := ih
    refine ⟨hquiet.trans (hlast.quiet hbounds hsound), hsound.move hlast.move, ?_⟩
    intro rank ref hrank href hrefRank hlocked hindices
    refine (hundisturbed rank ref hrank href hrefRank hlocked hindices).trans ?_
    exact hlast.undisturbed hbounds hsound hrank href hrefRank
      (hquiet.isInRef.trans hlocked) (hquiet.refQIndices.trans hindices)

end Quiet

section Prompt

/-- The longest time a refresh of a rank waits. -/
def response (cfg : Config) (dp dr : Nat) : Nat := cfg.banks * (dp + 1) + dr

/-- The `n`-th refresh waits at the front since its time has come, and meets its deadline. -/
structure OnTime (cfg : Config) (dp dr clk n : Nat) (s : ChannelState) (ref : Command) : Prop where
  refresh : ref.cmdType = .refresh
  rank : 0 ≤ ref.addr.rank ∧ ref.addr.rank < cfg.ranks
  started : (n + 1) * Refresh.refreshInterval cfg ≤ clk
  due : Due cfg dp dr ref.addr.rank clk ((n + 1) * Refresh.refreshInterval cfg +
    response cfg dp dr) s

/-- At most one refresh waits, and all of them come in time. -/
structure Prompt (cfg : Config) (dp dr clk : Nat) (c : Controller) : Prop where
  timely : Timely cfg dp dr clk c.channelState
  lock : c.Lock cfg
  waiting : c.channelState.refreshQ = [] ∨ ∃ ref, c.channelState.refreshQ = [ref] ∧
    OnTime cfg dp dr clk (refreshTimes c.cmdTrace).length c.channelState ref
  times : ∀ i t, (refreshTimes c.cmdTrace)[i]? = some t →
    (i + 1) * Refresh.refreshInterval cfg ≤ t ∧
      t ≤ (i + 1) * Refresh.refreshInterval cfg + response cfg dp dr

theorem prompt_init (cfg : Config) (dp dr : Nat) : Prompt cfg dp dr 0 .init where
  timely := ⟨fun _ _ => Nat.zero_le _, fun _ _ => Nat.zero_le _⟩
  lock := .inl ⟨rfl, rfl⟩
  waiting := .inl rfl
  times := fun i t h => by cases h

variable {clk : Nat}

/-- Without bank refreshes what is due is a refresh of a rank. -/
theorem due_rank (hpolicy : cfg.refreshPolicy ≠ .bankLevelStaggered) (k : Nat) :
    (Refresh.due cfg k).cmdType = .refresh ∧ 0 ≤ (Refresh.due cfg k).addr.rank ∧
      (Refresh.due cfg k).addr.rank < cfg.ranks := by
  have hranks := cfg.raMask_lt
  rw [Refresh.due]
  split
  · refine ⟨rfl, Int.le_refl 0, ?_⟩
    dsimp only [refreshCommand]
    omega
  · exact ⟨rfl, Int.natCast_nonneg _, Int.ofNat_lt.mpr (Nat.mod_lt _ (by omega))⟩
  · exact (hpolicy (by assumption)).elim

/-- A refresh whose time comes finds no other one waiting. -/
theorem Prompt.refreshed (h : Prompt cfg dp dr c.clk c) (hs : Sound cfg c)
    (hr : Rotates cfg c) (hclk : c.refresh.clk = c.clk)
    (hpolicy : cfg.refreshPolicy ≠ .bankLevelStaggered)
    (hinterval : response cfg dp dr < Refresh.refreshInterval cfg) :
    Prompt cfg dp dr c.clk (c.refreshed cfg) := by
  obtain ⟨new, hq, hschedule, -⟩ := hr.points.advance hs.rankAwake
  have hchannel : (c.refreshed cfg).channelState =
      { c.channelState with refreshQ := c.channelState.refreshQ ++ new } := hq
  have hissued := congrArg List.length hr.issued
  have hnew := congrArg List.length hschedule
  rw [List.length_append, ← length_refreshTimes, Refresh.schedule, List.length_map,
    List.length_range, hclk] at hissued
  rw [List.length_append, Refresh.schedule, Refresh.schedule, List.length_map, List.length_map,
    List.length_range, List.length_range, hclk] at hnew
  have hnow : Refresh.asked cfg (c.clk + 1) = c.clk / Refresh.refreshInterval cfg := rfl
  have hbefore : Refresh.asked cfg c.clk = (c.clk - 1) / Refresh.refreshInterval cfg := rfl
  have htimely : Timely cfg dp dr c.clk (c.refreshed cfg).channelState := by
    rw [hchannel]
    exact ⟨h.timely.precharge, h.timely.refresh⟩
  have hpos : 0 < Refresh.refreshInterval cfg := Nat.zero_lt_of_lt hinterval
  rcases h.waiting with hnil | ⟨ref, hone, hontime⟩
  · rw [hnil, List.length_nil, Nat.add_zero] at hissued
    rw [hnil, List.nil_append] at hchannel
    have hlock : (c.refreshed cfg).Lock cfg := by
      rcases h.lock with hfree | ⟨-, ref, rest, hwait, -⟩
      · exact .inl hfree
      · rw [hnil] at hwait
        cases hwait
    refine ⟨htimely, hlock, ?_, h.times⟩
    cases new with
    | nil => exact .inl (by rw [hchannel])
    | cons ref rest =>
      -- the queue was empty, so exactly one refresh is asked for
      have hstep : c.clk / Refresh.refreshInterval cfg ≤
          (c.clk - 1) / Refresh.refreshInterval cfg + 1 := by
        rw [← Nat.add_div_right _ hpos]
        exact Nat.div_le_div_right (by omega)
      rw [List.length_cons] at hnew
      have hrest : rest = [] := List.length_eq_zero_iff.mp (by omega)
      have hn : c.clk / Refresh.refreshInterval cfg = (refreshTimes c.cmdTrace).length + 1 := by
        rw [hrest, List.length_nil] at hnew
        omega
      have hstarted := Nat.div_mul_le_self c.clk (Refresh.refreshInterval cfg)
      rw [hn] at hstarted
      have hlast : c.clk ≤ ((refreshTimes c.cmdTrace).length + 1) *
          Refresh.refreshInterval cfg := by
        have hlt := Nat.lt_mul_div_succ (c.clk - 1) hpos
        rw [← hbefore, ← hissued, Nat.mul_comm] at hlt
        omega
      have hmem : ref ∈ Refresh.schedule cfg (c.refresh.clk + 1) := by
        rw [hschedule]
        simp
      obtain ⟨k, -, hk⟩ := List.mem_map.mp hmem
      obtain ⟨hkind, hrank⟩ := due_rank hpolicy k
      rw [hk] at hkind hrank
      refine .inr ⟨ref, by rw [hchannel, hrest], hkind, hrank, hstarted, ?_⟩
      apply due_of_timely htimely hrank
      have hopen := @openBanks_le cfg (c.refreshed cfg).channelState ref.addr.rank
      have hmul := Nat.mul_le_mul_right (dp + 1) hopen
      change _ ≤ ((refreshTimes c.cmdTrace).length + 1) * _ + response cfg dp dr
      rw [response]
      omega
  · rw [hone, List.length_singleton] at hissued
    have hnone : new = [] := by
      have hdue := hontime.due.clk_le
      have hlt : c.clk / Refresh.refreshInterval cfg < (refreshTimes c.cmdTrace).length + 2 := by
        rw [Nat.div_lt_iff_lt_mul hpos, Nat.succ_mul]
        omega
      exact List.length_eq_zero_iff.mp (by omega)
    rw [hnone, List.append_nil] at hchannel
    refine ⟨htimely, ?_, .inr ⟨ref, by rw [hchannel]; exact hone, ?_⟩, h.times⟩
    · rcases h.lock with hfree | ⟨hlocked, ref', rest, hwait, hindices⟩
      · exact .inl hfree
      · exact .inr ⟨hlocked, ref', rest, by rw [hchannel]; exact hwait, hindices⟩
    · rw [hchannel]
      exact hontime

/-- The commands of the queues do not keep a refresh waiting. -/
theorem Prompt.queueMoves (h : Prompt cfg dp dr clk c) (hclk : c.clk ≤ clk) (hs : Sound cfg c)
    (hbounds : timing.BoundsRefresh dp dr)
    (hlocked : ∀ ref, c.channelState.refreshQ = [ref] → c.cmdQueue.isInRef = true ∧
      c.cmdQueue.refQIndices = CommandQueue.getRefQIndices cfg ref)
    (hmoves : ReflTransGen (QueueMove cfg timing) c c') : Prompt cfg dp dr clk c' := by
  obtain ⟨hquiet, hsound, hundisturbed⟩ := quiet_of_queueMoves hbounds hs hmoves
  refine ⟨hquiet.timely clk hclk h.timely, ?_, ?_, by rw [hquiet.times]; exact h.times⟩
  · rw [Lock, hquiet.isInRef, hquiet.refQIndices, hquiet.refreshQ]
    exact h.lock
  · rw [hquiet.refreshQ, hquiet.times]
    rcases h.waiting with hnil | ⟨ref, hone, hontime⟩
    · exact .inl hnil
    · obtain ⟨hin, hindices⟩ := hlocked ref hone
      exact .inr ⟨ref, hone, hontime.refresh, hontime.rank, hontime.started,
        hontime.due.congr (hundisturbed _ ref hontime.rank hontime.refresh rfl hin hindices)⟩

/-- What a refresh of a rank needs first: the refresh itself, or a precharge of an open bank. -/
theorem Sound.front_command (hs : Sound cfg c) {ref cmd : Command}
    (hkind : ref.cmdType = .refresh)
    (hready : c.channelState.getReadyCommand cfg ref c.clk = .ok (some cmd)) :
    cmd = ref ∨ cmd.cmdType = .precharge ∧ cmd.bankId ∈ cfg.banksOf ref.addr.rank ∧
      (c.channelState.bankStates cmd.bankId).isRowOpen = true := by
  rcases getReadyCommand_eq_some hready with
    ⟨hrank, -⟩ | ⟨-, ⟨p, hp, t, hne, hrequired, -, rfl⟩ | ⟨rfl, -⟩⟩
  · rw [hkind] at hrank
    cases hrank
  · right
    rw [BankState.requiredType_of_isRefresh (hs.awake p) (by rw [hkind]; rfl)] at hrequired
    have hbank : (⟨ref.addr.rank, p.bankgroup, p.bank⟩ : BankId) = p := by
      rw [← (Config.mem_banksOf.mp hp).1]
    have hopened : ¬ (c.channelState.bankStates p).state = .closed := by
      intro hclosed
      rw [if_pos hclosed] at hrequired
      cases hrequired
      exact hne rfl
    rw [if_neg hopened] at hrequired
    cases hrequired
    refine ⟨rfl, ?_, ?_⟩
    · change (⟨ref.addr.rank, p.bankgroup, p.bank⟩ : BankId) ∈ _
      rw [hbank]
      exact hp
    · change (c.channelState.bankStates ⟨ref.addr.rank, p.bankgroup, p.bank⟩).isRowOpen = true
      rw [hbank, BankState.isRowOpen, (hs.awake p).resolve_right hopened]
      rfl
  · exact .inl rfl

/-- A refresh that is issued leaves the queue empty. -/
theorem Prompt.issue_refresh {ref : Command} {q : CommandQueue} (h : Prompt cfg dp dr c.clk c)
    (hbounds : timing.BoundsRefresh dp dr) (hone : c.channelState.refreshQ = [ref])
    (hontime : OnTime cfg dp dr c.clk (refreshTimes c.cmdTrace).length c.channelState ref)
    (hq : q.isInRef = false ∧ q.refQIndices = []) :
    Prompt cfg dp dr (c.clk + 1) (issued cfg timing ref { c with cmdQueue := q }) ∧
      (issued cfg timing ref { c with cmdQueue := q }).channelState.refreshQ = [] := by
  have hnil : (issued cfg timing ref { c with cmdQueue := q }).channelState.refreshQ = [] := by
    rw [refreshQ_issued, if_pos hontime.refresh, hone]
    exact List.eraseP_cons_of_pos (decide_eq_true rfl)
  refine ⟨⟨?_, ?_, .inl hnil, ?_⟩, hnil⟩
  · exact (h.timely.issued (Nat.le_refl _) hbounds).mono (Nat.le_succ _)
  · left
    simp only [issued, completed_cmdQueue]
    exact hq
  · dsimp only [issued]
    rw [refreshTimes_concat, hontime.refresh,
      if_pos (show CommandType.refresh.isRefresh = true from rfl)]
    intro i t ht
    by_cases hi : i < (refreshTimes c.cmdTrace).length
    · rw [List.getElem?_append_left hi] at ht
      exact h.times i t ht
    · have hlength := (List.getElem?_eq_some_iff.mp ht).1
      rw [List.length_append, List.length_singleton] at hlength
      have hlast : i = (refreshTimes c.cmdTrace).length := by omega
      rw [hlast, List.getElem?_concat_length, Option.some.injEq] at ht
      rw [hlast, ← ht]
      exact ⟨hontime.started, hontime.due.clk_le⟩

/-- A precharge for the waiting refresh. -/
theorem Prompt.issue_precharge {ref cmd : Command} (h : Prompt cfg dp dr c.clk c)
    (hbounds : timing.BoundsRefresh dp dr) (hone : c.channelState.refreshQ = [ref])
    (hontime : OnTime cfg dp dr c.clk (refreshTimes c.cmdTrace).length c.channelState ref)
    (hpre : cmd.cmdType = .precharge) (hbank : cmd.bankId ∈ cfg.banksOf ref.addr.rank)
    (hopen : (c.channelState.bankStates cmd.bankId).isRowOpen = true) :
    Prompt cfg dp dr (c.clk + 1) (issued cfg timing cmd c) ∧
      (issued cfg timing cmd c).channelState.refreshQ = [ref] := by
  have hquiet : Quiet cfg dp dr c (issued cfg timing cmd { c with cmdQueue := c.cmdQueue }) :=
    quiet_issued hbounds (by rw [hpre]; rfl) rfl rfl
  refine ⟨⟨?_, ?_, ?_, by rw [hquiet.times]; exact h.times⟩, hquiet.refreshQ.trans hone⟩
  · exact (h.timely.issued (Nat.le_refl _) hbounds).mono (Nat.le_succ _)
  · rw [Lock, hquiet.isInRef, hquiet.refQIndices, hquiet.refreshQ]
    exact h.lock
  · rw [hquiet.refreshQ, hquiet.times]
    refine .inr ⟨ref, hone, hontime.refresh, hontime.rank, ?_, ?_⟩
    · have := hontime.started
      omega
    · exact hontime.due.precharge h.timely hbounds hontime.rank hpre hbank hopen

/-- The commands of a cycle bring a waiting refresh nearer. -/
theorem Prompt.issue (h : Prompt cfg dp dr c.clk c) (hs : Sound cfg c)
    (hbounds : timing.BoundsRefresh dp dr) (hissue : Issue cfg timing c c') :
    Prompt cfg dp dr (c.clk + 1) c' := by
  obtain ⟨d, hfront, hmoves⟩ := hissue
  have hd := hs.moves hfront.moves
  cases hfront with
  | idle hnone =>
    have hnext : Prompt cfg dp dr (c.clk + 1) c :=
      ⟨h.timely.mono (Nat.le_succ _), h.lock, .inl hnone, h.times⟩
    refine hnext.queueMoves (Nat.le_succ _) hs hbounds (fun ref hone => ?_) hmoves
    rw [hnone] at hone
    cases hone
  | @wait ref rest hwait hready =>
    obtain ⟨hin, hindices⟩ := h.lock.startRefresh hwait
    obtain ⟨ref', hone, hontime⟩ := h.waiting.resolve_left (by rw [hwait]; nofun)
    cases hwait.symm.trans hone
    have hnext : Prompt cfg dp dr (c.clk + 1)
        { c with cmdQueue := c.cmdQueue.startRefresh cfg ref } := by
      refine ⟨h.timely.mono (Nat.le_succ _), .inr ⟨hin, ref, [], hwait, hindices⟩,
        .inr ⟨ref, hwait, hontime.refresh, hontime.rank, ?_, ?_⟩, h.times⟩
      · exact Nat.le_succ_of_le hontime.started
      · exact hontime.due.wait hs.awake hontime.refresh rfl hready
    refine hnext.queueMoves (Nat.le_succ _) hd hbounds (fun ref' hone' => ?_) hmoves
    cases hwait.symm.trans hone'
    exact ⟨hin, hindices⟩
  | @issue ref cmd rest hwait hready =>
    obtain ⟨hin, hindices⟩ := h.lock.startRefresh hwait
    obtain ⟨ref', hone, hontime⟩ := h.waiting.resolve_left (by rw [hwait]; nofun)
    cases hwait.symm.trans hone
    rcases hs.front_command hontime.refresh hready with rfl | ⟨hpre, hbank, hopen⟩
    · rw [hontime.refresh] at hmoves hd
      obtain ⟨hnext, hnil⟩ := @Prompt.issue_refresh cfg timing c dp dr cmd
        (c.cmdQueue.startRefresh cfg cmd).endRefresh h hbounds hone hontime ⟨rfl, rfl⟩
      refine hnext.queueMoves (Nat.le_succ_of_le (Nat.le_of_eq completed_clk)) hd hbounds
        (fun ref' hone' => ?_) hmoves
      rw [hnil] at hone'
      cases hone'
    · rw [hpre] at hmoves hd
      have hstart : Prompt cfg dp dr c.clk
          { c with cmdQueue := c.cmdQueue.startRefresh cfg ref } :=
        ⟨h.timely, .inr ⟨hin, ref, [], hwait, hindices⟩, h.waiting, h.times⟩
      obtain ⟨hnext, hsame⟩ := @Prompt.issue_precharge cfg timing
        { c with cmdQueue := c.cmdQueue.startRefresh cfg ref } dp dr ref cmd hstart hbounds hone
        hontime hpre hbank hopen
      refine hnext.queueMoves (Nat.le_succ_of_le (Nat.le_of_eq completed_clk)) hd hbounds
        (fun ref' hone' => ?_) hmoves
      cases hsame.symm.trans hone'
      simp only [issued, completed_cmdQueue]
      exact ⟨hin, hindices⟩

/-- The transactions have no part in it. -/
theorem Prompt.congr (h : Prompt cfg dp dr clk c)
    (hbanks : c'.channelState.bankStates = c.channelState.bankStates)
    (hq : c'.channelState.refreshQ = c.channelState.refreshQ)
    (hin : c'.cmdQueue.isInRef = c.cmdQueue.isInRef)
    (hindices : c'.cmdQueue.refQIndices = c.cmdQueue.refQIndices)
    (htrace : c'.cmdTrace = c.cmdTrace) : Prompt cfg dp dr clk c' := by
  refine ⟨?_, ?_, ?_, by rw [htrace]; exact h.times⟩
  · refine ⟨?_, ?_⟩ <;> rw [hbanks]
    · exact h.timely.precharge
    · exact h.timely.refresh
  · rw [Lock, hin, hindices, hq]
    exact h.lock
  · rw [hq, htrace]
    refine h.waiting.imp_right fun ⟨ref, hone, hontime⟩ => ?_
    refine ⟨ref, hone, hontime.refresh, hontime.rank, hontime.started, hontime.due.congr ?_⟩
    refine ⟨?_, ?_, ?_⟩ <;> rw [hbanks] <;> exact fun _ _ => rfl

/-- A cycle. -/
theorem Prompt.clockTick (h : Prompt cfg dp dr c.clk c) (hs : Sound cfg c) (hr : Rotates cfg c)
    (hclk : c.refresh.clk = c.clk) (hsafe : cfg.Safe timing)
    (hbounds : timing.BoundsRefresh dp dr)
    (hpolicy : cfg.refreshPolicy ≠ .bankLevelStaggered)
    (hinterval : response cfg dp dr < Refresh.refreshInterval cfg)
    (htick : c.clockTick cfg timing = .ok c') : Prompt cfg dp dr c'.clk c' := by
  obtain ⟨d, hissue, hd⟩ := hs.clockTick_issue hsafe
  have hstart : Move cfg timing c (c.refreshed cfg) := .tickRefresh c
  have hprompt := (h.refreshed hs hr hclk hpolicy hinterval).issue (hs.move hstart) hbounds hissue
  obtain ⟨unified, read, write, n, q, heq, hin, hindices⟩ :=
    @scheduleTransaction_frame cfg (d.countIdle cfg)
  rw [(hs.clockTick_clk hsafe htick).1]
  rw [htick, heq] at hd
  cases hd
  exact hprompt.congr rfl rfl hin hindices rfl

theorem Rotates.moves (h : Rotates cfg c) (hs : Sound cfg c)
    (hmoves : ReflTransGen (Move cfg timing) c c') : Rotates cfg c' := by
  have hboth : Sound cfg c' ∧ Rotates cfg c' := by
    induction hmoves with
    | refl => exact ⟨hs, h⟩
    | tail _ hlast ih => exact ⟨ih.1.move hlast, ih.2.move ih.1 hlast⟩
  exact hboth.2

/-- The refreshes of a controller between two calls. -/
structure Refreshing (cfg : Config) (dp dr : Nat) (c : Controller) : Prop where
  sound : Sound cfg c
  rotates : Rotates cfg c
  clk : c.refresh.clk = c.clk
  prompt : Prompt cfg dp dr c.clk c

theorem Refreshing.clockTick (h : Refreshing cfg dp dr c) (hsafe : cfg.Safe timing)
    (hbounds : timing.BoundsRefresh dp dr)
    (hpolicy : cfg.refreshPolicy ≠ .bankLevelStaggered)
    (hinterval : response cfg dp dr < Refresh.refreshInterval cfg) :
    ∃ c', c.clockTick cfg timing = .ok c' ∧ Refreshing cfg dp dr c' := by
  obtain ⟨c', htick, hmoves⟩ := h.sound.clockTick_moves hsafe
  obtain ⟨hclk, hrefresh⟩ := h.sound.clockTick_clk hsafe htick
  refine ⟨c', htick, h.sound.moves hmoves, h.rotates.moves h.sound hmoves, ?_,
    h.prompt.clockTick h.sound h.rotates h.clk hsafe hbounds hpolicy hinterval htick⟩
  rw [hrefresh, Refresh.advance_clk, hclk, h.clk]

theorem Refreshing.addTransaction (h : Refreshing cfg dp dr c) (a : Nat) (w : Bool) :
    Refreshing cfg dp dr (c.addTransaction cfg a w) := by
  obtain ⟨hclk, hrefresh, hchannel, htrace⟩ := @addTransaction_frame cfg c a w
  have hqueue : (c.addTransaction cfg a w).cmdQueue = c.cmdQueue := by
    rcases @addTransaction_cases cfg c a w with
      ⟨-, heq⟩ | ⟨-, -, -, heq⟩ | ⟨-, -, unified, read, write, -, -, heq⟩ <;> rw [heq]
  refine ⟨h.sound.addTransaction a w, h.rotates.addTransaction, by rw [hrefresh, hclk, h.clk], ?_⟩
  rw [hclk]
  exact h.prompt.congr (by rw [hchannel]) (by rw [hchannel]) (by rw [hqueue]) (by rw [hqueue])
    htrace

theorem Refreshing.returnDoneTrans (h : Refreshing cfg dp dr c) (clk : Nat) :
    Refreshing cfg dp dr (c.returnDoneTrans clk).2 :=
  ⟨h.sound.returnDoneTrans clk, ⟨h.rotates.points, h.rotates.issued⟩, h.clk,
    h.prompt.congr rfl rfl rfl rfl rfl⟩

end Prompt

end Controller

namespace Session

open Controller

variable {cfg : Config} {timing : Timing} {dp dr : Nat}

/-- If a refresh of a rank can wait at most `response` cycles and that is less than the refresh
interval, then in every run at most one refresh waits, the `i`-th one is issued at most
`response` cycles after its time, and none is left out. -/
theorem run_refreshes_in_time (hsafe : cfg.Safe timing) (hbounds : timing.BoundsRefresh dp dr)
    (hpolicy : cfg.refreshPolicy ≠ .bankLevelStaggered)
    (hinterval : response cfg dp dr < Refresh.refreshInterval cfg) (actions : List Action) :
    ∃ s, run cfg timing actions = .ok s ∧ s.controller.channelState.refreshQ.length ≤ 1 ∧
      (∀ i t, (refreshTimes s.controller.cmdTrace)[i]? = some t →
        (i + 1) * Refresh.refreshInterval cfg ≤ t ∧
          t ≤ (i + 1) * Refresh.refreshInterval cfg + response cfg dp dr) ∧
      ∀ i, (i + 1) * Refresh.refreshInterval cfg + response cfg dp dr < s.controller.clk →
        i < (refreshTimes s.controller.cmdTrace).length := by
  have hstep : ∀ s action, Refreshing cfg dp dr s.controller →
      ∃ s', step cfg timing s action = .ok s' ∧ Refreshing cfg dp dr s'.controller := by
    intro s action h
    cases action with
    | add a w =>
      rw [step]
      split
      · exact ⟨_, rfl, h.addTransaction a w⟩
      · exact ⟨s, rfl, h⟩
    | returnDone clk => exact ⟨_, rfl, h.returnDoneTrans clk⟩
    | clockTick =>
      obtain ⟨c', htick, hc'⟩ := h.clockTick hsafe hbounds hpolicy hinterval
      rw [step, htick]
      exact ⟨_, rfl, hc'⟩
  obtain ⟨s, hrun, h⟩ := Transition.runM_invariant (I := fun s => Refreshing cfg dp dr s.controller)
    hstep (s := init) ⟨sound_init cfg, rotates_init cfg, rfl, prompt_init cfg dp dr⟩ actions
  have hpos : 0 < Refresh.refreshInterval cfg := Nat.zero_lt_of_lt hinterval
  have hissued := congrArg List.length h.rotates.issued
  rw [List.length_append, ← length_refreshTimes, Refresh.schedule, List.length_map,
    List.length_range, h.clk, Refresh.asked] at hissued
  refine ⟨s, hrun, ?_, h.prompt.times, fun i hi => ?_⟩
  · rcases h.prompt.waiting with hnil | ⟨ref, hone, -⟩
    · rw [hnil]
      exact Nat.zero_le 1
    · rw [hone]
      exact Nat.le_refl 1
  · have hasked : i + 1 ≤ (s.controller.clk - 1) / Refresh.refreshInterval cfg := by
      rw [Nat.le_div_iff_mul_le hpos]
      omega
    rcases h.prompt.waiting with hnil | ⟨ref, hone, hontime⟩
    · rw [hnil, List.length_nil] at hissued
      omega
    · -- the one that waits has not missed its deadline yet
      have hdue := hontime.due.clk_le
      by_contra hlt
      have hle : ((refreshTimes s.controller.cmdTrace).length + 1) *
          Refresh.refreshInterval cfg ≤ (i + 1) * Refresh.refreshInterval cfg :=
        Nat.mul_le_mul_right _ (by omega)
      omega

theorem run_refreshes_in_time_hbm2 :
    ∃ s, run hbm2 hbm2Timing.timing [.clockTick, .add 64 false, .clockTick] = .ok s ∧
      s.controller.channelState.refreshQ.length ≤ 1 ∧
      (∀ i t, (refreshTimes s.controller.cmdTrace)[i]? = some t →
        (i + 1) * Refresh.refreshInterval hbm2 ≤ t ∧
          t ≤ (i + 1) * Refresh.refreshInterval hbm2 + response hbm2 34 268) ∧
      ∀ i, (i + 1) * Refresh.refreshInterval hbm2 + response hbm2 34 268 < s.controller.clk →
        i < (refreshTimes s.controller.cmdTrace).length :=
  run_refreshes_in_time hbm2_safe
    (TimingParams.boundsRefresh (by decide) (by decide)) (by decide) (by decide) _

end Session

end GcnSim.Dramsim
