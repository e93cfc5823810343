import GcnSim.Dramsim.Cycle
import GcnSim.Lib.Run

/-!
# Runs of a controller

The rest of the simulator adds transactions while the controller accepts them, asks for
transactions that are done, and ticks the clock, in any order. A session also records what was
accepted and what was returned.
-/

namespace GcnSim.Dramsim

open Relation

/-- What the memory system does with a controller. -/
inductive Action where
  | add (hexAddr : Nat) (isWrite : Bool)
  | returnDone (clk : Nat)
  | clockTick
  deriving DecidableEq, Repr

/-- A controller with the transactions that came in and went out. -/
structure Session where
  controller : Controller
  accepted : List (Nat × Bool)
  returned : List Transaction

namespace Session

/-- A new controller. -/
def init : Session := ⟨.init, [], []⟩

/-- One call of the controller. `JedecDRAMSystem::AddTransaction` asks
`WillAcceptTransaction` first. -/
def step (cfg : Config) (timing : Timing) (s : Session) : Action → Except Abort Session
  | .add hexAddr isWrite =>
    if s.controller.willAcceptTransaction cfg isWrite then
      .ok { s with
        controller := s.controller.addTransaction cfg hexAddr isWrite
        accepted := s.accepted ++ [(hexAddr, isWrite)] }
    else .ok s
  | .returnDone clk =>
    .ok { s with
      controller := (s.controller.returnDoneTrans clk).2
      returned := s.returned ++ (s.controller.returnDoneTrans clk).1.toList }
  | .clockTick =>
    match s.controller.clockTick cfg timing with
    | .error e => .error e
    | .ok c => .ok { s with controller := c }

/-- A run of the controller. -/
def run (cfg : Config) (timing : Timing) (actions : List Action) : Except Abort Session :=
  Transition.runM (step cfg timing) init actions

end Session

namespace Controller

variable {cfg : Config} {c : Controller}

/-- What `AddTransaction` does. A write to an address with a pending write and a read of one
are answered at once; a read of an address with pending reads only joins them. -/
theorem addTransaction_cases (a : Nat) (w : Bool) :
    (0 < countAddr c.pendingWrQ a ∧ c.addTransaction cfg a w =
      { c with returnQueue := c.returnQueue ++ [⟨a, c.clk, c.clk + 1, w⟩] }) ∨
    (countAddr c.pendingWrQ a = 0 ∧ w = false ∧ 0 < countAddr c.pendingRdQ a ∧
      c.addTransaction cfg a w =
        { c with pendingRdQ := c.pendingRdQ ++ [⟨a, c.clk, 0, false⟩] }) ∨
    (countAddr (c.pending w) a = 0 ∧ countAddr c.pendingWrQ a = 0 ∧
      ∃ unified read write, unified ++ read ++ write = [⟨a, c.clk, 0, w⟩] ∧
        (cfg.unifiedQueue = true → read = [] ∧ write = []) ∧
        c.addTransaction cfg a w =
          { c with
            unifiedQueue := c.unifiedQueue ++ unified
            readQueue := c.readQueue ++ read
            writeBuffer := c.writeBuffer ++ write
            pendingRdQ := c.pendingRdQ ++ if w then [] else [⟨a, c.clk, 0, w⟩]
            pendingWrQ := c.pendingWrQ ++ if w then [⟨a, c.clk, 0, w⟩] else []
            returnQueue := c.returnQueue ++ if w then [⟨a, c.clk, c.clk + 1, w⟩] else [] }) := by
  rw [addTransaction]
  dsimp only
  by_cases hwr : countAddr c.pendingWrQ a = 0
  · cases w
    case false =>
      rw [if_neg (by decide), if_neg (by omega)]
      have hcount : countAddr (c.pendingRdQ ++ [⟨a, c.clk, 0, false⟩]) a =
          countAddr c.pendingRdQ a + 1 := by
        rw [countAddr, List.countP_append, List.countP_singleton]
        simp [countAddr]
      by_cases hrd : countAddr c.pendingRdQ a = 0
      · rw [if_pos (by rw [hcount, hrd])]
        refine .inr (.inr ⟨hrd, hwr, ?_⟩)
        split
        · exact ⟨[⟨a, c.clk, 0, false⟩], [], [], rfl, fun _ => ⟨rfl, rfl⟩, by simp⟩
        · rename_i hunified
          exact ⟨[], [⟨a, c.clk, 0, false⟩], [], rfl, fun h => (hunified h).elim, by simp⟩
      · rw [if_neg (by rw [hcount]; omega)]
        exact .inr (.inl ⟨hwr, rfl, by omega, rfl⟩)
    case true =>
      rw [if_pos rfl, if_pos hwr]
      refine .inr (.inr ⟨hwr, hwr, ?_⟩)
      split
      · exact ⟨[⟨a, c.clk, 0, true⟩], [], [], rfl, fun _ => ⟨rfl, rfl⟩, by simp⟩
      · rename_i hunified
        exact ⟨[], [], [⟨a, c.clk, 0, true⟩], rfl, fun h => (hunified h).elim, by simp⟩
  · left
    refine ⟨by omega, ?_⟩
    cases w
    case false => rw [if_neg (by decide), if_pos (by omega)]
    case true => rw [if_pos rfl, if_neg hwr]

@[simp] theorem countAddr_append (q q' : List Transaction) (a : Nat) :
    countAddr (q ++ q') a = countAddr q a + countAddr q' a := List.countP_append

@[simp] theorem countAddr_singleton (t : Transaction) (a : Nat) :
    countAddr [t] a = if t.addr = a then 1 else 0 := by
  rw [countAddr, List.countP_singleton]
  simp

/-- A new transaction is in the books once. -/
theorem Sound.addTransaction (hs : Sound cfg c) (a : Nat) (w : Bool) :
    Sound cfg (c.addTransaction cfg a w) := by
  rcases @addTransaction_cases cfg c a w with
    ⟨-, h⟩ | ⟨-, -, hrd, h⟩ | ⟨hpending, -, unified, read, write, hlist, -, h⟩
  · rw [h]
    exact ⟨hs.clk, hs.awake, hs.rankAwake, hs.refreshQ, hs.entry, hs.single, hs.writes⟩
  · rw [h]
    refine ⟨hs.clk, hs.awake, hs.rankAwake, hs.refreshQ, hs.entry, fun w' a' => ?_, hs.writes⟩
    refine (hs.single w' a').trans (if_congr ?_ rfl rfl)
    cases w'
    case true => exact Iff.rfl
    case false =>
      change 0 < countAddr c.pendingRdQ a' ↔ 0 < countAddr (c.pendingRdQ ++ _) a'
      rw [countAddr_append, countAddr_singleton]
      by_cases ha : a = a'
      · subst ha
        rw [if_pos rfl]
        omega
      · rw [if_neg ha, Nat.add_zero]
  · rw [h]
    refine ⟨hs.clk, hs.awake, hs.rankAwake, hs.refreshQ, hs.entry, fun w' a' => ?_,
      fun a' => ?_⟩
    · have hwaiting : (waiting { c with
          unifiedQueue := c.unifiedQueue ++ unified
          readQueue := c.readQueue ++ read
          writeBuffer := c.writeBuffer ++ write }).countP (isFor w' a') =
          c.waiting.countP (isFor w' a') + if w = w' ∧ a = a' then 1 else 0 := by
        have hnew := congrArg (List.countP (isFor w' a')) hlist
        simp only [List.countP_append, List.countP_singleton, isFor_iff] at hnew
        simp only [waiting, List.countP_append]
        omega
      have hpend : countAddr (pending { c with
          pendingRdQ := c.pendingRdQ ++ if w then [] else [⟨a, c.clk, 0, w⟩]
          pendingWrQ := c.pendingWrQ ++ if w then [⟨a, c.clk, 0, w⟩] else [] } w') a' =
          countAddr (c.pending w') a' + if w = w' ∧ a = a' then 1 else 0 := by
        cases w' <;> cases w <;> simp [pending]
      have hold := hs.single w' a'
      change (waiting { c with
        unifiedQueue := c.unifiedQueue ++ unified
        readQueue := c.readQueue ++ read
        writeBuffer := c.writeBuffer ++ write }).countP (isFor w' a') +
          (c.homeQueue cfg a').countP (servesFor w' a') = if 0 < countAddr (pending { c with
        pendingRdQ := c.pendingRdQ ++ if w then [] else [⟨a, c.clk, 0, w⟩]
        pendingWrQ := c.pendingWrQ ++ if w then [⟨a, c.clk, 0, w⟩] else [] } w') a' then 1 else 0
      rw [hwaiting, hpend]
      by_cases hwa : w = w' ∧ a = a'
      · obtain ⟨rfl, rfl⟩ := hwa
        rw [hpending] at hold ⊢
        simp only [and_self, if_true, Nat.lt_irrefl, if_false, Nat.zero_add, Nat.one_pos] at hold ⊢
        omega
      · rw [if_neg hwa, Nat.add_zero, Nat.add_zero]
        exact hold
    · have hold := hs.writes a'
      dsimp only
      rw [countAddr_append]
      cases w
      case false => exact hold
      case true =>
        rw [if_pos rfl, countAddr_singleton]
        split
        · rename_i ha
          change countAddr c.pendingWrQ a = 0 at hpending
          have haddr : a = a' := ha
          rw [haddr] at hpending
          omega
        · exact hold

theorem Sound.returnDoneTrans (hs : Sound cfg c) (clk : Nat) :
    Sound cfg (c.returnDoneTrans clk).2 :=
  ⟨hs.clk, hs.awake, hs.rankAwake, hs.refreshQ, hs.entry, hs.single, hs.writes⟩

end Controller

namespace Session

open Controller

variable {cfg : Config} {timing : Timing}

/-- A property of a new session that every call keeps holds in every run, and no run of a safe
configuration ends the process. The cycles may be taken move by move. -/
theorem run_rule (hsafe : cfg.Safe timing) {I : Session → Prop} (hinit : I init)
    (hadd : ∀ s a w, Sound cfg s.controller → I s →
      s.controller.willAcceptTransaction cfg w = true →
      I { s with
        controller := s.controller.addTransaction cfg a w
        accepted := s.accepted ++ [(a, w)] })
    (hreturn : ∀ s clk, Sound cfg s.controller → I s →
      I { s with
        controller := (s.controller.returnDoneTrans clk).2
        returned := s.returned ++ (s.controller.returnDoneTrans clk).1.toList })
    (hmove : ∀ s c', Sound cfg s.controller → I s → Move cfg timing s.controller c' →
      I { s with controller := c' })
    (actions : List Action) :
    ∃ s, run cfg timing actions = .ok s ∧ Sound cfg s.controller ∧ I s := by
  apply Transition.runM_invariant (I := fun s => Sound cfg s.controller ∧ I s)
  · rintro s action ⟨hsound, hs⟩
    cases action with
    | add a w =>
      rw [step]
      split
      · rename_i haccept
        exact ⟨_, rfl, hsound.addTransaction a w, hadd s a w hsound hs haccept⟩
      · exact ⟨s, rfl, hsound, hs⟩
    | returnDone clk =>
      exact ⟨_, rfl, hsound.returnDoneTrans clk, hreturn s clk hsound hs⟩
    | clockTick =>
      obtain ⟨c', hc', hmoves⟩ := hsound.clockTick_moves hsafe
      rw [step, hc']
      have hboth : Sound cfg c' ∧ I { s with controller := c' } := by
        clear hc'
        induction hmoves with
        | refl => exact ⟨hsound, hs⟩
        | @tail b d _ hlast ih =>
          exact ⟨ih.1.move hlast, hmove { s with controller := b } d ih.1 ih.2 hlast⟩
      exact ⟨_, rfl, hboth⟩
  · exact ⟨sound_init cfg, hinit⟩

/-- What a channel sees of a cycle. -/
structure Issues (cfg : Config) (clk : Nat) (s : ChannelState) (cmd : Command) : Prop where
  ready : s.Ready cfg clk cmd
  awake : ∀ p, (s.bankStates p).state = .opened ∨ (s.bankStates p).state = .closed
  notEnter : cmd.cmdType ≠ .srefEnter
  notExit : cmd.cmdType ≠ .srefExit
  bank : cmd.cmdType.isReadWrite = true → cfg.HasBank cmd.bankId

/-- An entry of a command queue that is ready. -/
theorem issues_of_entry {c : Controller} (hs : Sound cfg c) {i : Int} {e cmd : Command}
    (he : e ∈ c.cmdQueue.queues i)
    (hready : c.channelState.getReadyCommand cfg e c.clk = .ok (some cmd)) :
    Issues cfg c.clk c.channelState cmd := by
  obtain ⟨⟨t, rfl⟩, -⟩ := hs.entry i e he
  have hrw : (transToCommand cfg t).cmdType.isReadWrite = true := transToCommand_isReadWrite
  obtain ⟨-, hcmd⟩ := hs.ready_entry he hready
  have hsref : cmd.cmdType ≠ .srefEnter ∧ cmd.cmdType ≠ .srefExit := by
    rcases hcmd with rfl | h | h
    · constructor <;> intro h <;> rw [h] at hrw <;> cases hrw
    · rw [h]
      decide
    · rw [h]
      decide
  refine ⟨ChannelState.ready_of_getReadyCommand hready hsref.2, hs.awake, hsref.1, hsref.2, ?_⟩
  intro hcmdRw
  rcases hcmd with rfl | h | h
  · exact hasBank_transToCommand
  · rw [h] at hcmdRw
    cases hcmdRw
  · rw [h] at hcmdRw
    cases hcmdRw

/-- What is ready for a waiting refresh. -/
theorem issues_of_refresh {c : Controller} (hs : Sound cfg c) {ref cmd : Command}
    (href : ref ∈ c.channelState.refreshQ)
    (hready : c.channelState.getReadyCommand cfg ref c.clk = .ok (some cmd)) :
    Issues cfg c.clk c.channelState cmd := by
  have hcmd : cmd.cmdType.isRefresh = true ∨ cmd.cmdType = .precharge :=
    (hs.ready_refresh href hready).imp (fun h => by rw [h]; exact hs.refreshQ ref href) id
  have hkind : cmd.cmdType ≠ .srefEnter ∧ cmd.cmdType ≠ .srefExit ∧
      cmd.cmdType.isReadWrite = false := by
    revert hcmd
    cases cmd.cmdType <;> decide
  refine ⟨ChannelState.ready_of_getReadyCommand hready hkind.2.1, hs.awake, hkind.1, hkind.2.1,
    fun hrw => ?_⟩
  rw [hkind.2.2] at hrw
  cases hrw

/-- A property of the clock, the channel and the command trace that holds in every run. The
transactions have no part in it. -/
theorem run_rule_trace (hsafe : cfg.Safe timing)
    {I : Nat → ChannelState → List (Nat × Command) → Prop} (hinit : I 0 .init [])
    (hissue : ∀ clk s trace cmd, Issues cfg clk s cmd → I clk s trace →
      I clk ((s.after cfg cmd).updateTiming cfg timing cmd clk) (trace ++ [(clk, cmd)]))
    (hrefreshQ : ∀ clk s trace q, I clk s trace → I clk { s with refreshQ := q } trace)
    (hidle : ∀ clk s trace f, I clk s trace → I clk { s with rankIdleCycles := f } trace)
    (htick : ∀ clk s trace, I clk s trace → I (clk + 1) s trace) (actions : List Action) :
    ∃ s, run cfg timing actions = .ok s ∧
      I s.controller.clk s.controller.channelState s.controller.cmdTrace := by
  have hissued : ∀ (c : Controller) (cmd : Command) (q : CommandQueue),
      Issues cfg c.clk c.channelState cmd → I c.clk c.channelState c.cmdTrace →
      I (issued cfg timing cmd { c with cmdQueue := q }).clk
        (issued cfg timing cmd { c with cmdQueue := q }).channelState
        (issued cfg timing cmd { c with cmdQueue := q }).cmdTrace := by
    intro c cmd q hissues hI
    have hclk : (issued cfg timing cmd { c with cmdQueue := q }).clk = c.clk := completed_clk
    rw [hclk]
    exact hissue c.clk c.channelState c.cmdTrace cmd hissues hI
  have hadd : ∀ (c : Controller) a w, I c.clk c.channelState c.cmdTrace →
      I (c.addTransaction cfg a w).clk (c.addTransaction cfg a w).channelState
        (c.addTransaction cfg a w).cmdTrace := by
    intro c a w hI
    rcases @addTransaction_cases cfg c a w with
      ⟨-, h⟩ | ⟨-, -, -, h⟩ | ⟨-, -, unified, read, write, -, -, h⟩ <;> rw [h] <;> exact hI
  have hmove : ∀ c c', Sound cfg c → I c.clk c.channelState c.cmdTrace →
      Move cfg timing c c' → I c'.clk c'.channelState c'.cmdTrace := by
    intro c c' hs hI hmove
    cases hmove with
    | tickRefresh =>
      obtain ⟨new, hnew, -⟩ := @Refresh.advance_refreshQ cfg c.refresh c.channelState
      dsimp only [refreshed]
      rw [hnew]
      exact hrefreshQ _ _ _ _ hI
    | issueRefresh hwait hready =>
      exact hissued _ _ _ (issues_of_refresh hs (hwait ▸ List.mem_cons_self) hready) hI
    | @issueQueued i before behind entry cmd hqueue hready _ _ =>
      have hmem : entry ∈ c.cmdQueue.queues i := by
        rw [hqueue]
        simp
      exact hissued _ _ _ (issues_of_entry hs hmem hready) hI
    | countIdle => exact hidle _ _ _ _ hI
    | schedule =>
      obtain ⟨unified, read, write, n, q, h, -⟩ := @scheduleTransaction_frame cfg c
      rw [h]
      exact hI
    | tickClock => exact htick _ _ _ hI
    | _ => exact hI
  obtain ⟨s, hrun, -, hI⟩ := run_rule hsafe
    (I := fun s => I s.controller.clk s.controller.channelState s.controller.cmdTrace) hinit
    (fun s a w _ hI _ => hadd s.controller a w hI) (fun _ _ _ hI => hI)
    (fun s c' hs hI => hmove s.controller c' hs hI) actions
  exact ⟨s, hrun, hI⟩

end Session

end GcnSim.Dramsim
