import GcnSim.Dramsim.Moves
import GcnSim.Lib.FirstMatch

/-!
# The books of the controller

A read or write that is pending is in exactly one queue: as a transaction of the controller or
as a command in the queue of its bank. The moves keep these books, hence `IssueCommand` always
finds the transactions of a command and `EraseRWCommand` the command.
-/

namespace GcnSim.Dramsim

open Relation

section TransToCommand

variable {cfg : Config} {t : Transaction}

@[simp] theorem transToCommand_isWrite : (transToCommand cfg t).cmdType.isWrite = t.isWrite := by
  rw [transToCommand]
  cases cfg.rowBufPolicy <;> cases t.isWrite <;> rfl

@[simp] theorem transToCommand_isRead : (transToCommand cfg t).cmdType.isRead = !t.isWrite := by
  rw [transToCommand]
  cases cfg.rowBufPolicy <;> cases t.isWrite <;> rfl

theorem transToCommand_isReadWrite : (transToCommand cfg t).cmdType.isReadWrite = true := by
  rw [CommandType.isReadWrite, transToCommand_isRead, transToCommand_isWrite]
  cases t.isWrite <;> rfl

theorem hasBank_transToCommand : cfg.HasBank (transToCommand cfg t).bankId :=
  Config.hasBank_addressMapping t.addr

end TransToCommand

section CountAddr

variable {q : List Transaction} {a a' : Nat}

theorem countAddr_filter_not :
    countAddr (q.filter fun t => !Controller.atAddr a t) a' =
      if a' = a then 0 else countAddr q a' := by
  rw [countAddr, List.countP_filter]
  split
  · rename_i h
    subst h
    rw [List.countP_eq_zero]
    intro t _
    simp [Controller.atAddr]
  · rename_i h
    rw [countAddr]
    apply List.countP_congr
    intro t _
    simp only [Controller.atAddr, Bool.and_eq_true, Bool.not_eq_true', decide_eq_true_eq,
      decide_eq_false_iff_not, and_iff_left_iff_imp]
    rintro rfl
    exact h

theorem countAddr_eraseP (hpos : 0 < countAddr q a) :
    countAddr (q.eraseP (Controller.atAddr a)) a' + (if a' = a then 1 else 0) =
      countAddr q a' := by
  obtain ⟨t, ht, haddr⟩ := List.countP_pos_iff.mp hpos
  obtain ⟨u, -, hu, hfind⟩ := FirstMatch.find?_of_mem (p := Controller.atAddr a) ht haddr
  have hcount := FirstMatch.countP_eraseP hfind (Controller.atAddr a')
  have hiff : Controller.atAddr a' u = true ↔ a' = a := by
    rw [Controller.atAddr, decide_eq_true_eq, of_decide_eq_true hu, eq_comm]
  simp only [hiff] at hcount
  exact hcount

end CountAddr

namespace Controller

/-- The transactions that wait in the controller. -/
def waiting (c : Controller) : List Transaction := c.unifiedQueue ++ c.readQueue ++ c.writeBuffer

/-- A transaction of a kind and address. -/
def isFor (isWrite : Bool) (hexAddr : Nat) (t : Transaction) : Bool :=
  t.isWrite == isWrite && decide (t.addr = hexAddr)

/-- A command for the transactions of a kind and address. -/
def servesFor (isWrite : Bool) (hexAddr : Nat) (cmd : Command) : Bool :=
  cmd.cmdType.isWrite == isWrite && decide (cmd.hexAddr = hexAddr)

/-- The command queue for an address. -/
def homeQueue (cfg : Config) (c : Controller) (hexAddr : Nat) : List Command :=
  c.cmdQueue.queues (CommandQueue.getQueueIndex cfg (cfg.addressMapping hexAddr).bankId)

/-- The books of a controller whose banks are all awake. -/
structure Sound (cfg : Config) (c : Controller) : Prop where
  clk : c.cmdQueue.clk = c.clk
  awake : ∀ p, (c.channelState.bankStates p).state = .opened ∨
    (c.channelState.bankStates p).state = .closed
  rankAwake : ∀ i, c.channelState.rankIsSref i = false
  refreshQ : ∀ ref ∈ c.channelState.refreshQ, ref.cmdType.isRefresh = true
  entry : ∀ i, ∀ e ∈ c.cmdQueue.queues i,
    (∃ t, e = transToCommand cfg t) ∧ CommandQueue.getQueueIndex cfg e.bankId = i
  single : ∀ w a, c.waiting.countP (isFor w a) + (c.homeQueue cfg a).countP (servesFor w a) =
    if 0 < countAddr (c.pending w) a then 1 else 0
  writes : ∀ a, countAddr c.pendingWrQ a ≤ 1

/-- A new controller is sound. -/
theorem sound_init (cfg : Config) : Sound cfg .init where
  clk := rfl
  awake := fun _ => .inr rfl
  rankAwake := fun _ => rfl
  refreshQ := fun _ h => (List.not_mem_nil h).elim
  entry := fun _ _ h => (List.not_mem_nil h).elim
  single := fun w _ => by cases w <;> rfl
  writes := fun _ => Nat.zero_le 1

variable {cfg : Config} {timing : Timing} {c : Controller}

section Ready

/-- What is ready for an entry of a command queue. -/
theorem Sound.ready_entry (hs : Sound cfg c) {i : Int} {e cmd : Command}
    (he : e ∈ c.cmdQueue.queues i)
    (hready : c.channelState.getReadyCommand cfg e c.clk = .ok (some cmd)) :
    cmd = { e with cmdType := cmd.cmdType } ∧
      (cmd = e ∨ cmd.cmdType = .activate ∨ cmd.cmdType = .precharge) := by
  obtain ⟨⟨t, rfl⟩, -⟩ := hs.entry i e he
  have hrw : (transToCommand cfg t).cmdType.isReadWrite = true := transToCommand_isReadWrite
  rcases ChannelState.getReadyCommand_eq_some hready with
    ⟨-, u, hrequired, -, rfl, -⟩ | ⟨hrank, -⟩
  · rw [BankState.requiredType_of_isReadWrite (hs.awake _) hrw] at hrequired
    refine ⟨rfl, ?_⟩
    cases hrequired
    dsimp only
    split
    · exact .inr (.inl rfl)
    · split
      · exact .inl rfl
      · exact .inr (.inr rfl)
  · rw [CommandType.isRankCmd_of_isReadWrite hrw] at hrank
    cases hrank

/-- What is ready for a waiting refresh. -/
theorem Sound.ready_refresh (hs : Sound cfg c) {ref cmd : Command}
    (href : ref ∈ c.channelState.refreshQ)
    (hready : c.channelState.getReadyCommand cfg ref c.clk = .ok (some cmd)) :
    cmd = ref ∨ cmd.cmdType = .precharge := by
  have hrefresh := hs.refreshQ ref href
  rcases ChannelState.getReadyCommand_eq_some hready with
    ⟨-, u, hrequired, -, rfl, -⟩ | ⟨-, ⟨p, -, u, hne, hrequired, -, rfl⟩ | ⟨rfl, -⟩⟩
  · rw [BankState.requiredType_of_isRefresh (hs.awake _) hrefresh] at hrequired
    cases hrequired
    dsimp only
    split
    · exact .inl rfl
    · exact .inr rfl
  · rw [BankState.requiredType_of_isRefresh (hs.awake _) hrefresh] at hrequired
    cases hrequired
    dsimp only at hne ⊢
    split
    · rename_i hclosed
      rw [if_pos hclosed] at hne
      exact (hne rfl).elim
    · exact .inr rfl
  · exact .inl rfl

end Ready

section Issue

variable {cmd : Command}

/-- An issued command keeps the channel awake, unless it starts a self-refresh. -/
theorem Sound.issued_channel (hs : Sound cfg c) (hrank : cmd.cmdType ≠ .srefEnter)
    (hexit : cmd.cmdType ≠ .srefExit) :
    (∀ p, ((c.issued cfg timing cmd).channelState.bankStates p).state = .opened ∨
      ((c.issued cfg timing cmd).channelState.bankStates p).state = .closed) ∧
    (∀ i, (c.issued cfg timing cmd).channelState.rankIsSref i = false) ∧
    ∀ ref ∈ (c.issued cfg timing cmd).channelState.refreshQ, ref.cmdType.isRefresh = true := by
  refine ⟨fun p => ?_, fun i => ?_, fun ref href => ?_⟩
  · dsimp only [issued]
    rw [ChannelState.updateTiming_state]
    exact ChannelState.after_awake (hs.awake p) hrank
  · dsimp only [issued]
    rw [ChannelState.updateTiming_rankIsSref, ChannelState.after]
    dsimp only
    rw [if_neg hrank, if_neg hexit]
    exact hs.rankAwake i
  · dsimp only [issued] at href
    rw [ChannelState.updateTiming_refreshQ, ChannelState.after] at href
    dsimp only at href
    apply hs.refreshQ
    split at href
    · exact List.mem_of_mem_eraseP href
    · split at href
      · exact List.mem_of_mem_eraseP href
      · exact href

theorem completed_of_not_isReadWrite (h : cmd.cmdType.isReadWrite = false) :
    c.completed cfg cmd = c := by
  rw [CommandType.isReadWrite, Bool.or_eq_false_iff] at h
  rw [completed, h.1, h.2]
  rfl

@[simp] theorem completed_waiting : (c.completed cfg cmd).waiting = c.waiting := by
  rw [completed]
  split
  · rfl
  · split <;> rfl

/-- A command that serves no transaction leaves the books as they are. -/
theorem Sound.issued_of_not_isReadWrite (hs : Sound cfg c) (h : cmd.cmdType.isReadWrite = false)
    (hrank : cmd.cmdType ≠ .srefEnter) (hexit : cmd.cmdType ≠ .srefExit) :
    Sound cfg (c.issued cfg timing cmd) := by
  have hchannel := @Sound.issued_channel cfg timing c cmd hs hrank hexit
  rw [issued, completed_of_not_isReadWrite h] at hchannel ⊢
  obtain ⟨hawake, hrankAwake, hrefreshQ⟩ := hchannel
  exact ⟨hs.clk, hawake, hrankAwake, hrefreshQ, hs.entry, hs.single, hs.writes⟩

@[simp] theorem isFor_iff {w : Bool} {a : Nat} {t : Transaction} :
    isFor w a t = true ↔ t.isWrite = w ∧ t.addr = a := by
  simp [isFor]

@[simp] theorem servesFor_iff {w : Bool} {a : Nat} :
    servesFor w a cmd = true ↔ cmd.cmdType.isWrite = w ∧ cmd.hexAddr = a := by
  simp [servesFor]

/-- A command in a command queue has a pending transaction and is alone with its kind and
address. -/
theorem Sound.pending_of_entry (hs : Sound cfg c) {i : Int} (hmem : cmd ∈ c.cmdQueue.queues i) :
    0 < countAddr (c.pending cmd.cmdType.isWrite) cmd.hexAddr ∧
      c.homeQueue cfg cmd.hexAddr = c.cmdQueue.queues i ∧
      (c.cmdQueue.queues i).countP (servesFor cmd.cmdType.isWrite cmd.hexAddr) = 1 ∧
      c.waiting.countP (isFor cmd.cmdType.isWrite cmd.hexAddr) = 0 := by
  obtain ⟨⟨t, rfl⟩, hplace⟩ := hs.entry i cmd hmem
  have hhome : c.homeQueue cfg (transToCommand cfg t).hexAddr = c.cmdQueue.queues i := by
    rw [homeQueue, ← hplace]
    rfl
  have hcount : 0 < (c.cmdQueue.queues i).countP
      (servesFor (transToCommand cfg t).cmdType.isWrite (transToCommand cfg t).hexAddr) :=
    List.countP_pos_iff.mpr ⟨_, hmem, servesFor_iff.mpr ⟨rfl, rfl⟩⟩
  have hsingle := hs.single (transToCommand cfg t).cmdType.isWrite (transToCommand cfg t).hexAddr
  rw [hhome] at hsingle
  split at hsingle
  · rename_i hpending
    exact ⟨hpending, hhome, by omega, by omega⟩
  · omega

/-- The pending transactions after a read or write command. -/
theorem countAddr_completed {w : Bool} {a : Nat} (hrw : cmd.cmdType.isReadWrite = true)
    (hpos : 0 < countAddr (c.pending cmd.cmdType.isWrite) cmd.hexAddr)
    (hone : countAddr c.pendingWrQ cmd.hexAddr ≤ 1) :
    countAddr ((c.completed cfg cmd).pending w) a =
      if w = cmd.cmdType.isWrite ∧ a = cmd.hexAddr then 0 else countAddr (c.pending w) a := by
  rw [completed]
  cases hwrite : cmd.cmdType.isWrite
  case false =>
    have hread : cmd.cmdType.isRead = true := by
      rw [CommandType.isReadWrite, hwrite, Bool.or_false] at hrw
      exact hrw
    rw [if_pos hread]
    cases w
    case false =>
      change countAddr (c.pendingRdQ.filter fun t => !atAddr cmd.hexAddr t) a = _
      rw [countAddr_filter_not]
      simp [pending]
    case true => simp [pending]
  case true =>
    have hread : ¬ cmd.cmdType.isRead = true := by
      revert hwrite
      cases cmd.cmdType <;> decide
    rw [if_neg hread, if_pos rfl]
    rw [hwrite] at hpos
    cases w
    case false => simp [pending]
    case true =>
      change countAddr (c.pendingWrQ.eraseP (atAddr cmd.hexAddr)) a = _
      have hcount := @countAddr_eraseP c.pendingWrQ cmd.hexAddr a hpos
      by_cases ha : a = cmd.hexAddr
      · rw [if_pos ⟨rfl, ha⟩]
        rw [if_pos ha, ha] at hcount
        rw [ha]
        omega
      · rw [if_neg fun h => ha h.2]
        rw [if_neg ha] at hcount
        exact hcount

/-- A read or write that is issued leaves the books. -/
theorem Sound.issued_entry (hs : Sound cfg c) {i : Int} (hmem : cmd ∈ c.cmdQueue.queues i) :
    Sound cfg (issued cfg timing cmd { c with cmdQueue := c.cmdQueue.taken cfg cmd }) := by
  obtain ⟨hpending, hhome, hqueue, hwaiting⟩ := hs.pending_of_entry hmem
  obtain ⟨⟨t, ht⟩, hplace⟩ := hs.entry i cmd hmem
  have hrw : cmd.cmdType.isReadWrite = true := by
    rw [ht]
    exact transToCommand_isReadWrite
  have hqueues : (c.cmdQueue.taken cfg cmd).queues = Function.update c.cmdQueue.queues i
      ((c.cmdQueue.queues i).eraseP (CommandQueue.sameRequest cmd)) := by
    rw [CommandQueue.taken, if_pos hrw, hplace]
  have hclk : (c.cmdQueue.taken cfg cmd).clk = c.cmdQueue.clk := by
    rw [CommandQueue.taken, if_pos hrw]
  -- the entry that leaves the queue is one of the same kind and address
  obtain ⟨e, he, hsame, hfind⟩ := FirstMatch.find?_of_mem (p := CommandQueue.sameRequest cmd) hmem
    (by simp [CommandQueue.sameRequest])
  have hserves : ∀ w a, (servesFor w a e = true) ↔
      w = cmd.cmdType.isWrite ∧ a = cmd.hexAddr := by
    intro w a
    rw [CommandQueue.sameRequest, decide_eq_true_eq] at hsame
    rw [servesFor_iff, ← hsame.1, ← hsame.2, eq_comm, @eq_comm _ cmd.hexAddr]
  obtain ⟨hawake, hrankAwake, hrefreshQ⟩ := @Sound.issued_channel cfg timing c cmd hs
    (by rintro h; rw [h] at hrw; cases hrw) (by rintro h; rw [h] at hrw; cases hrw)
  refine ⟨?_, hawake, hrankAwake, hrefreshQ, ?_, ?_, ?_⟩
  · simp only [issued, completed_cmdQueue, completed_clk, hclk]
    exact hs.clk
  · simp only [issued, completed_cmdQueue, hqueues]
    intro j e' he'
    by_cases hj : j = i
    · subst hj
      rw [Function.update_self] at he'
      exact hs.entry j e' (List.mem_of_mem_eraseP he')
    · rw [Function.update_of_ne hj] at he'
      exact hs.entry j e' he'
  · intro w a
    have hbooks := hs.single w a
    have hleft : (issued cfg timing cmd { c with cmdQueue := c.cmdQueue.taken cfg cmd }).waiting =
        c.waiting := completed_waiting
    have hpend : countAddr ((issued cfg timing cmd
        { c with cmdQueue := c.cmdQueue.taken cfg cmd }).pending w) a =
        if w = cmd.cmdType.isWrite ∧ a = cmd.hexAddr then 0 else countAddr (c.pending w) a :=
      countAddr_completed (c := { c with cmdQueue := c.cmdQueue.taken cfg cmd }) hrw hpending
        (hs.writes _)
    have hcmds : ((issued cfg timing cmd
        { c with cmdQueue := c.cmdQueue.taken cfg cmd }).homeQueue cfg a).countP (servesFor w a) +
        (if w = cmd.cmdType.isWrite ∧ a = cmd.hexAddr then 1 else 0) =
        (c.homeQueue cfg a).countP (servesFor w a) := by
      simp only [homeQueue, issued, completed_cmdQueue, hqueues, ← hserves w a]
      by_cases hj : CommandQueue.getQueueIndex cfg (cfg.addressMapping a).bankId = i
      · rw [hj, Function.update_self]
        exact FirstMatch.countP_eraseP hfind _
      · rw [Function.update_of_ne hj, if_neg, Nat.add_zero]
        rw [hserves]
        rintro ⟨-, rfl⟩
        rw [ht] at hj hplace
        exact hj hplace
    rw [hleft, hpend]
    by_cases hwa : w = cmd.cmdType.isWrite ∧ a = cmd.hexAddr
    · obtain ⟨rfl, rfl⟩ := hwa
      simp only [and_self, if_true] at hcmds ⊢
      rw [hhome, hqueue] at hcmds
      simp only [Nat.lt_irrefl, if_false]
      omega
    · rw [if_neg hwa] at hcmds ⊢
      rw [← hbooks]
      omega
  · intro a
    have hpend : countAddr ((issued cfg timing cmd
        { c with cmdQueue := c.cmdQueue.taken cfg cmd }).pending true) a =
        if true = cmd.cmdType.isWrite ∧ a = cmd.hexAddr then 0 else countAddr (c.pending true) a :=
      countAddr_completed (c := { c with cmdQueue := c.cmdQueue.taken cfg cmd }) hrw hpending
        (hs.writes _)
    change countAddr ((issued cfg timing cmd
      { c with cmdQueue := c.cmdQueue.taken cfg cmd }).pending true) a ≤ 1
    rw [hpend]
    split
    · exact Nat.zero_le 1
    · exact hs.writes a

end Issue

section Schedule

theorem Sound.setWriteDraining (hs : Sound cfg c) (n : Int) :
    Sound cfg { c with writeDraining := n } :=
  ⟨hs.clk, hs.awake, hs.rankAwake, hs.refreshQ, hs.entry, hs.single, hs.writes⟩

theorem startDraining_frame : ∃ n, c.startDraining cfg = { c with writeDraining := n } := by
  rw [startDraining]
  split
  · exact ⟨_, rfl⟩
  · exact ⟨c.writeDraining, rfl⟩

/-- The controller after a transaction of its queue has become a command. -/
def moved (cfg : Config) (t : Transaction) (n : Int) (c : Controller) : Controller :=
  let i := CommandQueue.getQueueIndex cfg (transToCommand cfg t).bankId
  setQueue ((c.queue (c.source cfg)).eraseP (c.hasRoom cfg))
    { c with
      writeDraining := n
      cmdQueue := { c.cmdQueue with
        queues := Function.update c.cmdQueue.queues i
          (c.cmdQueue.queues i ++ [transToCommand cfg t])
        rankQEmpty := Function.update c.cmdQueue.rankQEmpty (transToCommand cfg t).addr.rank
          false } }
    (c.source cfg)

section Moved

variable {t : Transaction} {n : Int}

theorem moved_frame : (moved cfg t n c).clk = c.clk ∧
    (moved cfg t n c).channelState = c.channelState ∧
    (moved cfg t n c).cmdQueue.clk = c.cmdQueue.clk ∧
    (moved cfg t n c).pending = c.pending ∧
    (moved cfg t n c).returnQueue = c.returnQueue ∧
    (moved cfg t n c).cmdTrace = c.cmdTrace := by
  rw [moved]
  cases c.source cfg <;> exact ⟨rfl, rfl, rfl, rfl, rfl, rfl⟩

@[simp] theorem moved_queues (i : Int) : (moved cfg t n c).cmdQueue.queues i =
    if i = CommandQueue.getQueueIndex cfg (transToCommand cfg t).bankId then
      c.cmdQueue.queues i ++ [transToCommand cfg t]
    else c.cmdQueue.queues i := by
  have hqueues : (moved cfg t n c).cmdQueue.queues = Function.update c.cmdQueue.queues
      (CommandQueue.getQueueIndex cfg (transToCommand cfg t).bankId)
      (c.cmdQueue.queues (CommandQueue.getQueueIndex cfg (transToCommand cfg t).bankId) ++
        [transToCommand cfg t]) := by
    rw [moved]
    cases c.source cfg <;> rfl
  rw [hqueues, Function.update_apply]
  split
  · rename_i hi
    rw [hi]
  · rfl

/-- Taking a transaction out of a queue takes it out of the waiting ones. -/
theorem moved_waiting (hfind : (c.queue (c.source cfg)).find? (c.hasRoom cfg) = some t)
    (q : Transaction → Bool) :
    (moved cfg t n c).waiting.countP q + (if q t then 1 else 0) = c.waiting.countP q := by
  have hcount := FirstMatch.countP_eraseP hfind q
  rw [moved]
  generalize c.source cfg = src at hcount ⊢
  cases src <;> simp only [setQueue, waiting, queue, List.countP_append] at hcount ⊢ <;> omega

end Moved

/-- What `moveTransaction` does with the first transaction that its command queue has room
for. -/
theorem moveTransaction_cases : c.moveTransaction cfg = c ∨
    c.moveTransaction cfg = { c with writeDraining := 0 } ∨
    ∃ t n, (c.queue (c.source cfg)).find? (c.hasRoom cfg) = some t ∧
      (cfg.unifiedQueue = false → t.isWrite = true → countAddr c.pendingRdQ t.addr = 0) ∧
      c.moveTransaction cfg = moved cfg t n c := by
  rw [moveTransaction]
  dsimp only
  split
  · exact .inl rfl
  · rename_i t hfind
    have hroom : (c.cmdQueue.queues (CommandQueue.getQueueIndex cfg
        (transToCommand cfg t).bankId)).length < cfg.cmdQueueSize := by
      have h := List.find?_some hfind
      rwa [hasRoom, CommandQueue.willAcceptCommand, decide_eq_true_eq] at h
    split
    · exact .inr (.inl rfl)
    · rename_i hblocked
      have hreads : cfg.unifiedQueue = false → t.isWrite = true →
          countAddr c.pendingRdQ t.addr = 0 := by
        intro hunified hwrite
        rw [hunified, transToCommand_isWrite, hwrite] at hblocked
        simpa using hblocked
      refine .inr (.inr ⟨t, ?_⟩)
      split
      · exact ⟨_, hfind, hreads, by rw [CommandQueue.addCommand, if_pos hroom]; rfl⟩
      · exact ⟨c.writeDraining, hfind, hreads, by
          rw [CommandQueue.addCommand, if_pos hroom]; rfl⟩

/-- `ScheduleTransaction` changes the queues only. -/
theorem scheduleTransaction_frame : ∃ unified read write n q, c.scheduleTransaction cfg =
    { c with
      unifiedQueue := unified
      readQueue := read
      writeBuffer := write
      writeDraining := n
      cmdQueue := q } ∧
    q.isInRef = c.cmdQueue.isInRef ∧ q.refQIndices = c.cmdQueue.refQIndices := by
  obtain ⟨n, hn⟩ := @startDraining_frame cfg c
  rw [Controller.scheduleTransaction, hn]
  rcases @moveTransaction_cases cfg { c with writeDraining := n } with h | h | ⟨t, m, -, -, h⟩
  · exact ⟨_, _, _, _, _, h, rfl, rfl⟩
  · exact ⟨_, _, _, _, _, h, rfl, rfl⟩
  · rw [h, moved]
    cases source cfg { c with writeDraining := n } <;> exact ⟨_, _, _, _, _, rfl, rfl, rfl⟩

/-- A transaction that becomes a command stays in the books once. -/
theorem Sound.moveTransaction (hs : Sound cfg c) : Sound cfg (c.moveTransaction cfg) := by
  rcases @moveTransaction_cases cfg c with h | h | ⟨t, n, hfind, -, h⟩
  · rw [h]
    exact hs
  · rw [h]
    exact hs.setWriteDraining 0
  · rw [h]
    obtain ⟨hclk, hchannel, hqclk, hpending, -⟩ := @moved_frame cfg c t n
    refine ⟨?_, ?_, ?_, ?_, ?_, ?_, ?_⟩
    · rw [hclk, hqclk]
      exact hs.clk
    · rw [hchannel]
      exact hs.awake
    · rw [hchannel]
      exact hs.rankAwake
    · rw [hchannel]
      exact hs.refreshQ
    · intro i e he
      rw [moved_queues] at he
      split at he
      · rename_i hi
        rw [List.mem_append, List.mem_singleton] at he
        rcases he with he | rfl
        · exact hs.entry i e he
        · exact ⟨⟨t, rfl⟩, hi.symm⟩
      · exact hs.entry i e he
    · intro w a
      have hwaiting := moved_waiting (n := n) hfind (isFor w a)
      have hcmds : ((moved cfg t n c).homeQueue cfg a).countP (servesFor w a) =
          (c.homeQueue cfg a).countP (servesFor w a) + if isFor w a t then 1 else 0 := by
        rw [homeQueue, moved_queues]
        split
        · rw [List.countP_append, List.countP_singleton]
          simp only [servesFor_iff, isFor_iff, transToCommand_isWrite]
          rfl
        · rename_i hne
          rw [if_neg, Nat.add_zero]
          · rfl
          · rw [isFor_iff]
            rintro ⟨-, rfl⟩
            exact hne rfl
      rw [hpending, ← hs.single w a, hcmds]
      omega
    · intro a
      have hwr := congrFun hpending true
      change countAddr ((moved cfg t n c).pending true) a ≤ 1
      rw [hwr]
      exact hs.writes a

/-- `ScheduleTransaction` keeps the books. -/
theorem Sound.scheduleTransaction (hs : Sound cfg c) :
    Sound cfg (c.scheduleTransaction cfg) := by
  obtain ⟨n, h⟩ := @startDraining_frame cfg c
  rw [Controller.scheduleTransaction, h]
  exact (hs.setWriteDraining n).moveTransaction

end Schedule

section Move

theorem Sound.setCmdQueue (hs : Sound cfg c) {q : CommandQueue}
    (hqueues : q.queues = c.cmdQueue.queues) (hclk : q.clk = c.cmdQueue.clk) :
    Sound cfg { c with cmdQueue := q } where
  clk := hclk.trans hs.clk
  awake := hs.awake
  rankAwake := hs.rankAwake
  refreshQ := hs.refreshQ
  entry := by
    dsimp only
    rw [hqueues]
    exact hs.entry
  single := by
    simp only [homeQueue, hqueues]
    exact hs.single
  writes := hs.writes

theorem startRefresh_frame (q : CommandQueue) (ref : Command) :
    (q.startRefresh cfg ref).queues = q.queues ∧ (q.startRefresh cfg ref).clk = q.clk := by
  rw [CommandQueue.startRefresh]
  split <;> exact ⟨rfl, rfl⟩

/-- Every move keeps the books. -/
theorem Sound.move {c' : Controller} (hs : Sound cfg c) (h : Move cfg timing c c') :
    Sound cfg c' := by
  cases h with
  | tickRefresh =>
    obtain ⟨new, hnew, hrefresh⟩ := @Refresh.advance_refreshQ cfg c.refresh c.channelState
    rw [refreshed, hnew]
    refine ⟨hs.clk, hs.awake, hs.rankAwake, ?_, hs.entry, hs.single, hs.writes⟩
    intro ref href
    rcases List.mem_append.mp href with href | href
    · exact hs.refreshQ ref href
    · exact hrefresh ref href
  | startRefresh =>
    exact hs.setCmdQueue (startRefresh_frame _ _).1 (startRefresh_frame _ _).2
  | nextQueue => exact hs.setCmdQueue rfl rfl
  | @issueRefresh ref cmd rest hwait hready =>
    have href : ref ∈ c.channelState.refreshQ := hwait ▸ List.mem_cons_self
    have hcmd : cmd.cmdType.isRefresh = true ∨ cmd.cmdType = .precharge :=
      (hs.ready_refresh href hready).imp (fun h => by rw [h]; exact hs.refreshQ ref href) id
    apply Sound.issued_of_not_isReadWrite
    · exact hs.setCmdQueue (by split <;> rfl) (by split <;> rfl)
    all_goals
      revert hcmd
      cases cmd.cmdType <;> decide
  | @issueQueued i before behind entry cmd hqueue hready _ _ =>
    have hmem : entry ∈ c.cmdQueue.queues i := by
      rw [hqueue]
      simp
    obtain ⟨-, rfl | hcmd⟩ := hs.ready_entry hmem hready
    · exact hs.issued_entry hmem
    · have hrw : cmd.cmdType.isReadWrite = false := by
        rcases hcmd with h | h <;> rw [h] <;> rfl
      rw [CommandQueue.taken, hrw]
      apply Sound.issued_of_not_isReadWrite hs hrw
      all_goals rcases hcmd with h | h <;> rw [h] <;> decide
  | countIdle => exact ⟨hs.clk, hs.awake, hs.rankAwake, hs.refreshQ, hs.entry, hs.single, hs.writes⟩
  | schedule => exact hs.scheduleTransaction
  | tickClock =>
    exact ⟨congrArg (· + 1) hs.clk, hs.awake, hs.rankAwake, hs.refreshQ, hs.entry, hs.single,
      hs.writes⟩

end Move

end Controller

end GcnSim.Dramsim
