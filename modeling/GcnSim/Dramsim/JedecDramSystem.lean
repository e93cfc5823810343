import GcnSim.Dramsim.Session
import GcnSim.Lib.Buckets

/-!
# The channels of a memory

A memory has a controller for each channel. A transaction goes to the channel its address
selects; a cycle first returns, channel by channel, what is done, and then ticks every
controller.
-/

namespace GcnSim.Dramsim

/-- `class JedecDRAMSystem`. The mask of the channel selects one of the controllers. -/
structure JedecDramSystem (cfg : Config) where
  ctrls : List Controller
  clk : Nat
  chMask_lt : cfg.mapping.chMask < ctrls.length

/-- `GetChannel`. -/
def Config.getChannel (cfg : Config) (hexAddr : Nat) : Nat :=
  (hexAddr >>> cfg.mapping.shiftBits) >>> cfg.mapping.chPos &&& cfg.mapping.chMask

/-- The kind and address of a transaction. -/
def Transaction.key (t : Transaction) : Nat × Bool := (t.addr, t.isWrite)

namespace Controller

variable {cfg : Config} {timing : Timing} {c c' : Controller}

/-- What has been accepted and not returned. -/
def outstanding (c : Controller) : List (Nat × Bool) :=
  (c.returnQueue ++ c.pendingRdQ).map Transaction.key

/-- What lies in the write buffer. -/
def buffered (c : Controller) : List (Nat × Bool) := c.writeBuffer.map Transaction.key

theorem outstanding_addTransaction (a : Nat) (w : Bool) :
    (c.addTransaction cfg a w).outstanding.Perm (c.outstanding ++ [(a, w)]) := by
  have hreturn : ∀ n m, ((c.returnQueue ++ [(⟨a, n, m, w⟩ : Transaction)] ++ c.pendingRdQ).map
      Transaction.key).Perm (c.outstanding ++ [(a, w)]) := by
    intro n m
    rw [outstanding, List.append_assoc, List.map_append, List.map_append, List.map_append,
      List.append_assoc]
    exact List.Perm.append_left _ List.perm_append_comm
  have hpending : ∀ n m, ((c.returnQueue ++ (c.pendingRdQ ++ [(⟨a, n, m, w⟩ : Transaction)])).map
      Transaction.key).Perm (c.outstanding ++ [(a, w)]) := by
    intro n m
    rw [← List.append_assoc, List.map_append]
    exact .refl _
  rcases @addTransaction_cases cfg c a w with
    ⟨-, h⟩ | ⟨-, rfl, -, h⟩ | ⟨-, -, unified, read, write, -, -, h⟩
  · rw [h]
    exact hreturn _ _
  · rw [h]
    exact hpending _ _
  · rw [h]
    cases w
    case false =>
      dsimp only [outstanding]
      simp only [Bool.false_eq_true, if_false, List.append_nil]
      exact hpending _ _
    case true =>
      dsimp only [outstanding]
      simp only [if_true, List.append_nil]
      exact hreturn _ _

/-- Only an accepted write goes to the write buffer. -/
theorem buffered_addTransaction (a : Nat) (w : Bool) :
    (c.addTransaction cfg a w).buffered = c.buffered ∨
      w = true ∧ (c.addTransaction cfg a w).buffered = c.buffered ++ [(a, w)] := by
  rw [addTransaction]
  dsimp only
  split
  · rename_i hw
    split
    · split
      · exact .inl rfl
      · refine .inr ⟨hw, ?_⟩
        dsimp only [buffered]
        rw [List.map_append]
        rfl
    · exact .inl rfl
  · split
    · exact .inl rfl
    · split
      · split <;> exact .inl rfl
      · exact .inl rfl

theorem outstanding_completed (c : Controller) (cmd : Command) :
    (c.completed cfg cmd).outstanding.Perm c.outstanding := by
  rw [completed]
  split
  · have hkey : (Transaction.key ∘ fun t : Transaction =>
        { t with completeCycle := addDelay c.clk cfg.readDelay }) = Transaction.key := rfl
    dsimp only [outstanding]
    rw [List.append_assoc, List.map_append, List.map_append, List.map_append, List.map_map, hkey,
      ← List.map_append]
    exact List.Perm.append_left _
      ((List.filter_append_perm (atAddr cmd.hexAddr) c.pendingRdQ).map _)
  · split <;> exact .refl _

theorem completed_writeBuffer (c : Controller) (cmd : Command) :
    (c.completed cfg cmd).writeBuffer = c.writeBuffer := by
  rw [completed]
  split
  · rfl
  · split <;> rfl

/-- A cycle returns nothing. -/
theorem Move.outstanding (h : Move cfg timing c c') : c'.outstanding.Perm c.outstanding := by
  cases h with
  | issueRefresh => exact outstanding_completed _ _
  | issueQueued => exact outstanding_completed _ _
  | schedule =>
    obtain ⟨unified, read, write, n, q, h, -⟩ := @scheduleTransaction_frame cfg c
    rw [h]
    exact .refl _
  | _ => exact .refl _

theorem scheduleTransaction_writeBuffer :
    (c.scheduleTransaction cfg).writeBuffer.Sublist c.writeBuffer := by
  obtain ⟨n, hn⟩ := @startDraining_frame cfg c
  rw [Controller.scheduleTransaction, hn]
  rcases @moveTransaction_cases cfg { c with writeDraining := n } with h | h | ⟨t, m, -, -, h⟩
  · rw [h]
  · rw [h]
  · rw [h, moved]
    cases source cfg { c with writeDraining := n } with
    | unified => exact List.Sublist.refl _
    | read => exact List.Sublist.refl _
    | write => exact List.eraseP_sublist

/-- A cycle only takes writes out of the write buffer. -/
theorem Move.writeBuffer (h : Move cfg timing c c') : c'.writeBuffer.Sublist c.writeBuffer := by
  cases h with
  | issueRefresh =>
    dsimp only [issued]
    rw [completed_writeBuffer]
  | issueQueued =>
    dsimp only [issued]
    rw [completed_writeBuffer]
  | schedule => exact scheduleTransaction_writeBuffer
  | _ => exact List.Sublist.refl _

/-- A cycle of a sound controller. -/
theorem Sound.clockTick_spec (hs : Sound cfg c) (hsafe : cfg.Safe timing) :
    ∃ c', c.clockTick cfg timing = .ok c' ∧ Sound cfg c' ∧ c'.outstanding.Perm c.outstanding ∧
      c'.buffered.Sublist c.buffered := by
  obtain ⟨c', hc', hmoves⟩ := hs.clockTick_moves hsafe
  refine ⟨c', hc', hs.moves hmoves, ?_, ?_⟩
  · clear hc'
    induction hmoves with
    | refl => exact .refl _
    | tail _ hlast ih => exact hlast.outstanding.trans ih
  · clear hc'
    induction hmoves with
    | refl => exact List.Sublist.refl _
    | tail _ hlast ih => exact (hlast.writeBuffer.map _).trans ih

end Controller

namespace JedecDramSystem

variable {cfg : Config}

/-- The constructor. -/
def init (channels : Nat) (hchannels : cfg.mapping.chMask < channels) :
    JedecDramSystem cfg where
  ctrls := List.replicate channels .init
  clk := 0
  chMask_lt := by rwa [List.length_replicate]

theorem getChannel_lt (m : JedecDramSystem cfg) (hexAddr : Nat) :
    cfg.getChannel hexAddr < m.ctrls.length :=
  Nat.lt_of_le_of_lt Nat.and_le_right m.chMask_lt

/-- `ctrls_[channel]`. -/
def ctrl (m : JedecDramSystem cfg) (hexAddr : Nat) : Controller :=
  m.ctrls.get ⟨cfg.getChannel hexAddr, m.getChannel_lt hexAddr⟩

theorem getElem?_ctrls (m : JedecDramSystem cfg) (hexAddr : Nat) :
    m.ctrls[cfg.getChannel hexAddr]? = some (m.ctrl hexAddr) :=
  List.getElem?_eq_getElem (m.getChannel_lt hexAddr)

/-- `WillAcceptTransaction`. -/
def willAcceptTransaction (m : JedecDramSystem cfg) (hexAddr : Nat) (isWrite : Bool) : Bool :=
  (m.ctrl hexAddr).willAcceptTransaction cfg isWrite

/-- `AddTransaction`, where `assert` is not compiled in. -/
def addTransaction (m : JedecDramSystem cfg) (hexAddr : Nat) (isWrite : Bool) :
    Bool × JedecDramSystem cfg :=
  let ok := m.willAcceptTransaction hexAddr isWrite
  if ok then
    (ok, { m with
      ctrls := m.ctrls.modify (cfg.getChannel hexAddr) (·.addTransaction cfg hexAddr isWrite)
      chMask_lt := by
        rw [List.length_modify]
        exact m.chMask_lt })
  else (ok, m)

/-- `n` rounds at most of the loop in `ClockTick` that returns what is done. -/
def returnLoop (clk : Nat) : Nat → Controller → List Transaction × Controller
  | 0, c => ([], c)
  | n + 1, c =>
    match c.returnDoneTrans clk with
    | (none, c) => ([], c)
    | (some t, c) =>
      let r := returnLoop clk n c
      (t :: r.1, r.2)

/-- The loop of `ClockTick` for one controller: one round for each transaction, and the last
one, which finds none. -/
def returnAll (clk : Nat) (c : Controller) : List Transaction × Controller :=
  returnLoop clk (c.returnQueue.length + 1) c

/-- The second loop of `ClockTick`. -/
def tickAll (cfg : Config) (timing : Timing) : List Controller → Except Abort (List Controller)
  | [] => .ok []
  | c :: cs =>
    match c.clockTick cfg timing with
    | .error e => .error e
    | .ok c =>
      match tickAll cfg timing cs with
      | .error e => .error e
      | .ok cs => .ok (c :: cs)

theorem length_tickAll {timing : Timing} {cs cs' : List Controller}
    (h : tickAll cfg timing cs = .ok cs') : cs'.length = cs.length := by
  induction cs generalizing cs' with
  | nil =>
    cases h
    rfl
  | cons c cs ih =>
    rw [tickAll] at h
    split at h
    · cases h
    · split at h
      · cases h
      · rename_i hcs
        cases h
        rw [List.length_cons, List.length_cons, ih hcs]

/-- `ClockTick`: the transactions that the callbacks get, in order, and the next state. The test
for the end of an epoch, `clk_ % epoch_period`, ends the process for an epoch of zero. -/
def clockTick (timing : Timing) (m : JedecDramSystem cfg) :
    Except Abort (List Transaction × JedecDramSystem cfg) :=
  let returned := m.ctrls.map (returnAll m.clk)
  match h : tickAll cfg timing (returned.map Prod.snd) with
  | .error e => .error e
  | .ok ctrls =>
    if cfg.epochPeriod = 0 then .error .divisionByZero
    else .ok (returned.flatMap Prod.fst,
      { ctrls := ctrls
        clk := m.clk + 1
        chMask_lt := by
          rw [length_tickAll h, List.length_map, List.length_map]
          exact m.chMask_lt })

/-- `IsQueueFill`. -/
def isQueueFill (m : JedecDramSystem cfg) : Bool :=
  m.ctrls.any fun c => decide (0 < c.writeBuffer.length)

section Return

/-- `clk >= it->complete_cycle`. -/
def isDone (clk : Nat) (t : Transaction) : Bool := decide (t.completeCycle ≤ clk)

theorem returnDoneTrans_none {clk : Nat} {c : Controller}
    (h : c.returnQueue.find? (isDone clk) = none) : c.returnDoneTrans clk = (none, c) := by
  have herase : c.returnQueue.eraseP (isDone clk) = c.returnQueue :=
    List.eraseP_of_forall_not (List.find?_eq_none.mp h)
  change (c.returnQueue.find? (isDone clk),
    { c with returnQueue := c.returnQueue.eraseP (isDone clk) }) = _
  rw [h, herase]

theorem returnLoop_none {clk : Nat} {c : Controller} (h : c.returnQueue.find? (isDone clk) = none)
    (n : Nat) : returnLoop clk n c = ([], c) := by
  cases n with
  | zero => rfl
  | succ n => rw [returnLoop, returnDoneTrans_none h]

/-- The rounds after the one that finds nothing would find nothing either. -/
theorem returnLoop_succ (clk n : Nat) (c : Controller) :
    returnLoop clk (n + 1) c =
      ((c.returnDoneTrans clk).1.toList ++ (returnLoop clk n (c.returnDoneTrans clk).2).1,
        (returnLoop clk n (c.returnDoneTrans clk).2).2) := by
  cases hfind : c.returnQueue.find? (isDone clk) with
  | none =>
    rw [returnLoop_none hfind, returnDoneTrans_none hfind, returnLoop_none hfind]
    rfl
  | some t =>
    have hround : c.returnDoneTrans clk =
        (some t, { c with returnQueue := c.returnQueue.eraseP (isDone clk) }) := by
      change (c.returnQueue.find? (isDone clk), _) = _
      rw [hfind]
      rfl
    rw [returnLoop, hround]
    rfl

/-- The loop returns what is done, in the order of the return queue. -/
theorem returnLoop_eq {clk n : Nat} {c : Controller} (h : c.returnQueue.length < n) :
    returnLoop clk n c = (c.returnQueue.filter (isDone clk),
      { c with returnQueue := c.returnQueue.filter fun t => !isDone clk t }) := by
  induction n generalizing c with
  | zero => exact (Nat.not_lt_zero _ h).elim
  | succ n ih =>
    cases hfind : c.returnQueue.find? (isDone clk) with
    | none =>
      have hnone := List.find?_eq_none.mp hfind
      have hall : ∀ t ∈ c.returnQueue, (!isDone clk t) = true := by simpa using hnone
      rw [returnLoop_none hfind, List.filter_eq_nil_iff.mpr hnone, List.filter_eq_self.mpr hall]
    | some t =>
      obtain ⟨before, behind, hlist, herase, hbefore⟩ := FirstMatch.eraseP_eq_append hfind
      have hdone : isDone clk t = true := List.find?_some hfind
      have hskip : before.filter (isDone clk) = [] :=
        List.filter_eq_nil_iff.mpr fun y hy => by rw [hbefore y hy]; exact Bool.false_ne_true
      have hshort : (before ++ behind).length < n := by
        rw [hlist, List.length_append, List.length_cons] at h
        rw [List.length_append]
        omega
      have hround : c.returnDoneTrans clk =
          (some t, { c with returnQueue := before ++ behind }) := by
        change (c.returnQueue.find? (isDone clk),
          { c with returnQueue := c.returnQueue.eraseP (isDone clk) }) = _
        rw [hfind, herase]
      rw [returnLoop_succ, hround, ih hshort, hlist]
      simp [hskip, hdone]

theorem returnAll_eq (clk : Nat) (c : Controller) :
    returnAll clk c = (c.returnQueue.filter (isDone clk),
      { c with returnQueue := c.returnQueue.filter fun t => !isDone clk t }) :=
  returnLoop_eq (Nat.lt_succ_self _)

end Return

section Cycle

variable {timing : Timing}

theorem returnAll_spec (clk : Nat) {c : Controller} (hs : c.Sound cfg) :
    Controller.Sound cfg (returnAll clk c).2 ∧
      ((returnAll clk c).1.map Transaction.key ++ (returnAll clk c).2.outstanding).Perm
        c.outstanding ∧ (returnAll clk c).2.buffered = c.buffered := by
  rw [returnAll_eq]
  refine ⟨⟨hs.clk, hs.awake, hs.rankAwake, hs.refreshQ, hs.entry, hs.single, hs.writes⟩, ?_, rfl⟩
  dsimp only [Controller.outstanding]
  rw [List.map_append, List.map_append, ← List.append_assoc, ← List.map_append]
  exact List.Perm.append_right _ ((List.filter_append_perm (isDone clk) c.returnQueue).map _)

theorem getElem?_tickAll {cs cs' : List Controller} (h : tickAll cfg timing cs = .ok cs') {i : Nat}
    {c : Controller} (hc : cs'[i]? = some c) :
    ∃ c₀, cs[i]? = some c₀ ∧ c₀.clockTick cfg timing = .ok c := by
  induction cs generalizing cs' i with
  | nil =>
    cases h
    cases hc
  | cons c₁ cs ih =>
    rw [tickAll] at h
    split at h
    · cases h
    · rename_i c₁' hc₁
      split at h
      · cases h
      · rename_i cs₁ hcs
        cases h
        cases i with
        | zero =>
          cases hc
          exact ⟨c₁, rfl, hc₁⟩
        | succ i => exact ih hcs hc

/-- What a cycle does, controller by controller. -/
theorem clockTick_eq_ok {m m' : JedecDramSystem cfg} {done : List Transaction}
    (h : m.clockTick timing = .ok (done, m')) :
    done = (m.ctrls.map fun c => (returnAll m.clk c).1).flatten ∧ m'.clk = m.clk + 1 ∧
      ∀ (i : Nat) (c : Controller), m'.ctrls[i]? = some c →
        ∃ c₀, m.ctrls[i]? = some c₀ ∧ (returnAll m.clk c₀).2.clockTick cfg timing = .ok c := by
  rw [clockTick] at h
  split at h
  · cases h
  · rename_i ctrls hctrls
    split at h
    · cases h
    cases h
    refine ⟨?_, rfl, fun i c hc => ?_⟩
    · rw [List.flatMap_def, List.map_map]
      rfl
    · obtain ⟨c₁, hc₁, htick⟩ := getElem?_tickAll hctrls hc
      rw [List.map_map, List.getElem?_map] at hc₁
      obtain ⟨c₀, hc₀, rfl⟩ := Option.map_eq_some_iff.mp hc₁
      exact ⟨c₀, hc₀, htick⟩

/-- What has been accepted and not returned. -/
def outstanding (m : JedecDramSystem cfg) : List (Nat × Bool) :=
  m.ctrls.flatMap Controller.outstanding

/-- What lies in the write buffers. -/
def buffered (m : JedecDramSystem cfg) : List (Nat × Bool) := m.ctrls.flatMap Controller.buffered

theorem isQueueFill_eq (m : JedecDramSystem cfg) : m.isQueueFill = !m.buffered.isEmpty := by
  rw [Bool.eq_iff_iff, isQueueFill, List.any_eq_true, Bool.not_eq_true', List.isEmpty_eq_false_iff,
    buffered, Ne, List.flatMap_eq_nil_iff]
  simp only [decide_eq_true_eq, not_forall, exists_prop, Controller.buffered, List.map_eq_nil_iff,
    List.length_pos_iff_ne_nil, ne_eq]

/-- All controllers are sound. -/
def Sound (m : JedecDramSystem cfg) : Prop := ∀ c ∈ m.ctrls, Controller.Sound cfg c

theorem sound_init (channels : Nat) (hchannels : cfg.mapping.chMask < channels) :
    (init channels hchannels).Sound := by
  intro c hc
  rw [List.eq_of_mem_replicate hc]
  exact Controller.sound_init cfg

/-- The two loops of `ClockTick` over the controllers: none ends the process, what they return was
outstanding, and the write buffers only lose writes. -/
theorem tickAll_returnAll (hsafe : cfg.Safe timing) (clk : Nat) {cs : List Controller}
    (hcs : ∀ c ∈ cs, Controller.Sound cfg c) :
    ∃ cs', tickAll cfg timing ((cs.map (returnAll clk)).map Prod.snd) = .ok cs' ∧
      (∀ c ∈ cs', Controller.Sound cfg c) ∧
      (((cs.map (returnAll clk)).flatMap Prod.fst).map Transaction.key ++
        cs'.flatMap Controller.outstanding).Perm (cs.flatMap Controller.outstanding) ∧
      (cs'.flatMap Controller.buffered).Sublist (cs.flatMap Controller.buffered) := by
  induction cs with
  | nil => exact ⟨[], rfl, fun c hc => (List.not_mem_nil hc).elim, .refl _, List.Sublist.refl _⟩
  | cons c cs ih =>
    rw [List.forall_mem_cons] at hcs
    obtain ⟨hsound, hperm, hbuffered⟩ := returnAll_spec clk hcs.1
    obtain ⟨c', hc', hsound', hperm', hbuffered'⟩ := hsound.clockTick_spec hsafe
    obtain ⟨cs', hcs', hsounds, hperms, hsub⟩ := ih hcs.2
    refine ⟨c' :: cs', ?_, List.forall_mem_cons.mpr ⟨hsound', hsounds⟩, ?_, ?_⟩
    · rw [List.map_cons, List.map_cons, tickAll, hc']
      dsimp only
      rw [hcs']
    · rw [List.map_cons, List.flatMap_cons, List.flatMap_cons, List.flatMap_cons,
        List.map_append, List.append_assoc]
      have hmiddle := (List.perm_append_comm_assoc
        (((cs.map (returnAll clk)).flatMap Prod.fst).map Transaction.key) c'.outstanding
        (cs'.flatMap Controller.outstanding)).append_left
        ((returnAll clk c).1.map Transaction.key)
      refine hmiddle.trans ?_
      rw [← List.append_assoc]
      exact ((hperm'.append_left _).trans hperm).append hperms
    · rw [List.flatMap_cons, List.flatMap_cons]
      exact (hbuffered ▸ hbuffered').append hsub

/-- A cycle in which no controller ends the process. -/
theorem clockTick_of_tickAll (hepoch : 0 < cfg.epochPeriod) {m : JedecDramSystem cfg}
    {cs : List Controller}
    (h : tickAll cfg timing ((m.ctrls.map (returnAll m.clk)).map Prod.snd) = .ok cs) :
    ∃ hlt, m.clockTick timing =
      .ok ((m.ctrls.map (returnAll m.clk)).flatMap Prod.fst, ⟨cs, m.clk + 1, hlt⟩) := by
  have hlt : cfg.mapping.chMask < cs.length := by
    rw [length_tickAll h, List.length_map, List.length_map]
    exact m.chMask_lt
  refine ⟨hlt, ?_⟩
  rw [JedecDramSystem.clockTick]
  split
  · rename_i htick
    rw [h] at htick
    cases htick
  · rename_i ctrls htick
    rw [h] at htick
    cases htick
    rw [if_neg hepoch.ne']

/-- A cycle of a safe memory: what it returns was outstanding, and write buffers only lose
writes. -/
theorem Sound.clockTick {m : JedecDramSystem cfg} (hs : m.Sound) (hsafe : cfg.Safe timing) :
    ∃ done m', m.clockTick timing = .ok (done, m') ∧ m'.Sound ∧
      (done.map Transaction.key ++ m'.outstanding).Perm m.outstanding ∧
      m'.buffered.Sublist m.buffered := by
  obtain ⟨cs', hcs', hsounds, hperm, hsub⟩ := tickAll_returnAll hsafe m.clk hs
  obtain ⟨hlt, hcycle⟩ := clockTick_of_tickAll hsafe.epoch hcs'
  exact ⟨_, _, hcycle, hsounds, hperm, hsub⟩

/-- What an accepted transaction does. -/
theorem Sound.addTransaction {m : JedecDramSystem cfg} (hs : m.Sound) {a : Nat} {w : Bool}
    (h : m.willAcceptTransaction a w = true) :
    (m.addTransaction a w).2.Sound ∧
      (m.addTransaction a w).2.outstanding.Perm (m.outstanding ++ [(a, w)]) ∧
      ((m.addTransaction a w).2.buffered.Perm m.buffered ∨
        w = true ∧ (m.addTransaction a w).2.buffered.Perm (m.buffered ++ [(a, w)])) := by
  have hlt := m.getChannel_lt a
  rw [JedecDramSystem.addTransaction, if_pos h]
  refine ⟨Buckets.forall_mem_modify (fun c hc => hc.addTransaction a w) hs _, ?_, ?_⟩
  · exact Buckets.flatMap_modify_perm hlt (Controller.outstanding_addTransaction a w)
  · rcases @Controller.buffered_addTransaction cfg m.ctrls[cfg.getChannel a] a w with h | ⟨hw, h⟩
    · left
      have hsame : ((m.ctrls[cfg.getChannel a].addTransaction cfg a w).buffered ++ []).Perm
          (m.ctrls[cfg.getChannel a].buffered ++ []) := by
        rw [h]
      have hperm := Buckets.flatMap_modify_append_perm hlt hsame
      rwa [List.append_nil, List.append_nil] at hperm
    · exact .inr ⟨hw, Buckets.flatMap_modify_perm hlt (.of_eq h)⟩

end Cycle

end JedecDramSystem

end GcnSim.Dramsim
