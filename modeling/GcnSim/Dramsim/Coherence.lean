import GcnSim.Dramsim.Ordering
import GcnSim.Dramsim.Shipped
import GcnSim.Lib.BufferedMemory

/-!
# Reads see the last write

The simulator moves no data. Here every write brings a value along: the pending write of an
address holds the last one, a write command stores it, and a read command loads the value for
all pending reads of its address. Every read then sees the last write accepted before it,
whatever the order in which the commands are issued.
-/

namespace GcnSim.Dramsim

open BufferedMemory Controller Relation

/-- A session beside the accesses to the memory that it amounts to. -/
structure Observed (β : Type*) where
  session : Session
  events : List (Event Nat β)

namespace Observed

variable {β : Type*}

/-- A new session. -/
def init : Observed β := ⟨.init, []⟩

/-- The access of a command to the cells. -/
def access (cmd : Command) : List (Event Nat β) :=
  if cmd.cmdType.isRead then [.load cmd.hexAddr]
  else if cmd.cmdType.isWrite then [.store cmd.hexAddr]
  else []

/-- The accesses of a part of the command trace. -/
def accesses (trace : List (Nat × Command)) : List (Event Nat β) :=
  trace.flatMap fun e => access e.2

variable (cfg : Config) (timing : Timing)

/-- What a call that leads from `s` to `s'` means for the memory. -/
def eventsOf (s s' : Session) (value : β) : Action → List (Event Nat β)
  | .add hexAddr isWrite =>
    if s.controller.willAcceptTransaction cfg isWrite then
      [if isWrite then .write hexAddr value else .read hexAddr]
    else []
  | .returnDone _ => []
  | .clockTick => accesses (s'.controller.cmdTrace.drop s.controller.cmdTrace.length)

/-- One call, with the value for a write. -/
def step (o : Observed β) (input : Action × β) : Except Abort (Observed β) :=
  match o.session.step cfg timing input.1 with
  | .error e => .error e
  | .ok s => .ok ⟨s, o.events ++ eventsOf cfg o.session s input.2 input.1⟩

/-- A run of the controller. -/
def run (inputs : List (Action × β)) : Except Abort (Observed β) :=
  Transition.runM (step cfg timing) init inputs

/-- The memory after the accesses of a session. -/
def memory (contents : Nat → β) (o : Observed β) : BufferedMemory.State Nat β :=
  Transition.run BufferedMemory.step (BufferedMemory.init contents) o.events

variable {cfg timing} {c : Controller} {m : BufferedMemory.State Nat β}

/-- Watching a session does not change it. -/
theorem run_session {inputs : List (Action × β)} {o : Observed β}
    (h : run cfg timing inputs = .ok o) :
    Session.run cfg timing (inputs.map Prod.fst) = .ok o.session := by
  have hfrom : ∀ (inputs : List (Action × β)) (p : Observed β),
      Transition.runM (step cfg timing) p inputs = .ok o →
      Transition.runM (Session.step cfg timing) p.session (inputs.map Prod.fst) =
        .ok o.session := by
    intro inputs
    induction inputs with
    | nil =>
      intro p hp
      cases hp
      rfl
    | cons input inputs ih =>
      intro p hp
      rw [Transition.runM, step] at hp
      rw [List.map_cons, Transition.runM]
      cases hstep : p.session.step cfg timing input.1 with
      | error e =>
        rw [hstep] at hp
        cases hp
      | ok s =>
        rw [hstep] at hp
        exact ih _ hp
  exact hfrom inputs init h

/-- The controller knows which writes are in the buffer and which reads wait. -/
structure Mirrors (c : Controller) (m : BufferedMemory.State Nat β) : Prop where
  buffer : ∀ a, (m.buffer a).isSome = decide (0 < countAddr c.pendingWrQ a)
  waiting : ∀ a, (m.waiting a).length = countAddr c.pendingRdQ a

theorem mirrors_init (contents : Nat → β) : Mirrors .init (BufferedMemory.init contents) where
  buffer := fun _ => rfl
  waiting := fun _ => rfl

/-- A transaction that is accepted. -/
theorem Mirrors.addTransaction (h : Mirrors c m) (a : Nat) (w : Bool) (v : β) :
    Mirrors (c.addTransaction cfg a w)
      (BufferedMemory.step m (if w then .write a v else .read a)) := by
  have hbuffer := h.buffer a
  rcases @addTransaction_cases cfg c a w with
    ⟨hwr, heq⟩ | ⟨hwr, rfl, -, heq⟩ | ⟨-, hwr, unified, read, write, -, -, heq⟩
  · rw [heq]
    rw [decide_eq_true hwr] at hbuffer
    obtain ⟨old, hold⟩ := Option.isSome_iff_exists.mp hbuffer
    cases w
    case false =>
      simp only [Bool.false_eq_true, if_false, BufferedMemory.step, hold]
      exact ⟨h.buffer, h.waiting⟩
    case true =>
      simp only [if_true, BufferedMemory.step]
      refine ⟨fun b => ?_, h.waiting⟩
      dsimp only
      rw [Function.update_apply]
      split
      · rename_i hb
        rw [hb]
        exact (decide_eq_true hwr).symm
      · exact h.buffer b
  · rw [heq]
    rw [hwr] at hbuffer
    have hnone : m.buffer a = none := Option.not_isSome_iff_eq_none.mp (by rw [hbuffer]; decide)
    simp only [Bool.false_eq_true, if_false, BufferedMemory.step, hnone]
    refine ⟨h.buffer, fun b => ?_⟩
    dsimp only
    rw [countAddr_append, countAddr_singleton, Function.update_apply, ← h.waiting b]
    by_cases hb : b = a
    · rw [if_pos hb, if_pos hb.symm, hb, List.length_append, List.length_singleton]
    · rw [if_neg hb, if_neg (Ne.symm hb), Nat.add_zero]
  · rw [heq]
    rw [hwr] at hbuffer
    have hnone : m.buffer a = none := Option.not_isSome_iff_eq_none.mp (by rw [hbuffer]; decide)
    cases w
    case false =>
      simp only [Bool.false_eq_true, if_false, BufferedMemory.step, hnone, List.append_nil]
      refine ⟨h.buffer, fun b => ?_⟩
      dsimp only
      rw [countAddr_append, countAddr_singleton, Function.update_apply, ← h.waiting b]
      by_cases hb : b = a
      · rw [if_pos hb, if_pos hb.symm, hb, List.length_append, List.length_singleton]
      · rw [if_neg hb, if_neg (Ne.symm hb), Nat.add_zero]
    case true =>
      simp only [if_true, BufferedMemory.step, List.append_nil]
      refine ⟨fun b => ?_, h.waiting⟩
      dsimp only
      rw [countAddr_append, countAddr_singleton, Function.update_apply]
      by_cases hb : b = a
      · rw [if_pos hb, if_pos hb.symm]
        exact (decide_eq_true (Nat.succ_pos _)).symm
      · rw [if_neg hb, if_neg (Ne.symm hb)]
        exact h.buffer b

/-- A read or write command that is issued. -/
theorem Mirrors.completed (h : Mirrors c m) {cmd : Command}
    (hrw : cmd.cmdType.isReadWrite = true)
    (hpos : 0 < countAddr (c.pending cmd.cmdType.isWrite) cmd.hexAddr)
    (hone : countAddr c.pendingWrQ cmd.hexAddr ≤ 1) :
    Mirrors (c.completed cfg cmd) (Transition.run BufferedMemory.step m (access cmd)) := by
  have hcount := @countAddr_completed cfg c cmd
  cases hwrite : cmd.cmdType.isWrite with
  | false =>
    have hread : cmd.cmdType.isRead = true := by
      rw [CommandType.isReadWrite, hwrite, Bool.or_false] at hrw
      exact hrw
    rw [access, if_pos hread]
    refine ⟨fun b => ?_, fun b => ?_⟩
    · have hb := hcount (w := true) (a := b) hrw hpos hone
      rw [hwrite, if_neg (by simp)] at hb
      change countAddr (c.completed cfg cmd).pendingWrQ b = countAddr c.pendingWrQ b at hb
      rw [hb]
      exact h.buffer b
    · have hb := hcount (w := false) (a := b) hrw hpos hone
      rw [hwrite] at hb
      change countAddr (c.completed cfg cmd).pendingRdQ b = if _ then 0
        else countAddr c.pendingRdQ b at hb
      rw [hb, Transition.run_cons, Transition.run_nil]
      dsimp only [BufferedMemory.step]
      rw [Function.update_apply, ← h.waiting b]
      by_cases hba : b = cmd.hexAddr
      · rw [if_pos hba, if_pos ⟨rfl, hba⟩]
        rfl
      · rw [if_neg hba, if_neg fun h => hba h.2]
  | true =>
    have hread : ¬ cmd.cmdType.isRead = true := by
      revert hwrite
      cases cmd.cmdType <;> decide
    rw [hwrite] at hpos
    have hbuffer := h.buffer cmd.hexAddr
    rw [decide_eq_true (show 0 < countAddr c.pendingWrQ cmd.hexAddr from hpos)] at hbuffer
    obtain ⟨v, hv⟩ := Option.isSome_iff_exists.mp hbuffer
    rw [access, if_neg hread, if_pos hwrite, Transition.run_cons, Transition.run_nil,
      BufferedMemory.step, hv]
    rw [← hwrite] at hpos
    refine ⟨fun b => ?_, fun b => ?_⟩
    · have hb := hcount (w := true) (a := b) hrw hpos hone
      rw [hwrite] at hb
      change countAddr (c.completed cfg cmd).pendingWrQ b = if _ then 0
        else countAddr c.pendingWrQ b at hb
      dsimp only
      rw [hb, Function.update_apply]
      by_cases hba : b = cmd.hexAddr
      · rw [if_pos hba, if_pos ⟨rfl, hba⟩]
        rfl
      · rw [if_neg hba, if_neg fun h => hba h.2]
        exact h.buffer b
    · have hb := hcount (w := false) (a := b) hrw hpos hone
      rw [hwrite, if_neg (by simp)] at hb
      change countAddr (c.completed cfg cmd).pendingRdQ b = countAddr c.pendingRdQ b at hb
      dsimp only
      rw [hb]
      exact h.waiting b

/-- What the moves from `c` to `c'` mean for the memory `m`. -/
structure Follows (cfg : Config) (c : Controller) (m : BufferedMemory.State Nat β) (c' : Controller)
    (new : List (Nat × Command)) : Prop where
  trace : c'.cmdTrace = c.cmdTrace ++ new
  allowed : Transition.Guarded BufferedMemory.step Allowed m (accesses new)
  mirrors : Mirrors c' (Transition.run BufferedMemory.step m (accesses new))
  sound : Sound cfg c'
  ordered : Ordered cfg c'

/-- A command of the cycle. -/
theorem follows_issued {cmd : Command} {q : CommandQueue} (h : Mirrors c m)
    (hs : Sound cfg (issued cfg timing cmd { c with cmdQueue := q }))
    (ho : Ordered cfg (issued cfg timing cmd { c with cmdQueue := q }))
    (hrw : cmd.cmdType.isReadWrite = true →
      0 < countAddr (c.pending cmd.cmdType.isWrite) cmd.hexAddr ∧
      countAddr c.pendingWrQ cmd.hexAddr ≤ 1)
    (hfree : cmd.cmdType.isWrite = true → countAddr c.pendingRdQ cmd.hexAddr = 0) :
    Follows cfg c m (issued cfg timing cmd { c with cmdQueue := q }) [(c.clk, cmd)] := by
  have haccesses : accesses [(c.clk, cmd)] = (access cmd : List (Event Nat β)) :=
    List.append_nil _
  have hmirrors : Mirrors (Controller.completed cfg cmd { c with cmdQueue := q })
      (Transition.run BufferedMemory.step m (access cmd)) := by
    by_cases hkind : cmd.cmdType.isReadWrite = true
    · exact Mirrors.completed (c := { c with cmdQueue := q }) ⟨h.buffer, h.waiting⟩ hkind
        (hrw hkind).1 (hrw hkind).2
    · rw [Bool.not_eq_true] at hkind
      rw [completed_of_not_isReadWrite hkind]
      rw [CommandType.isReadWrite, Bool.or_eq_false_iff] at hkind
      rw [access, hkind.1, hkind.2]
      exact ⟨h.buffer, h.waiting⟩
  refine ⟨rfl, ?_, ?_, hs, ho⟩
  · rw [haccesses, access]
    split
    · exact ⟨trivial, trivial⟩
    · split
      · rename_i hwrite
        refine ⟨List.length_eq_zero_iff.mp ?_, trivial⟩
        rw [h.waiting, hfree hwrite]
      · trivial
  · rw [haccesses]
    exact ⟨hmirrors.buffer, hmirrors.waiting⟩

theorem follows_of_frame {c' : Controller} (h : Mirrors c m) (hs : Sound cfg c')
    (ho : Ordered cfg c') (htrace : c'.cmdTrace = c.cmdTrace) (hpending : c'.pending = c.pending) :
    Follows cfg c m c' [] := by
  have hread : c'.pendingRdQ = c.pendingRdQ := congrFun hpending false
  have hwrite : c'.pendingWrQ = c.pendingWrQ := congrFun hpending true
  refine ⟨by rw [htrace, List.append_nil], trivial, ⟨fun a => ?_, fun a => ?_⟩, hs, ho⟩
  · rw [hwrite]
    exact h.buffer a
  · rw [hread]
    exact h.waiting a

theorem not_isReadWrite_of_refresh (hs : Sound cfg c) {ref cmd : Command}
    (href : ref ∈ c.channelState.refreshQ)
    (hready : c.channelState.getReadyCommand cfg ref c.clk = .ok (some cmd)) :
    cmd.cmdType.isReadWrite = false := by
  have hcmd : cmd.cmdType.isRefresh = true ∨ cmd.cmdType = .precharge :=
    (hs.ready_refresh href hready).imp (fun h => by rw [h]; exact hs.refreshQ ref href) id
  revert hcmd
  cases cmd.cmdType <;> decide

/-- A move is a part of the command trace and an allowed one. -/
theorem Mirrors.move {c' : Controller} (h : Mirrors c m) (hs : Sound cfg c) (ho : Ordered cfg c)
    (hmove : Move cfg timing c c') : ∃ new, Follows cfg c m c' new := by
  have hs' := hs.move hmove
  have ho' := ho.move hmove
  cases hmove with
  | @issueRefresh ref cmd rest hwait hready =>
    have hrw := not_isReadWrite_of_refresh hs (hwait ▸ List.mem_cons_self) hready
    refine ⟨_, follows_issued h hs' ho' (fun h => ?_) (fun h => ?_)⟩
    · rw [hrw] at h
      cases h
    · rw [CommandType.isReadWrite, h, Bool.or_true] at hrw
      cases hrw
  | @issueQueued i before behind entry cmd hqueue hready hdep _ =>
    have hmem : entry ∈ c.cmdQueue.queues i := by
      rw [hqueue]
      simp
    refine ⟨_, follows_issued h hs' ho' (fun hrw => ?_) (fun hwrite => ?_)⟩
    · rcases (hs.ready_entry hmem hready).2 with rfl | hcmd | hcmd
      · exact ⟨(hs.pending_of_entry hmem).1, hs.writes _⟩
      · rw [hcmd] at hrw
        cases hrw
      · rw [hcmd] at hrw
        cases hrw
    · rcases (hs.ready_entry hmem hready).2 with rfl | hcmd | hcmd
      · exact ho.no_pending_read hs hqueue hwrite (hdep hwrite)
      · rw [hcmd] at hwrite
        cases hwrite
      · rw [hcmd] at hwrite
        cases hwrite
  | schedule =>
    obtain ⟨unified, read, write, n, q, heq, -⟩ := @scheduleTransaction_frame cfg c
    exact ⟨[], follows_of_frame h hs' ho' (by rw [heq]) (by rw [heq]; rfl)⟩
  | _ => exact ⟨[], follows_of_frame h hs' ho' rfl rfl⟩

theorem accesses_append (trace trace' : List (Nat × Command)) :
    (accesses (trace ++ trace') : List (Event Nat β)) = accesses trace ++ accesses trace' :=
  List.flatMap_append

/-- So is a chain of moves. -/
theorem Mirrors.moves {c' : Controller} (h : Mirrors c m) (hs : Sound cfg c)
    (ho : Ordered cfg c) (hmoves : ReflTransGen (Move cfg timing) c c') :
    ∃ new, Follows cfg c m c' new := by
  induction hmoves with
  | refl => exact ⟨[], follows_of_frame h hs ho rfl rfl⟩
  | @tail b d _ hlast ih =>
    obtain ⟨new, hnew⟩ := ih
    obtain ⟨last, hd⟩ := hnew.mirrors.move hnew.sound hnew.ordered hlast
    refine ⟨new ++ last, ?_, ?_, ?_, hd.sound, hd.ordered⟩
    · rw [hd.trace, hnew.trace, List.append_assoc]
    · rw [accesses_append, Transition.guarded_append]
      exact ⟨hnew.allowed, hd.allowed⟩
    · rw [accesses_append, Transition.run_append]
      exact hd.mirrors

/-- The controller keeps the order, and its memory has only seen allowed accesses. -/
structure Faithful (cfg : Config) (contents : Nat → β) (o : Observed β) : Prop where
  sound : Sound cfg o.session.controller
  ordered : Ordered cfg o.session.controller
  allowed : Transition.Guarded BufferedMemory.step Allowed (BufferedMemory.init contents) o.events
  mirrors : Mirrors o.session.controller (o.memory contents)

/-- Every call keeps that, and none ends the process. -/
theorem Faithful.step {contents : Nat → β} {o : Observed β} (h : Faithful cfg contents o)
    (hsafe : cfg.Safe timing) (input : Action × β) :
    ∃ o', o.step cfg timing input = .ok o' ∧ Faithful cfg contents o' := by
  obtain ⟨action, value⟩ := input
  rw [Observed.step]
  cases action with
  | add a w =>
    rw [Session.step]
    cases haccept : o.session.controller.willAcceptTransaction cfg w with
    | false =>
      have hevents : ∀ s, eventsOf cfg o.session s value (.add a w) = [] := fun s =>
        if_neg (by rw [haccept]; decide)
      rw [if_neg (by decide)]
      refine ⟨_, rfl, h.sound, h.ordered, ?_, ?_⟩
      · rw [hevents, List.append_nil]
        exact h.allowed
      · rw [memory, hevents, List.append_nil]
        exact h.mirrors
    | true =>
      have hevents : ∀ s, eventsOf cfg o.session s value (.add a w) =
          [if w then .write a value else .read a] := fun s => if_pos haccept
      rw [if_pos rfl]
      refine ⟨_, rfl, h.sound.addTransaction a w, h.ordered.addTransaction h.sound a w, ?_, ?_⟩
      · rw [hevents, Transition.guarded_append]
        refine ⟨h.allowed, ?_, trivial⟩
        cases w <;> trivial
      · rw [memory, hevents, Transition.run_append]
        exact h.mirrors.addTransaction a w value
  | returnDone clk =>
    refine ⟨_, rfl, h.sound.returnDoneTrans clk,
      ⟨h.ordered.unified, h.ordered.sorted, h.ordered.split⟩, ?_, ?_⟩
    · rw [eventsOf, List.append_nil]
      exact h.allowed
    · rw [memory, eventsOf, List.append_nil]
      exact ⟨h.mirrors.buffer, h.mirrors.waiting⟩
  | clockTick =>
    obtain ⟨c', htick, hmoves⟩ := h.sound.clockTick_moves hsafe
    obtain ⟨new, hnew⟩ := h.mirrors.moves h.sound h.ordered hmoves
    have hdrop : c'.cmdTrace.drop o.session.controller.cmdTrace.length = new := by
      rw [hnew.trace, List.drop_left]
    rw [Session.step, htick]
    refine ⟨_, rfl, hnew.sound, hnew.ordered, ?_, ?_⟩
    · rw [eventsOf]
      dsimp only
      rw [hdrop, Transition.guarded_append]
      exact ⟨h.allowed, hnew.allowed⟩
    · rw [memory, eventsOf]
      dsimp only
      rw [hdrop, Transition.run_append]
      exact hnew.mirrors

/-- In every run each read gets the value of the last write to its address that was accepted
before it, from the buffer or from the cells. The reads still without a value are the pending
ones, and an address without a pending write has the last value in its cell. -/
theorem run_coherent (hsafe : cfg.Safe timing) (contents : Nat → β) (inputs : List (Action × β)) :
    ∃ o, run cfg timing inputs = .ok o ∧
      Session.run cfg timing (inputs.map Prod.fst) = .ok o.session ∧
      (∀ e ∈ (o.memory contents).answers, e.got = e.expected) ∧
      (∀ a, ((o.memory contents).waiting a).length =
        countAddr o.session.controller.pendingRdQ a) ∧
      ∀ a, countAddr o.session.controller.pendingWrQ a = 0 →
        (o.memory contents).cells a = (o.memory contents).current a := by
  obtain ⟨o, hrun, hfaithful⟩ := Transition.runM_invariant (I := Faithful cfg contents)
    (s := Observed.init) (fun o input h => h.step hsafe input)
    ⟨sound_init cfg, ordered_init cfg, trivial, mirrors_init contents⟩ inputs
  have hcoherent := coherent_run contents hfaithful.allowed
  refine ⟨o, hrun, run_session hrun, hcoherent.answers, hfaithful.mirrors.waiting, fun a ha => ?_⟩
  have hbuffer := hfaithful.mirrors.buffer a
  rw [ha] at hbuffer
  have hnone : (o.memory contents).buffer a = none :=
    Option.not_isSome_iff_eq_none.mp (by rw [hbuffer]; decide)
  exact hcoherent.stored a hnone

theorem run_coherent_hbm2 :
    ∃ o, run hbm2 hbm2Timing.timing [(.add 64 false, 0), (.add 64 true, 7), (.clockTick, 0),
        (.add 64 false, 0)] = .ok o ∧
      Session.run hbm2 hbm2Timing.timing ([(.add 64 false, 0), (.add 64 true, 7),
        (.clockTick, 0), (.add 64 false, 0)].map Prod.fst) = .ok o.session ∧
      (∀ e ∈ (o.memory fun _ => 0).answers, e.got = e.expected) ∧
      (∀ a, ((o.memory fun _ => 0).waiting a).length =
        countAddr o.session.controller.pendingRdQ a) ∧
      ∀ a, countAddr o.session.controller.pendingWrQ a = 0 →
        (o.memory fun _ => 0).cells a = (o.memory fun _ => 0).current a :=
  run_coherent hbm2_safe (fun _ => 0) _

end Observed

end GcnSim.Dramsim
