import GcnSim.Dramsim.Conservation
import GcnSim.Dramsim.JedecDramSystem

/-!
# Every channel is a session of its own

In a run of a memory the controller of a channel does what it would do alone, with the
transactions whose addresses select it. What holds of every session of a controller holds of
every channel of a memory.
-/

namespace GcnSim.Dramsim

/-- What the memory interface does with a memory. -/
inductive SystemAction where
  | add (hexAddr : Nat) (isWrite : Bool)
  | clockTick
  deriving DecidableEq, Repr

/-- A memory with the transactions that it accepted and those that the callbacks got. -/
structure SystemSession (cfg : Config) where
  system : JedecDramSystem cfg
  accepted : List (Nat × Bool)
  returned : List Transaction

namespace SystemSession

variable {cfg : Config}

/-- A new memory. -/
def init (channels : Nat) (hchannels : cfg.mapping.chMask < channels) : SystemSession cfg :=
  ⟨.init channels hchannels, [], []⟩

/-- One call of the memory. The interface asks `WillAcceptTransaction` first. -/
def step (timing : Timing) (s : SystemSession cfg) :
    SystemAction → Except Abort (SystemSession cfg)
  | .add hexAddr isWrite =>
    let r := s.system.addTransaction hexAddr isWrite
    .ok { s with
      system := r.2
      accepted := if r.1 then s.accepted ++ [(hexAddr, isWrite)] else s.accepted }
  | .clockTick =>
    match s.system.clockTick timing with
    | .error e => .error e
    | .ok (done, m) => .ok { s with
        system := m
        returned := s.returned ++ done }

/-- A run of the memory. -/
def run (timing : Timing) (channels : Nat) (hchannels : cfg.mapping.chMask < channels)
    (actions : List SystemAction) : Except Abort (SystemSession cfg) :=
  Transition.runM (step timing) (init channels hchannels) actions

/-- Controller `i` is in the state that a session reaches with the transactions of channel
`i`, in the same number of cycles. -/
def OwnSession (timing : Timing) (s : SystemSession cfg) (i : Nat) (c : Controller) : Prop :=
  ∃ calls t, Session.run cfg timing calls = .ok t ∧ t.controller = c ∧
    calls.count .clockTick = s.system.clk ∧
    t.accepted = s.accepted.filter (fun x => decide (cfg.getChannel x.1 = i)) ∧
    t.returned = s.returned.filter (fun x => decide (cfg.getChannel x.addr = i))

end SystemSession

namespace Session

variable {cfg : Config} {timing : Timing}

theorem run_concat {calls : List Action} {t : Session} (h : run cfg timing calls = .ok t)
    (call : Action) : run cfg timing (calls ++ [call]) = step cfg timing t call := by
  rw [run, Transition.runM_append, ← run, h]
  dsimp only
  rw [Transition.runM]
  cases step cfg timing t call <;> rfl

/-- The loop of `ClockTick` as calls of the controller. -/
theorem run_returnLoop {calls : List Action} {t : Session} (h : run cfg timing calls = .ok t)
    (clk n : Nat) :
    run cfg timing (calls ++ List.replicate n (.returnDone clk)) =
      .ok { t with
        controller := (JedecDramSystem.returnLoop clk n t.controller).2
        returned := t.returned ++ (JedecDramSystem.returnLoop clk n t.controller).1 } := by
  induction n generalizing calls t with
  | zero =>
    rw [List.replicate_zero, List.append_nil, h, JedecDramSystem.returnLoop, List.append_nil]
  | succ n ih =>
    have hnext := run_concat h (.returnDone clk)
    rw [step] at hnext
    rw [List.replicate_succ, ← List.singleton_append, ← List.append_assoc, ih hnext]
    rw [JedecDramSystem.returnLoop_succ, List.append_assoc]

end Session

namespace SystemSession

variable {cfg : Config} {timing : Timing} {s : SystemSession cfg}

/-- No controller knows of the others. -/
structure Separate (timing : Timing) (s : SystemSession cfg) : Prop where
  own : ∀ i c, s.system.ctrls[i]? = some c → OwnSession timing s i c

theorem separate_init (channels : Nat) (hchannels : cfg.mapping.chMask < channels) :
    Separate timing (init channels hchannels) where
  own := by
    intro i c hc
    have hinit : c = .init := List.eq_of_mem_replicate (List.mem_of_getElem? hc)
    exact ⟨[], .init, rfl, hinit.symm, rfl, rfl, rfl⟩

/-- What a session holds for its channel has an address of the channel. -/
theorem OwnSession.channel {i : Nat} {c : Controller} (hsafe : cfg.Safe timing)
    (h : OwnSession timing s i c) :
    c.Sound cfg ∧ ∀ t ∈ c.returnQueue, cfg.getChannel t.addr = i := by
  obtain ⟨calls, t, hrun, rfl, -, haccepted, -⟩ := h
  obtain ⟨t', hrun', hsound, hbooks⟩ := Session.run_books hsafe calls
  rw [hrun] at hrun'
  cases hrun'
  refine ⟨hsound, fun x hx => ?_⟩
  have hledger := hbooks.ledger x.isWrite x.addr
  have hpos : 0 < t.controller.returnQueue.countP (Controller.isFor x.isWrite x.addr) :=
    List.countP_pos_iff.mpr ⟨x, hx, Controller.isFor_iff.mpr ⟨rfl, rfl⟩⟩
  have hmem : (x.addr, x.isWrite) ∈ t.accepted := List.count_pos_iff.mp (by omega)
  rw [haccepted, List.mem_filter, decide_eq_true_eq] at hmem
  exact hmem.2

/-- An accepted transaction goes to one channel. -/
theorem Separate.add (h : Separate timing s) {a : Nat} {w : Bool}
    (haccept : s.system.willAcceptTransaction a w = true) :
    Separate timing { s with
      system := (s.system.addTransaction a w).2
      accepted := s.accepted ++ [(a, w)] } where
  own := by
    intro i c hc
    rw [JedecDramSystem.addTransaction, if_pos haccept] at hc ⊢
    dsimp only at hc
    rw [List.getElem?_modify] at hc
    obtain ⟨c₀, hc₀, rfl⟩ := Option.map_eq_some_iff.mp hc
    obtain ⟨calls, t, hrun, hctrl, hcount, haccepted, hreturned⟩ := h.own i c₀ hc₀
    by_cases hi : cfg.getChannel a = i
    · subst hi
      rw [s.system.getElem?_ctrls a] at hc₀
      obtain rfl := Option.some.inj hc₀
      have hroom : t.controller.willAcceptTransaction cfg w = true := by
        rw [hctrl]
        exact haccept
      have hnext := Session.run_concat hrun (.add a w)
      rw [Session.step, if_pos hroom] at hnext
      refine ⟨_, _, hnext, ?_, ?_, ?_, hreturned⟩
      · dsimp only
        rw [if_pos rfl, hctrl]
      · rw [List.count_append, hcount]
        rfl
      · dsimp only
        rw [haccepted, List.filter_append, List.filter_singleton, decide_eq_true rfl]
        rfl
    · rw [if_neg hi]
      refine ⟨calls, t, hrun, hctrl, hcount, ?_, hreturned⟩
      dsimp only
      rw [haccepted, List.filter_append, List.filter_singleton, decide_eq_false hi]
      exact (List.append_nil _).symm

/-- In a cycle every channel returns what is done and ticks. -/
theorem Separate.tick (hsafe : cfg.Safe timing) (h : Separate timing s) :
    ∃ done m, s.system.clockTick timing = .ok (done, m) ∧
      Separate timing { s with
        system := m
        returned := s.returned ++ done } := by
  have hsound : s.system.Sound := by
    intro c hc
    obtain ⟨i, hi⟩ := List.mem_iff_getElem?.mp hc
    exact (OwnSession.channel hsafe (h.own i c hi)).1
  obtain ⟨done, m, htick, -⟩ := hsound.clockTick hsafe
  obtain ⟨hdone, hclk, hctrls⟩ := JedecDramSystem.clockTick_eq_ok htick
  refine ⟨done, m, htick, ⟨fun i c hc => ?_⟩⟩
  obtain ⟨c₀, hc₀, hc⟩ := hctrls i c hc
  obtain ⟨calls, t, hrun, rfl, hcount, haccepted, hreturned⟩ := h.own i c₀ hc₀
  have hloop := Session.run_returnLoop hrun s.system.clk (t.controller.returnQueue.length + 1)
  have hnext := Session.run_concat hloop .clockTick
  rw [Session.step] at hnext
  dsimp only at hnext
  change (JedecDramSystem.returnAll s.system.clk t.controller).2.clockTick cfg timing = .ok c at hc
  rw [JedecDramSystem.returnAll] at hc
  rw [hc] at hnext
  refine ⟨_, _, hnext, rfl, ?_, haccepted, ?_⟩
  · rw [List.count_append, List.count_append, hcount, hclk, List.count_replicate]
    rfl
  · have hmark : ∀ j l, (s.system.ctrls.map fun c =>
        (JedecDramSystem.returnAll s.system.clk c).1)[j]? = some l →
        ∀ x ∈ l, cfg.getChannel x.addr = 0 + j := by
      intro j l hl x hx
      rw [List.getElem?_map] at hl
      obtain ⟨c', hc', rfl⟩ := Option.map_eq_some_iff.mp hl
      rw [JedecDramSystem.returnAll_eq] at hx
      rw [(OwnSession.channel hsafe (h.own j c' hc')).2 x (List.mem_filter.mp hx).1, Nat.zero_add]
    have hfilter := Buckets.filter_flatten_getElem? hmark i
    rw [Nat.zero_add, List.getElem?_map, hc₀] at hfilter
    dsimp only
    rw [List.filter_append, ← hreturned, hdone, hfilter]
    rfl

/-- A call keeps the channels apart. -/
theorem Separate.step (hsafe : cfg.Safe timing) (h : Separate timing s) (action : SystemAction) :
    ∃ s', step timing s action = .ok s' ∧ Separate timing s' ∧
      s'.system.clk = s.system.clk + [action].count .clockTick := by
  cases action with
  | add a w =>
    rw [SystemSession.step]
    by_cases haccept : s.system.willAcceptTransaction a w = true
    · have hok : (s.system.addTransaction a w).1 = true := by
        rw [JedecDramSystem.addTransaction, if_pos haccept]
        exact haccept
      have hclk : (s.system.addTransaction a w).2.clk = s.system.clk := by
        rw [JedecDramSystem.addTransaction, if_pos haccept]
      rw [if_pos hok]
      exact ⟨_, rfl, h.add haccept, hclk⟩
    · have hrefuse : s.system.addTransaction a w = (false, s.system) := by
        rw [JedecDramSystem.addTransaction, if_neg haccept, Bool.eq_false_of_not_eq_true haccept]
      rw [hrefuse]
      exact ⟨_, rfl, h, rfl⟩
  | clockTick =>
    obtain ⟨done, m, htick, hnext⟩ := h.tick hsafe
    rw [SystemSession.step, htick]
    exact ⟨_, rfl, hnext, (JedecDramSystem.clockTick_eq_ok htick).2.1⟩

/-- No run of a safe memory ends the process, and in every run each controller is in the state
that a session of a controller reaches with the transactions of its channel, in as many cycles;
what that session returned is what the callbacks got of the channel, in the same order. -/
theorem run_channels (hsafe : cfg.Safe timing) (channels : Nat)
    (hchannels : cfg.mapping.chMask < channels) (actions : List SystemAction) :
    ∃ s, run timing channels hchannels actions = .ok s ∧
      s.system.clk = actions.count .clockTick ∧
      ∀ i c, s.system.ctrls[i]? = some c → OwnSession timing s i c := by
  have hrun : ∀ (actions : List SystemAction) (s : SystemSession cfg), Separate timing s →
      ∃ s', Transition.runM (SystemSession.step timing) s actions = .ok s' ∧
        s'.system.clk = s.system.clk + actions.count .clockTick ∧ Separate timing s' := by
    intro actions
    induction actions with
    | nil => exact fun s h => ⟨s, rfl, rfl, h⟩
    | cons action actions ih =>
      intro s h
      obtain ⟨s₁, hs₁, h₁, hclk₁⟩ := h.step hsafe action
      obtain ⟨s₂, hs₂, hclk₂, h₂⟩ := ih s₁ h₁
      refine ⟨s₂, ?_, ?_, h₂⟩
      · rw [Transition.runM, hs₁]
        exact hs₂
      · have hcount : (action :: actions).count .clockTick =
            [action].count .clockTick + actions.count .clockTick := by
          rw [← List.singleton_append, List.count_append]
        rw [hclk₂, hclk₁, hcount, Nat.add_assoc]
  obtain ⟨s, hs, hclk, h⟩ := hrun actions (init channels hchannels) (separate_init _ _)
  refine ⟨s, hs, ?_, h.own⟩
  rw [hclk]
  exact Nat.zero_add _

theorem run_channels_hbm2 :
    ∃ s, run hbm2Timing.timing 8 (show hbm2.mapping.chMask < 8 by decide)
        [.add 64 false, .add 96 true, .clockTick] = .ok s ∧
      s.system.clk =
        List.count SystemAction.clockTick [.add 64 false, .add 96 true, .clockTick] ∧
      ∀ i c, s.system.ctrls[i]? = some c → OwnSession hbm2Timing.timing s i c :=
  run_channels hbm2_safe 8 _ _

end SystemSession

end GcnSim.Dramsim
