import GcnSim.Dramsim.Interface
import GcnSim.Dramsim.Shipped
import GcnSim.Lib.Simulation
import GcnSim.Memory.AddTransaction

/-!
# The memory model of the loop is met by the memories

The loop is modelled over memories that accept, report and drain as an environment decides. The
interface over the `DRAMsim3` controllers is such a memory: for every run of it there are
decisions with which the model shows the same replies, flags and counters.
-/

namespace GcnSim.Dramsim

/-- A transaction of the loop at its machine address. -/
def keyOf (enc : GcnSim.Address → Nat) (t : GcnSim.Transaction) : Nat × Bool :=
  (enc t.address, t.isWrite)

/-- The tests of the callbacks on the machine address are the tests of the model on the
region. -/
structure Fits (enc : GcnSim.Address → Nat) (M : AddressMap) (a : GcnSim.Address) : Prop where
  weight : enc a < M.weightStart ↔ a.region.belowWeight = true
  result : M.axwStart ≤ enc a ↔ a.region = .axw

variable {cfg : Config} {enc : GcnSim.Address → Nat} {M : AddressMap} {timing : Timing}

/-- The model of a memory holds what is outstanding in it, and all that lies in its write
buffers. -/
structure Represents (enc : GcnSim.Address → Nat) (M : AddressMap) (m : MemorySystem)
    (s : JedecDramSystem cfg) : Prop where
  sound : s.Sound
  fits : ∀ t ∈ m.inside, Fits enc M t.address
  inside : (m.inside.map (keyOf enc)).Perm s.outstanding
  buffered : s.buffered.Subperm (m.writeBuffer.map (keyOf enc))

/-- The model knows exactly what lies in the write buffers. -/
def Settled (enc : GcnSim.Address → Nat) (m : MemorySystem) (s : JedecDramSystem cfg) : Prop :=
  s.buffered.Perm (m.writeBuffer.map (keyOf enc))

theorem represents_idle (channels : Nat) (hchannels : cfg.mapping.chMask < channels) :
    Represents enc M .idle (.init channels hchannels : JedecDramSystem cfg) where
  sound := JedecDramSystem.sound_init channels hchannels
  fits := fun _ h => (List.not_mem_nil h).elim
  inside := by
    have hnil :
        (JedecDramSystem.init channels hchannels : JedecDramSystem cfg).outstanding = [] := by
      rw [JedecDramSystem.outstanding, List.flatMap_eq_nil_iff]
      intro c hc
      rw [List.eq_of_mem_replicate hc]
      rfl
    rw [hnil]
    exact .refl _
  buffered := by
    have hnil : (JedecDramSystem.init channels hchannels : JedecDramSystem cfg).buffered = [] := by
      rw [JedecDramSystem.buffered, List.flatMap_eq_nil_iff]
      intro c hc
      rw [List.eq_of_mem_replicate hc]
      rfl
    rw [hnil]
    exact List.nil_subperm

/-- A memory that accepts a transaction is a memory of the model that gets it. -/
theorem Represents.place {m : MemorySystem} {s : JedecDramSystem cfg} {t : GcnSim.Transaction}
    (h : Represents enc M m s) (hfits : Fits enc M t.address)
    (haccept : s.willAcceptTransaction (keyOf enc t).1 (keyOf enc t).2 = true) :
    Represents enc M (m.addTransaction t)
      (s.addTransaction (keyOf enc t).1 (keyOf enc t).2).2 := by
  obtain ⟨hsound, houtstanding, hbuffered⟩ := h.sound.addTransaction haccept
  refine ⟨hsound, ?_, ?_, ?_⟩
  · intro t' ht'
    rcases List.mem_append.mp ht' with ht' | ht'
    · exact h.fits t' ht'
    · rw [List.mem_singleton.mp ht']
      exact hfits
  · rw [MemorySystem.addTransaction, List.map_append]
    exact (h.inside.append_right _).trans houtstanding.symm
  · rcases hbuffered with hsame | ⟨hwrite, hnew⟩
    · refine hsame.subperm.trans (h.buffered.trans ?_)
      rw [MemorySystem.addTransaction]
      dsimp only
      split
      · rw [List.map_append]
        exact (List.sublist_append_left _ _).subperm
      · exact List.Subperm.refl _
    · have htrue : t.isWrite = true := hwrite
      rw [MemorySystem.addTransaction]
      dsimp only
      rw [if_pos htrue, List.map_append]
      refine hnew.subperm.trans ?_
      exact (List.subperm_append_right _).mpr h.buffered

/-- The events of a cycle: the reports and then the drains, by their positions. -/
def eventsOf (reports drains : List Nat) : List MemoryEvent :=
  reports.map .report ++ drains.map .drain

/-- A cycle of a memory is a choice of events of its model. -/
theorem Represents.tick {m : MemorySystem} {s : JedecDramSystem cfg} (h : Represents enc M m s)
    (hsafe : cfg.Safe timing) :
    ∃ reports drains done s', s.clockTick timing = .ok (done, s') ∧
      (FirstMatch.takeOut reports m.inside).1.map (keyOf enc) = done.map Transaction.key ∧
      (∀ t ∈ (FirstMatch.takeOut reports m.inside).1, Fits enc M t.address) ∧
      Represents enc M ⟨(FirstMatch.takeOut reports m.inside).2,
        (FirstMatch.takeOut drains m.writeBuffer).2⟩ s' ∧
      Settled enc ⟨(FirstMatch.takeOut reports m.inside).2,
        (FirstMatch.takeOut drains m.writeBuffer).2⟩ s' := by
  obtain ⟨done, s', htick, hsound, houtstanding, hbuffered⟩ := h.sound.clockTick hsafe
  obtain ⟨reports, hdone, hinside⟩ := FirstMatch.exists_takeOut (h.inside.trans houtstanding.symm)
  obtain ⟨kept, hkept, hsub⟩ := hbuffered.subperm.trans h.buffered
  obtain ⟨gone, hgone⟩ := hsub.exists_perm_append
  have hdrained : (m.writeBuffer.map (keyOf enc)).Perm (gone ++ s'.buffered) :=
    (hgone.trans List.perm_append_comm).trans (hkept.append_left gone)
  obtain ⟨drains, -, hleft⟩ := FirstMatch.exists_takeOut hdrained
  refine ⟨reports, drains, done, s', htick, hdone, ?_, ⟨hsound, ?_, hinside, ?_⟩, hleft.symm⟩
  · exact fun t ht => h.fits t (FirstMatch.mem_of_mem_takeOut (.inl ht))
  · exact fun t ht => h.fits t (FirstMatch.mem_of_mem_takeOut (.inr ht))
  · exact hleft.symm.subperm

/-- The interface of the model with other memories. -/
def withDrams (d : DramInterface) (drams : List MemorySystem) (h : d.dramIdx < drams.length) :
    DramInterface :=
  { d with
    drams := drams
    dramIdx_lt := h }

section Events

theorem withDrams_self {d : DramInterface} {drams : List MemorySystem} (h : d.drams = drams) :
    ∃ hlt, d = withDrams d drams hlt := by
  subst h
  exact ⟨d.dramIdx_lt, rfl⟩

theorem callback_frame (d : DramInterface) (t : GcnSim.Transaction) :
    (d.callback t).dramIdx = d.dramIdx ∧ (d.callback t).tQueue = d.tQueue := by
  rw [DramInterface.callback, DramInterface.writeCompleteCallback,
    DramInterface.readCompleteCallback]
  split <;> split <;> exact ⟨rfl, rfl⟩

/-- The callbacks leave everything but the replies and counters as it is. -/
theorem foldl_callback_frame (ts : List GcnSim.Transaction) (d : DramInterface) :
    (ts.foldl DramInterface.callback d).drams = d.drams ∧
      (ts.foldl DramInterface.callback d).dramIdx = d.dramIdx ∧
      (ts.foldl DramInterface.callback d).tQueue = d.tQueue := by
  induction ts generalizing d with
  | nil => exact ⟨rfl, rfl, rfl⟩
  | cons t ts ih =>
    obtain ⟨hdrams, hidx, htQueue⟩ := ih (d.callback t)
    obtain ⟨hidx', htQueue'⟩ := callback_frame d t
    rw [List.foldl_cons]
    exact ⟨hdrams.trans (d.callback_drams t), hidx.trans hidx', htQueue.trans htQueue'⟩

/-- The callbacks do not ask what the memories hold. -/
theorem foldl_callback_withDrams (ts : List GcnSim.Transaction) (d : DramInterface)
    (drams : List MemorySystem) (h : d.dramIdx < drams.length) :
    ∃ h', withDrams (ts.foldl DramInterface.callback d) drams h' =
      ts.foldl DramInterface.callback (withDrams d drams h) := by
  induction ts generalizing d with
  | nil => exact ⟨h, rfl⟩
  | cons t ts ih =>
    have hidx : (d.callback t).dramIdx < drams.length := (callback_frame d t).1.symm ▸ h
    obtain ⟨h', hfold⟩ := ih (d.callback t) hidx
    refine ⟨h', hfold.trans ?_⟩
    have hone : withDrams (d.callback t) drams hidx = (withDrams d drams h).callback t := by
      simp only [DramInterface.callback, DramInterface.writeCompleteCallback,
        DramInterface.readCompleteCallback, withDrams]
      split <;> split <;> rfl
    rw [List.foldl_cons, hone]

variable {d : DramInterface} {pre rest : List MemorySystem} {m : MemorySystem}

theorem getElem?_middle (hdrams : d.drams = pre ++ m :: rest) : d.drams[pre.length]? = some m := by
  rw [hdrams, List.getElem?_append_right (Nat.le_refl _), Nat.sub_self]
  rfl

theorem setDram_middle (hdrams : d.drams = pre ++ m :: rest) (m' : MemorySystem) :
    ∃ h, d.setDram pre.length m' = withDrams d (pre ++ m' :: rest) h := by
  have hset : d.drams.set pre.length m' = pre ++ m' :: rest := by
    rw [hdrams, List.set_append_right _ _ (Nat.le_refl _), Nat.sub_self, List.set_cons_zero]
  have hlt : d.dramIdx < (pre ++ m' :: rest).length := by
    rw [← hset, List.length_set]
    exact d.dramIdx_lt
  refine ⟨hlt, ?_⟩
  simp only [DramInterface.setDram, withDrams, hset]

theorem event_drain (hdrams : d.drams = pre ++ m :: rest) (k : Nat) :
    ∃ h, d.event pre.length (.drain k) =
      withDrams d (pre ++ { m with writeBuffer := m.writeBuffer.eraseIdx k } :: rest) h := by
  unfold DramInterface.event
  rw [getElem?_middle hdrams]
  exact setDram_middle hdrams _

theorem event_report (hdrams : d.drams = pre ++ m :: rest) (k : Nat) :
    ∃ h, d.event pre.length (.report k) = m.inside[k]?.toList.foldl DramInterface.callback
      (withDrams d (pre ++ { m with inside := m.inside.eraseIdx k } :: rest) h) := by
  unfold DramInterface.event
  rw [getElem?_middle hdrams]
  dsimp only
  obtain ⟨h, hset⟩ := setDram_middle hdrams { m with inside := m.inside.eraseIdx k }
  cases hk : m.inside[k]? with
  | none =>
    have hsame : m.inside.eraseIdx k = m.inside :=
      List.eraseIdx_of_length_le (List.getElem?_eq_none_iff.mp hk)
    rw [hsame]
    exact withDrams_self hdrams
  | some t => exact ⟨h, congrArg (fun d => DramInterface.callback d t) hset⟩

/-- The drains of a cycle. -/
theorem foldl_drain (ks : List Nat) (hdrams : d.drams = pre ++ m :: rest) :
    ∃ h, (ks.map MemoryEvent.drain).foldl (DramInterface.event pre.length) d =
      withDrams d (pre ++ ⟨m.inside, (FirstMatch.takeOut ks m.writeBuffer).2⟩ :: rest) h := by
  induction ks generalizing d m with
  | nil => exact withDrams_self hdrams
  | cons k ks ih =>
    obtain ⟨h, hone⟩ := event_drain hdrams k
    rw [List.map_cons, List.foldl_cons, hone]
    exact @ih (withDrams d _ h) { m with writeBuffer := m.writeBuffer.eraseIdx k } rfl

/-- The reports of a cycle. -/
theorem foldl_report (ks : List Nat) (hdrams : d.drams = pre ++ m :: rest) :
    ∃ h, (ks.map MemoryEvent.report).foldl (DramInterface.event pre.length) d =
      (FirstMatch.takeOut ks m.inside).1.foldl DramInterface.callback
        (withDrams d (pre ++ ⟨(FirstMatch.takeOut ks m.inside).2, m.writeBuffer⟩ :: rest) h) := by
  induction ks generalizing d m with
  | nil => exact withDrams_self hdrams
  | cons k ks ih =>
    obtain ⟨h, hone⟩ := event_report hdrams k
    obtain ⟨hframe, hidx, -⟩ := foldl_callback_frame m.inside[k]?.toList
      (withDrams d (pre ++ { m with inside := m.inside.eraseIdx k } :: rest) h)
    obtain ⟨h', hrest⟩ := @ih _ { m with inside := m.inside.eraseIdx k } hframe
    obtain ⟨h'', hset⟩ := foldl_callback_withDrams m.inside[k]?.toList
      (withDrams d (pre ++ { m with inside := m.inside.eraseIdx k } :: rest) h) _ (hidx ▸ h')
    refine ⟨hidx ▸ h', ?_⟩
    rw [List.map_cons, List.foldl_cons, hone, hrest]
    refine Eq.trans ?_ List.foldl_append.symm
    exact congrArg (fun d => List.foldl DramInterface.callback d _) hset

/-- What the events of a memory do. -/
theorem foldl_event (hdrams : d.drams = pre ++ m :: rest) (reports drains : List Nat) :
    ∃ h, (eventsOf reports drains).foldl (DramInterface.event pre.length) d =
      (FirstMatch.takeOut reports m.inside).1.foldl DramInterface.callback
        (withDrams d (pre ++ ⟨(FirstMatch.takeOut reports m.inside).2,
          (FirstMatch.takeOut drains m.writeBuffer).2⟩ :: rest) h) := by
  obtain ⟨h, hreports⟩ := foldl_report reports hdrams
  obtain ⟨hframe, hidx, -⟩ := foldl_callback_frame (FirstMatch.takeOut reports m.inside).1
    (withDrams d (pre ++ ⟨(FirstMatch.takeOut reports m.inside).2, m.writeBuffer⟩ :: rest) h)
  obtain ⟨h', hdrains⟩ := foldl_drain drains hframe
  obtain ⟨h'', hset⟩ := foldl_callback_withDrams (FirstMatch.takeOut reports m.inside).1
    (withDrams d (pre ++ ⟨(FirstMatch.takeOut reports m.inside).2, m.writeBuffer⟩ :: rest) h) _
    (hidx ▸ h')
  rw [eventsOf, List.foldl_append, hreports, hdrains]
  exact ⟨hidx ▸ h', hset⟩

end Events

section Cycle

/-- A cycle of the memories is a choice of events of their models, one memory after another. -/
theorem tickDrams_refines (hsafe : cfg.Safe timing) {ms : List MemorySystem}
    {ss : List (JedecDramSystem cfg)} (h : List.Forall₂ (Represents enc M) ms ss) :
    ∃ (plan : List (List MemoryEvent)) (ms' : List MemorySystem) (ts : List GcnSim.Transaction)
      (done : List Transaction) (ss' : List (JedecDramSystem cfg)),
      Interface.tickDrams timing ss = .ok (done, ss') ∧
      ts.map (keyOf enc) = done.map Transaction.key ∧ (∀ t ∈ ts, Fits enc M t.address) ∧
      List.Forall₂ (Represents enc M) ms' ss' ∧ List.Forall₂ (Settled enc) ms' ss' ∧
      ∀ (pre : List MemorySystem) (d : DramInterface) (ticks : Nat → List MemoryEvent),
        d.drams = pre ++ ms → (∀ (j : Nat) evs, plan[j]? = some evs →
          ticks (pre.length + j) = evs) →
        ∃ hlt, (List.range' pre.length ms.length).foldl
            (fun d i => (ticks i).foldl (DramInterface.event i) d) d =
          ts.foldl DramInterface.callback (withDrams d (pre ++ ms') hlt) := by
  induction h with
  | nil =>
    refine ⟨[], [], [], [], [], rfl, rfl, fun _ h => (List.not_mem_nil h).elim, .nil, .nil, ?_⟩
    intro pre d ticks hdrams _
    exact withDrams_self hdrams
  | @cons m s ms ss hm _ ih =>
    obtain ⟨reports, drains, done, s', htick, hkeys, hfits, hrep, hsettled⟩ := hm.tick hsafe
    obtain ⟨plan, ms', ts, dones, ss', hticks, hkeyss, hfitss, hreps, hsettleds, hfold⟩ := ih
    refine ⟨eventsOf reports drains :: plan, _ :: ms',
      (FirstMatch.takeOut reports m.inside).1 ++ ts, done ++ dones, s' :: ss', ?_, ?_, ?_,
      .cons hrep hreps, .cons hsettled hsettleds, ?_⟩
    · rw [Interface.tickDrams, htick]
      dsimp only
      rw [hticks]
    · rw [List.map_append, hkeys, hkeyss, List.map_append]
    · intro t ht
      exact (List.mem_append.mp ht).elim (hfits t) (hfitss t)
    · intro pre d ticks hdrams hplan
      have hfirst : ticks pre.length = eventsOf reports drains := hplan 0 _ rfl
      obtain ⟨hlt, hevents⟩ := foldl_event hdrams reports drains
      generalize (⟨(FirstMatch.takeOut reports m.inside).2,
        (FirstMatch.takeOut drains m.writeBuffer).2⟩ : MemorySystem) = m' at hlt hevents ⊢
      obtain ⟨hframe, hidx, -⟩ := foldl_callback_frame
        (FirstMatch.takeOut reports m.inside).1 (withDrams d (pre ++ m' :: ms) hlt)
      have hlength : (pre ++ [m']).length = pre.length + 1 := by
        rw [List.length_append, List.length_singleton]
      have hlater : ∀ (j : Nat) evs, plan[j]? = some evs →
          ticks ((pre ++ [m']).length + j) = evs := by
        intro j evs hj
        rw [hlength, Nat.add_assoc, Nat.add_comm 1]
        exact hplan (j + 1) evs hj
      have hmiddle : pre ++ m' :: ms = (pre ++ [m']) ++ ms := by
        rw [List.append_assoc, List.singleton_append]
      obtain ⟨hlt', hrest⟩ := hfold _ _ ticks (hframe.trans hmiddle) hlater
      obtain ⟨_, hset⟩ := foldl_callback_withDrams (FirstMatch.takeOut reports m.inside).1
        (withDrams d (pre ++ m' :: ms) hlt) ((pre ++ [m']) ++ ms') (hidx ▸ hlt')
      have hback : pre ++ m' :: ms' = (pre ++ [m']) ++ ms' := by
        rw [List.append_assoc, List.singleton_append]
      rw [hback, List.length_cons, List.range'_succ, List.foldl_cons, hfirst, hevents,
        ← hlength, hrest]
      exact ⟨hidx ▸ hlt', (congrArg (fun d => List.foldl DramInterface.callback d ts) hset).trans
        List.foldl_append.symm⟩

end Cycle

section Callbacks

/-- The replies and counters are those of the model. -/
structure Replies (enc : GcnSim.Address → Nat) (D : Interface cfg) (d : DramInterface) :
    Prop where
  fReadComplete : D.fReadComplete = d.fReadComplete
  wReadComplete : D.wReadComplete = d.wReadComplete
  fAddress : D.fAddress = d.fAddress.map enc
  wAddress : D.wAddress = d.wAddress.map enc
  totAxwCount : D.totAxwCount = d.totAxwCount
  totXwCount : D.totXwCount = d.totXwCount

variable {D : Interface cfg} {d : DramInterface}

/-- A callback with the machine address does what it does in the model. -/
theorem Replies.callback (h : Replies enc D d) {t : GcnSim.Transaction} {T : Transaction}
    (hkey : keyOf enc t = T.key) (hfits : Fits enc M t.address) :
    Replies enc (D.callback M T) (d.callback t) := by
  have haddr : T.addr = enc t.address := (congrArg Prod.fst hkey).symm
  have hwrite : T.isWrite = t.isWrite := (congrArg Prod.snd hkey).symm
  rw [Interface.callback, DramInterface.callback, hwrite, haddr]
  split
  · rw [Interface.writeCompleteCallback, DramInterface.writeCompleteCallback]
    by_cases haxw : t.address.region = .axw
    · rw [if_pos haxw, if_pos (hfits.result.mpr haxw)]
      exact { h with totAxwCount := congrArg (fun n => u64Sub n 1) h.totAxwCount }
    · rw [if_neg haxw, if_neg fun hle => haxw (hfits.result.mp hle)]
      exact { h with totXwCount := congrArg (fun n => u64Sub n 1) h.totXwCount }
  · rw [Interface.readCompleteCallback, DramInterface.readCompleteCallback]
    by_cases hweight : t.address.region.belowWeight = true
    · rw [if_pos hweight, if_pos (hfits.weight.mpr hweight)]
      refine { h with fReadComplete := rfl, fAddress := ?_ }
      dsimp only
      rw [List.map_append, h.fAddress]
      rfl
    · rw [if_neg hweight, if_neg fun hlt => hweight (hfits.weight.mp hlt)]
      refine { h with wReadComplete := rfl, wAddress := ?_ }
      dsimp only
      rw [List.map_append, h.wAddress]
      rfl

theorem Replies.foldl_callback (h : Replies enc D d) {ts : List GcnSim.Transaction}
    {done : List Transaction} (hkeys : ts.map (keyOf enc) = done.map Transaction.key)
    (hfits : ∀ t ∈ ts, Fits enc M t.address) :
    Replies enc (done.foldl (Interface.callback M) D) (ts.foldl DramInterface.callback d) := by
  induction ts generalizing done D d with
  | nil =>
    rw [List.map_nil, eq_comm, List.map_eq_nil_iff] at hkeys
    rw [hkeys]
    exact h
  | cons t ts ih =>
    cases done with
    | nil => cases hkeys
    | cons T done =>
      obtain ⟨hkey, hkeys⟩ := List.cons.inj hkeys
      rw [List.forall_mem_cons] at hfits
      exact ih (h.callback hkey hfits.1) hkeys hfits.2

theorem foldl_interface_callback_frame (done : List Transaction) (D : Interface cfg) :
    (done.foldl (Interface.callback M) D).drams = D.drams ∧
      (done.foldl (Interface.callback M) D).dramIdx = D.dramIdx ∧
      (done.foldl (Interface.callback M) D).tQueue = D.tQueue := by
  have hone : ∀ (D : Interface cfg) T, (D.callback M T).drams = D.drams ∧
      (D.callback M T).dramIdx = D.dramIdx ∧ (D.callback M T).tQueue = D.tQueue := by
    intro D T
    rw [Interface.callback, Interface.writeCompleteCallback, Interface.readCompleteCallback]
    split <;> split <;> exact ⟨rfl, rfl, rfl⟩
  induction done generalizing D with
  | nil => exact ⟨rfl, rfl, rfl⟩
  | cons T done ih =>
    obtain ⟨hdrams, hidx, htQueue⟩ := ih (D.callback M T)
    obtain ⟨hdrams', hidx', htQueue'⟩ := hone D T
    exact ⟨hdrams.trans hdrams', hidx.trans hidx', htQueue.trans htQueue'⟩

end Callbacks

/-- The interface over the memories does what the model does. -/
structure Refines (enc : GcnSim.Address → Nat) (M : AddressMap) (D : Interface cfg)
    (d : DramInterface) : Prop where
  replies : Replies enc D d
  queued : ∀ t ∈ d.tQueue, Fits enc M t.address
  tQueue : D.tQueue = d.tQueue.map (keyOf enc)
  drams : List.Forall₂ (Represents enc M) d.drams D.drams
  dramIdx : D.dramIdx = d.dramIdx

section AddTransaction

/-- The transactions that a memory gets in one call of `AddTransaction`. -/
def addAll (xs : List (Nat × Bool)) (s : JedecDramSystem cfg) : JedecDramSystem cfg :=
  xs.foldl (fun s x => (s.addTransaction x.1 x.2).2) s

/-- What the memories accept during a call of `AddTransaction`: what they have been given since
its start is what the model has put behind the transactions it held then. -/
def acceptsOf (enc : GcnSim.Address → Nat) (D : Interface cfg) (d : DramInterface) : Accepts :=
  fun i m t =>
    match D.drams[i]?, d.drams[i]? with
    | some s, some m₀ =>
      (addAll ((m.inside.drop m₀.inside.length).map (keyOf enc)) s).willAcceptTransaction
        (keyOf enc t).1 (keyOf enc t).2
    | _, _ => false

/-- The memories during a call of `AddTransaction` that started in `D₀` and `d₀`. -/
structure Adding (enc : GcnSim.Address → Nat) (M : AddressMap) (D₀ : Interface cfg)
    (d₀ : DramInterface) (D : Interface cfg) (d : DramInterface) : Prop where
  length : D.drams.length = d.drams.length
  represents : ∀ (i : Nat) m s, d.drams[i]? = some m → D.drams[i]? = some s →
    Represents enc M m s
  added : ∀ (i : Nat) m s, d.drams[i]? = some m → D.drams[i]? = some s →
    ∃ m₀ s₀ ts, d₀.drams[i]? = some m₀ ∧ D₀.drams[i]? = some s₀ ∧
      m.inside = m₀.inside ++ ts ∧ s = addAll (ts.map (keyOf enc)) s₀
  dramIdx : D.dramIdx = d.dramIdx

variable {D₀ D : Interface cfg} {d₀ d : DramInterface}

theorem Adding.accepts (h : Adding enc M D₀ d₀ D d) (t : GcnSim.Transaction)
    (i : Fin d.drams.length) :
    acceptsOf enc D₀ d₀ i (d.drams.get i) t =
      D.canRequest (keyOf enc t) (i.cast h.length.symm) := by
  have hlt : i.val < D.drams.length := by
    rw [h.length]
    exact i.isLt
  obtain ⟨m₀, s₀, ts, hm₀, hs₀, hinside, hs⟩ := h.added i _ _
    (List.getElem?_eq_getElem i.isLt) (List.getElem?_eq_getElem hlt)
  rw [acceptsOf, hm₀, hs₀]
  dsimp only
  have hdrop : (d.drams.get i).inside.drop m₀.inside.length = ts := by
    rw [List.get_eq_getElem, hinside, List.drop_left]
  rw [hdrop, ← hs]
  rfl

/-- The search for a memory asks the same questions in both. -/
theorem findDram_congr {n n' check : Nat} (hn : n = n') {f : Fin n → Bool} {g : Fin n' → Bool}
    (hfg : ∀ i, f i = g (i.cast hn)) (k : Nat) (i : Fin n) :
    (DramInterface.findDram check g k (i.cast hn)).1 = (DramInterface.findDram check f k i).1 ∧
      (DramInterface.findDram check g k (i.cast hn)).2.val =
        (DramInterface.findDram check f k i).2.val := by
  subst hn
  rw [funext hfg]
  exact ⟨rfl, rfl⟩

/-- The memory that is found accepts the transaction. -/
theorem findDram_accepts {n check : Nat} {f : Fin n → Bool} {k : Nat} {i : Fin n}
    (h : (DramInterface.findDram check f k i).1 = true) :
    f (DramInterface.findDram check f k i).2 = true := by
  induction k generalizing i with
  | zero => cases h
  | succ k ih =>
    rw [DramInterface.findDram] at h ⊢
    split at h
    · rename_i haccepts
      rw [if_pos haccepts]
      exact haccepts
    · rename_i haccepts
      rw [if_neg haccepts]
      split at h
      · cases h
      · rename_i hback
        rw [if_neg hback]
        exact ih h

theorem Adding.place (h : Adding enc M D₀ d₀ D d) {t : GcnSim.Transaction}
    (hfits : Fits enc M t.address) {j : Fin D.drams.length} {i : Fin d.drams.length}
    (hj : j.val = i.val) (haccept : D.canRequest (keyOf enc t) j = true) :
    Adding enc M D₀ d₀ (D.place j (keyOf enc t)) (d.place i t) := by
  have hget : ∀ s, D.drams[i.val]? = some s →
      s.willAcceptTransaction (keyOf enc t).1 (keyOf enc t).2 = true := by
    intro s hs
    have hsome : D.drams[j.val]? = some D.drams[j] := List.getElem?_eq_getElem j.isLt
    rw [← hj, hsome] at hs
    rw [← Option.some.inj hs]
    exact haccept
  have hsplit : ∀ (k : Nat) m' s', (d.place i t).drams[k]? = some m' →
      (D.place j (keyOf enc t)).drams[k]? = some s' →
      ∃ m s, d.drams[k]? = some m ∧ D.drams[k]? = some s ∧
        ((k ≠ i.val ∧ m' = m ∧ s' = s) ∨ (k = i.val ∧ m' = m.addTransaction t ∧
          s' = (s.addTransaction (keyOf enc t).1 (keyOf enc t).2).2)) := by
    intro k m' s' hm' hs'
    rw [DramInterface.place, List.getElem?_modify] at hm'
    rw [Interface.place, List.getElem?_modify, hj] at hs'
    obtain ⟨m, hm, rfl⟩ := Option.map_eq_some_iff.mp hm'
    obtain ⟨s, hs, rfl⟩ := Option.map_eq_some_iff.mp hs'
    refine ⟨m, s, hm, hs, ?_⟩
    by_cases hik : i.val = k
    · rw [if_pos hik, if_pos hik]
      exact .inr ⟨hik.symm, rfl, rfl⟩
    · rw [if_neg hik, if_neg hik]
      exact .inl ⟨fun h => hik h.symm, rfl, rfl⟩
  constructor
  · rw [Interface.place, DramInterface.place, List.length_modify, List.length_modify]
    exact h.length
  · intro k m' s' hm' hs'
    obtain ⟨m, s, hm, hs, ⟨-, rfl, rfl⟩ | ⟨rfl, rfl, rfl⟩⟩ := hsplit k m' s' hm' hs'
    · exact h.represents k _ _ hm hs
    · exact (h.represents _ m s hm hs).place hfits (hget s hs)
  · intro k m' s' hm' hs'
    obtain ⟨m, s, hm, hs, ⟨-, rfl, rfl⟩ | ⟨rfl, rfl, rfl⟩⟩ := hsplit k m' s' hm' hs'
    · exact h.added k _ _ hm hs
    · obtain ⟨m₀, s₀, ts, hm₀, hs₀, hinside, hadded⟩ := h.added _ m s hm hs
      refine ⟨m₀, s₀, ts ++ [t], hm₀, hs₀, ?_, ?_⟩
      · rw [MemorySystem.addTransaction, hinside, List.append_assoc]
      · rw [hadded, List.map_append, addAll, addAll, List.foldl_append]
        rfl
  · rw [Interface.place, DramInterface.place]
    dsimp only
    rw [DramInterface.nextIdx_val, DramInterface.nextIdx_val, hj, h.length]

theorem addLoop_of_found {check : Nat} {t : Nat × Bool} {ts : List (Nat × Bool)}
    {j : Fin D.drams.length}
    (h : DramInterface.findDram check (D.canRequest t) D.drams.length ⟨D.dramIdx, D.dramIdx_lt⟩ =
      (true, j)) :
    Interface.addLoop check (t :: ts) D = Interface.addLoop check ts (D.place j t) := by
  simp only [Interface.addLoop, h, if_true]

theorem addLoop_of_not_found {check : Nat} {t : Nat × Bool} {ts : List (Nat × Bool)}
    {j : Fin D.drams.length}
    (h : DramInterface.findDram check (D.canRequest t) D.drams.length ⟨D.dramIdx, D.dramIdx_lt⟩ =
      (false, j)) :
    Interface.addLoop check (t :: ts) D =
      { D with tQueue := t :: ts, dramIdx := j, dramIdx_lt := j.isLt } := by
  simp only [Interface.addLoop, h, Bool.false_eq_true, if_false]

/-- The search for a memory ends in the same way in both. -/
theorem Adding.findDram (h : Adding enc M D₀ d₀ D d) (check : Nat) (t : GcnSim.Transaction) :
    ∃ found j i, j.val = i.val ∧
      DramInterface.findDram check (D.canRequest (keyOf enc t)) D.drams.length
        ⟨D.dramIdx, D.dramIdx_lt⟩ = (found, j) ∧
      DramInterface.findDram check (d.answers (acceptsOf enc D₀ d₀) t) d.drams.length
        ⟨d.dramIdx, d.dramIdx_lt⟩ = (found, i) := by
  have hstart : (⟨D.dramIdx, D.dramIdx_lt⟩ : Fin D.drams.length) =
      Fin.cast h.length.symm ⟨d.dramIdx, d.dramIdx_lt⟩ := Fin.ext h.dramIdx
  obtain ⟨hfound, hidx⟩ := @findDram_congr _ _ check h.length.symm
    (d.answers (acceptsOf enc D₀ d₀) t) _ (h.accepts t) d.drams.length ⟨d.dramIdx, d.dramIdx_lt⟩
  refine ⟨_, _, _, hidx, ?_, rfl⟩
  rw [hstart, ← hfound]
  have hfuel : ∀ n, n = d.drams.length → ∀ i : Fin D.drams.length,
      DramInterface.findDram check (D.canRequest (keyOf enc t)) n i =
        DramInterface.findDram check (D.canRequest (keyOf enc t)) d.drams.length i := by
    rintro n rfl i
    rfl
  rw [hfuel _ h.length]

/-- The loops of `AddTransaction` hand the same transactions to the same memories. -/
theorem Adding.addLoop (check : Nat) {ts : List GcnSim.Transaction}
    (h : Adding enc M D₀ d₀ D d) (hreplies : Replies enc D d)
    (hfits : ∀ t ∈ ts, Fits enc M t.address) :
    Adding enc M D₀ d₀ (Interface.addLoop check (ts.map (keyOf enc)) D)
        (DramInterface.addLoop (acceptsOf enc D₀ d₀) check ts d).2 ∧
      Replies enc (Interface.addLoop check (ts.map (keyOf enc)) D)
        (DramInterface.addLoop (acceptsOf enc D₀ d₀) check ts d).2 ∧
      (∀ t ∈ (DramInterface.addLoop (acceptsOf enc D₀ d₀) check ts d).2.tQueue,
        Fits enc M t.address) ∧
      (Interface.addLoop check (ts.map (keyOf enc)) D).tQueue =
        (DramInterface.addLoop (acceptsOf enc D₀ d₀) check ts d).2.tQueue.map (keyOf enc) := by
  induction ts generalizing D d with
  | nil =>
    exact ⟨{ h with }, { hreplies with }, fun _ h => (List.not_mem_nil h).elim, rfl⟩
  | cons t ts ih =>
    have hhead := (List.forall_mem_cons.mp hfits).1
    have htail := (List.forall_mem_cons.mp hfits).2
    obtain ⟨found, j, i, hidx, hD, hd⟩ := h.findDram check t
    rw [List.map_cons]
    cases found with
    | false =>
      rw [addLoop_of_not_found hD, DramInterface.addLoop_of_not_found hd]
      exact ⟨{ h with dramIdx := hidx }, { hreplies with }, hfits, rfl⟩
    | true =>
      have haccept : D.canRequest (keyOf enc t) j = true := by
        have hfound := @findDram_accepts _ check (D.canRequest (keyOf enc t)) D.drams.length
          ⟨D.dramIdx, D.dramIdx_lt⟩
        rw [hD] at hfound
        exact hfound rfl
      rw [addLoop_of_found hD, DramInterface.addLoop_of_found hd]
      exact ih (h.place hhead hidx haccept) { hreplies with } htail

/-- `AddTransaction` is one of the model, for what the memories accept. -/
theorem Refines.addTransaction {D : Interface cfg} {d : DramInterface} (h : Refines enc M D d) :
    Refines enc M D.addTransaction (d.addTransaction (acceptsOf enc D d)) := by
  have hstart : Adding enc M D d D d := by
    refine ⟨h.drams.length_eq.symm, ?_, ?_, h.dramIdx⟩
    · intro i m s hm hs
      obtain ⟨hi, rfl⟩ := List.getElem?_eq_some_iff.mp hm
      obtain ⟨hi', rfl⟩ := List.getElem?_eq_some_iff.mp hs
      exact h.drams.get hi hi'
    · intro i m s hm hs
      exact ⟨m, s, [], hm, hs, (List.append_nil _).symm, rfl⟩
  obtain ⟨hadding, hreplies, hqueued, htQueue⟩ := hstart.addLoop d.dramIdx h.replies h.queued
  rw [Interface.addTransaction, DramInterface.addTransaction, h.tQueue, h.dramIdx]
  refine ⟨hreplies, hqueued, htQueue, ?_, hadding.dramIdx⟩
  rw [List.forall₂_iff_get]
  refine ⟨hadding.length.symm, fun i hi hi' => ?_⟩
  exact hadding.represents i _ _ (List.getElem?_eq_getElem hi) (List.getElem?_eq_getElem hi')

end AddTransaction

section Step

variable {D : Interface cfg} {d : DramInterface}

/-- The write buffers of the first memory are empty in both or in neither. -/
theorem writeExist_eq (h : List.Forall₂ (Settled enc) d.drams D.drams) :
    D.writeExist = d.writeExist := by
  have hfirst := h.get (Nat.zero_lt_of_lt d.dramIdx_lt) (Nat.zero_lt_of_lt D.dramIdx_lt)
  rw [Interface.writeExist, DramInterface.writeExist, JedecDramSystem.isQueueFill_eq,
    MemorySystem.isQueueFill]
  have hempty := List.Perm.isEmpty_eq hfirst
  rw [List.isEmpty_map] at hempty
  rw [hempty]

/-- `UpdateCycle` is one of the model, for some events of the memories. -/
theorem Refines.updateCycle (h : Refines enc M D d) (hsafe : cfg.Safe timing) :
    ∃ ticks D', D.updateCycle M timing = .ok D' ∧ Refines enc M D' (d.updateCycle ticks) ∧
      D'.writeExist = (d.updateCycle ticks).writeExist := by
  obtain ⟨plan, ms', ts, done, ss', hticks, hkeys, hfits, hreps, hsettled, hfold⟩ :=
    tickDrams_refines hsafe h.drams
  obtain ⟨hlt, hevents⟩ := hfold [] d (fun i => plan.getD i []) rfl (by
    intro j evs hj
    rw [List.length_nil, Nat.zero_add, List.getD_eq_getElem?_getD, hj]
    rfl)
  have hcycle : d.updateCycle (fun i => plan.getD i []) =
      ts.foldl DramInterface.callback (withDrams d ms' hlt) := by
    rw [DramInterface.updateCycle, List.range_eq_range']
    exact hevents
  have hlt' : D.dramIdx < ss'.length := by
    rw [Interface.length_tickDrams hticks]
    exact D.dramIdx_lt
  have hinterface : D.updateCycle M timing =
      .ok (done.foldl (Interface.callback M) { D with drams := ss', dramIdx_lt := hlt' }) := by
    rw [Interface.updateCycle]
    split
    · rename_i hticks'
      rw [hticks] at hticks'
      cases hticks'
    · rename_i done' drams hticks'
      rw [hticks] at hticks'
      cases hticks'
      rfl
  have hreplies : Replies enc { D with drams := ss', dramIdx_lt := hlt' } (withDrams d ms' hlt) :=
    { h.replies with }
  obtain ⟨hdrams, hidx, htQueue⟩ := foldl_callback_frame ts (withDrams d ms' hlt)
  obtain ⟨hdrams', hidx', htQueue'⟩ := @foldl_interface_callback_frame cfg M done
    { D with drams := ss', dramIdx_lt := hlt' }
  refine ⟨fun i => plan.getD i [], _, hinterface, ?_, ?_⟩
  · rw [hcycle]
    constructor
    · exact hreplies.foldl_callback hkeys hfits
    · rw [htQueue]
      exact h.queued
    · rw [htQueue, htQueue']
      exact h.tQueue
    · rw [hdrams, hdrams']
      exact hreps
    · rw [hidx, hidx']
      exact h.dramIdx
  · rw [hcycle]
    refine @writeExist_eq cfg enc _ _ ?_
    rw [hdrams, hdrams']
    exact hsettled

theorem Refines.request (h : Refines enc M D d) {t : GcnSim.Transaction}
    (hfits : Fits enc M t.address) :
    Refines enc M (D.request (enc t.address) t.isWrite) (d.request [t]) := by
  refine ⟨{ h.replies with }, ?_, ?_, h.drams, h.dramIdx⟩
  · intro t' ht'
    rcases List.mem_append.mp ht' with ht' | ht'
    · exact h.queued t' ht'
    · rw [List.mem_singleton.mp ht']
      exact hfits
  · rw [Interface.request, DramInterface.request, List.map_append, h.tQueue]
    rfl

theorem Refines.getReadData (h : Refines enc M D d) (isW : Bool) :
    (D.getReadData isW).1 = (d.getReadData isW).1.map enc ∧
      Refines enc M (D.getReadData isW).2 (d.getReadData isW).2 := by
  have hreplies := h.replies
  cases isW with
  | false =>
    have htail : (D.getReadData false).2.fAddress = d.fAddress.tail.map enc := by
      change D.fAddress.tail = _
      rw [hreplies.fAddress, List.map_tail]
    refine ⟨?_, ⟨{ hreplies with fReadComplete := ?_, fAddress := htail }, h.queued, h.tQueue,
      h.drams, h.dramIdx⟩⟩
    · change D.fAddress.head? = d.fAddress.head?.map enc
      rw [hreplies.fAddress, List.head?_map]
    · change (D.fReadComplete && !D.fAddress.tail.isEmpty) =
        (d.fReadComplete && !d.fAddress.tail.isEmpty)
      rw [hreplies.fReadComplete, hreplies.fAddress, ← List.map_tail, List.isEmpty_map]
  | true =>
    have htail : (D.getReadData true).2.wAddress = d.wAddress.tail.map enc := by
      change D.wAddress.tail = _
      rw [hreplies.wAddress, List.map_tail]
    refine ⟨?_, ⟨{ hreplies with wReadComplete := ?_, wAddress := htail }, h.queued, h.tQueue,
      h.drams, h.dramIdx⟩⟩
    · change D.wAddress.head? = d.wAddress.head?.map enc
      rw [hreplies.wAddress, List.head?_map]
    · change (D.wReadComplete && !D.wAddress.tail.isEmpty) =
        (d.wReadComplete && !d.wAddress.tail.isEmpty)
      rw [hreplies.wReadComplete, hreplies.wAddress, ← List.map_tail, List.isEmpty_map]

end Step

/-- What the loop does with the interface. -/
inductive LoopCall where
  | request (t : GcnSim.Transaction)
  | cycle
  | getReadData (isW : Bool)
  deriving DecidableEq, Repr

/-- The call of the loop with machine addresses. -/
def LoopCall.encode (enc : GcnSim.Address → Nat) : LoopCall → InterfaceCall
  | .request t => .request (enc t.address) t.isWrite
  | .cycle => .cycle
  | .getReadData isW => .getReadData isW

/-- The address of a request fits the address map. -/
def LoopCall.Fits (enc : GcnSim.Address → Nat) (M : AddressMap) : LoopCall → Prop
  | .request t => Dramsim.Fits enc M t.address
  | _ => True

/-- A call of the model: a cycle with the decisions of the memories. -/
inductive ModelCall where
  | request (t : GcnSim.Transaction)
  | cycle (accepts : Accepts) (ticks : Nat → List MemoryEvent)
  | getReadData (isW : Bool)

/-- The same call, for some decisions. -/
inductive ModelCall.Extends : ModelCall → LoopCall → Prop where
  | request (t : GcnSim.Transaction) : Extends (.request t) (.request t)
  | cycle (accepts : Accepts) (ticks : Nat → List MemoryEvent) :
    Extends (.cycle accepts ticks) .cycle
  | getReadData (isW : Bool) : Extends (.getReadData isW) (.getReadData isW)

/-- A call of the model, with what the loop sees of it. -/
def modelStep (enc : GcnSim.Address → Nat) (d : DramInterface) :
    ModelCall → Observation × DramInterface
  | .request t => (.requested, d.request [t])
  | .cycle accepts ticks =>
    let d := (d.addTransaction accepts).updateCycle ticks
    (.cycled d.fReadComplete d.wReadComplete d.totAxwCount d.totXwCount d.writeExist, d)
  | .getReadData isW =>
    let r := d.getReadData isW
    (.reply (r.1.map enc) r.2.fReadComplete r.2.wReadComplete, r.2)

/-- Every call of the interface is a call of the model. -/
theorem simulates (hsafe : cfg.Safe timing) :
    Transition.Simulates (fun (D : Interface cfg) c => D.step M timing (c.encode enc))
      (modelStep enc) (LoopCall.Fits enc M) ModelCall.Extends (Refines enc M) := by
  intro D d call hfits h
  cases call with
  | request t => exact ⟨_, _, _, rfl, .request t, rfl, h.request hfits⟩
  | cycle =>
    obtain ⟨ticks, D', hD', hnext, hwrites⟩ := h.addTransaction.updateCycle hsafe
    refine ⟨.cycled D'.fReadComplete D'.wReadComplete D'.totAxwCount D'.totXwCount D'.writeExist,
      D', .cycle (acceptsOf enc D d) ticks, ?_, .cycle _ _, ?_, hnext⟩
    · dsimp only
      rw [LoopCall.encode, Interface.step, hD']
    · rw [modelStep, hwrites, hnext.replies.fReadComplete, hnext.replies.wReadComplete,
        hnext.replies.totAxwCount, hnext.replies.totXwCount]
  | getReadData isW =>
    obtain ⟨hreply, hnext⟩ := h.getReadData isW
    refine ⟨_, _, .getReadData isW, rfl, .getReadData isW, ?_, hnext⟩
    rw [modelStep, hreply, hnext.replies.fReadComplete, hnext.replies.wReadComplete]

theorem refines_init (maxDram channels totAxwCount totXwCount : Nat) (hmax : 0 < maxDram)
    (hchannels : cfg.mapping.chMask < channels) :
    Refines enc M
      (.init maxDram channels totAxwCount totXwCount hmax hchannels : Interface cfg)
      (.init maxDram totAxwCount totXwCount hmax) := by
  refine ⟨⟨rfl, rfl, rfl, rfl, rfl, rfl⟩, fun _ h => (List.not_mem_nil h).elim, rfl, ?_, rfl⟩
  rw [List.forall₂_iff_get]
  refine ⟨?_, fun i hi hi' => ?_⟩
  · rw [Interface.init, DramInterface.init, List.length_replicate, List.length_replicate]
  · simp only [Interface.init, DramInterface.init, List.get_eq_getElem, List.getElem_replicate]
    exact represents_idle channels hchannels

/-- No run of the interface over safe memories ends the process, and for every run there are
decisions with which the model of the loop gives the same replies, flags and counters. -/
theorem run_refines_model (hsafe : cfg.Safe timing) (maxDram channels totAxwCount totXwCount : Nat)
    (hmax : 0 < maxDram) (hchannels : cfg.mapping.chMask < channels) {calls : List LoopCall}
    (hcalls : ∀ c ∈ calls, c.Fits enc M) :
    ∃ os D ks,
      Transition.emitM (fun (D : Interface cfg) c => D.step M timing (LoopCall.encode enc c))
        (.init maxDram channels totAxwCount totXwCount hmax hchannels) calls = .ok (os, D) ∧
      List.Forall₂ ModelCall.Extends ks calls ∧
      (Transition.emit (modelStep enc) (.init maxDram totAxwCount totXwCount hmax) ks).1 = os ∧
      Refines enc M D
        (Transition.emit (modelStep enc) (.init maxDram totAxwCount totXwCount hmax) ks).2 :=
  (simulates hsafe).run (refines_init _ _ _ _ hmax hchannels) hcalls

/-- The lines of the regions fit the shipped address map. -/
theorem fits_shipped {cacheLineByte : Nat} {a : GcnSim.Address}
    (hline : a.line * cacheLineByte < 0x1000000000000000) :
    Fits (AddressMap.encode cacheLineByte) .shipped a :=
  ⟨(AddressMap.encode_spec hline).1, (AddressMap.encode_spec hline).2.1⟩

theorem run_refines_model_hbm2 :
    ∃ os D ks,
      Transition.emitM (fun (D : Interface hbm2) c => D.step .shipped hbm2Timing.timing
          (LoopCall.encode (AddressMap.encode 64) c))
        (.init 2 8 1 0 (by decide) (by decide))
        [.request (GcnSim.readLine .aRow 0), .request writeAxw, .cycle, .cycle,
          .getReadData false] = .ok (os, D) ∧
      List.Forall₂ ModelCall.Extends ks [.request (GcnSim.readLine .aRow 0), .request writeAxw,
        .cycle, .cycle, .getReadData false] ∧
      (Transition.emit (modelStep (AddressMap.encode 64)) (.init 2 1 0 (by decide)) ks).1 = os ∧
      Refines (AddressMap.encode 64) .shipped D
        (Transition.emit (modelStep (AddressMap.encode 64)) (.init 2 1 0 (by decide)) ks).2 := by
  apply run_refines_model hbm2_safe 2 8 1 0 (by decide) (by decide)
  simp only [List.forall_mem_cons]
  exact ⟨fits_shipped (by decide), fits_shipped (by decide), trivial, trivial, trivial,
    fun _ h => (List.not_mem_nil h).elim⟩

end GcnSim.Dramsim
