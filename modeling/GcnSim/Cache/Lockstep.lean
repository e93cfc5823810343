import GcnSim.Cache.Hybrid
import GcnSim.Core.VertexReader
import GcnSim.Lib.Run

/-!
# The queues of the feature reader and of the global buffer

`XWReader` keeps every item in `xwq_archive` until it goes to the accelerator, and in `xwq`
until it goes to the global buffer, which keeps it in `wq`. The driver moves the items in
turns: the reader takes one, the buffer handles the replies and looks up its head, the reader
passes one on, and an item leaves both sides. The three queues stay in step. The driver needs
only the queue and the flags of a buffer, so that the result holds with every replacement
policy.
-/

namespace GcnSim

/-- `XWReader`. -/
structure XWReader (α : Type) where
  totReq : Nat
  reqCnt : Nat
  qSpace : Nat
  xwq : List α
  xwqArchive : List α
  qEmpty : Bool
  canReceive : Bool
  deriving DecidableEq, Repr

namespace XWReader

variable {α : Type}

/-- The constructor. -/
def init (totReq : Nat) : XWReader α where
  totReq := totReq
  reqCnt := 0
  qSpace := 0
  xwq := []
  xwqArchive := []
  qEmpty := true
  canReceive := true

/-- `IsEndOperation`. -/
def isEndOperation (r : XWReader α) : Bool := r.reqCnt = r.totReq

/-- `TransferData`, with the item it returns; `none` is the front of an empty queue. -/
def transferData (r : XWReader α) : Option α × XWReader α :=
  (r.xwqArchive.head?, { r with
    xwqArchive := r.xwqArchive.tail
    qSpace := u64Sub r.qSpace 2
    canReceive := if r.isEndOperation then r.canReceive else true })

/-- `Request`, with the item it returns; `none` is the front of an empty queue. -/
def request (r : XWReader α) : Option α × XWReader α :=
  (r.xwq.head?, { r with
    xwq := r.xwq.tail
    reqCnt := u64Add r.reqCnt 1
    qEmpty := if r.xwq.tail = [] then true else r.qEmpty })

/-- `ReceiveData`. -/
def receiveData (d : α) (r : XWReader α) : XWReader α :=
  { r with
    xwq := r.xwq ++ [d]
    xwqArchive := r.xwqArchive ++ [d]
    qSpace := u64Add r.qSpace 2
    qEmpty := false
    canReceive := if u64Sub maxQueueSize (u64Add r.qSpace 2) < 2 then false else r.canReceive }

/-- `TurnOffFlag`. -/
def turnOffFlag (r : XWReader α) : XWReader α := { r with canReceive := false }

end XWReader

/-- The queue `wq` with the flags `axwflag.can_receive` and `axwflag.q_empty`. -/
structure WaitingQueue (α : Type) where
  wq : List α
  canReceive : Bool
  qEmpty : Bool
  deriving DecidableEq, Repr

namespace WaitingQueue

variable {α : Type}

/-- The queue a buffer is constructed with. -/
def init : WaitingQueue α := ⟨[], true, true⟩

/-- What the arrival of an item does to the queue. -/
def push (d : α) (q : WaitingQueue α) : WaitingQueue α where
  wq := q.wq ++ [d]
  canReceive := if q.wq.length + 1 = GlobalBuffer.limitWqSize then false else q.canReceive
  qEmpty := false

/-- What `TransferAData` does to the queue. -/
def pop (q : WaitingQueue α) : WaitingQueue α where
  wq := q.wq.tail
  canReceive := true
  qEmpty := q.qEmpty || q.wq.tail.isEmpty

/-- The flags are right, and the queue is not too long. -/
structure Ok (q : WaitingQueue α) : Prop where
  length_le : q.wq.length ≤ GlobalBuffer.limitWqSize
  canReceive_iff : q.canReceive = true ↔ q.wq.length < GlobalBuffer.limitWqSize
  qEmpty_iff : q.qEmpty = true ↔ q.wq = []

theorem init_ok : (init : WaitingQueue α).Ok where
  length_le := Nat.zero_le _
  canReceive_iff := iff_of_true rfl (Nat.succ_pos 31)
  qEmpty_iff := iff_of_true rfl rfl

/-- The flag is cleared by the item that fills the queue. -/
theorem Ok.push {q : WaitingQueue α} (h : q.Ok) (hrecv : q.canReceive = true) (d : α) :
    (q.push d).Ok := by
  have hlt := h.canReceive_iff.mp hrecv
  refine ⟨?_, ?_, ?_⟩
  · simp only [WaitingQueue.push, List.length_append, List.length_singleton]
    exact hlt
  · simp only [WaitingQueue.push, List.length_append, List.length_singleton, hrecv]
    split
    next hfull => exact iff_of_false Bool.false_ne_true (by omega)
    next hroom => exact iff_of_true rfl (by omega)
  · simp [WaitingQueue.push]

/-- The flags are set by the pop that makes room, and by the one that takes the last item. -/
theorem Ok.pop {q : WaitingQueue α} (h : q.Ok) (hne : q.wq ≠ []) : q.pop.Ok := by
  obtain ⟨d, wq, hwq⟩ := List.exists_cons_of_ne_nil hne
  have hlen := h.length_le
  have hempty : q.qEmpty = false := by
    rw [← Bool.not_eq_true, h.qEmpty_iff]
    exact hne
  rw [hwq, List.length_cons] at hlen
  refine ⟨?_, ?_, ?_⟩
  · simp only [WaitingQueue.pop, hwq, List.tail_cons]
    omega
  · simp only [WaitingQueue.pop, hwq, List.tail_cons]
    exact iff_of_true trivial (by omega)
  · simp [WaitingQueue.pop, hwq, hempty]

end WaitingQueue

/-- A buffer as the driver uses it: its calls, and what they do to its queue. -/
structure WaitingBuffer (α ρ : Type) where
  State : Type
  init : State
  receiveItem : α → State → State
  reply : State → ρ → State
  checkTransfer : State → State
  transferAData : State → State
  queue : State → WaitingQueue α
  canTransfer : State → Bool
  queue_init : queue init = .init
  queue_receiveItem : ∀ d b, queue (receiveItem d b) = (queue b).push d
  queue_reply : ∀ b r, queue (reply b r) = queue b
  queue_checkTransfer : ∀ b, queue (checkTransfer b) = queue b
  queue_transferAData : ∀ b, queue (transferAData b) = (queue b).pop
  /-- `CanTransfer` sets the flag only for the head of a queue. -/
  wq_of_checkTransfer : ∀ b, canTransfer (checkTransfer b) = true → (queue b).wq ≠ []

namespace GlobalBuffer

/-- The queue and the flags of the buffer. -/
def queue (gb : GlobalBuffer) : WaitingQueue ERData := ⟨gb.wq, gb.canReceive, gb.qEmpty⟩

theorem queue_requestOnce (d : ERData) (gb : GlobalBuffer) :
    (gb.requestOnce d).queue = gb.queue := by
  unfold requestOnce
  split <;> rfl

/-- The buffer with one replacement policy. -/
def waiting (C : GbConfig) : WaitingBuffer ERData (Nat × ReplyJunk) where
  State := GlobalBuffer
  init := init C
  receiveItem := receiveItem C
  reply := reply C
  checkTransfer := checkTransfer C
  transferAData := transferAData C
  queue := queue
  canTransfer := canTransfer
  queue_init := rfl
  queue_receiveItem d gb := by
    unfold receiveItem
    split
    · rfl
    · exact queue_requestOnce d (gb.push d)
  queue_reply gb r := by
    unfold reply
    split <;> rfl
  queue_checkTransfer gb := by
    unfold checkTransfer
    split
    next d _ _ _ =>
      split
      · rfl
      · exact queue_requestOnce d gb
    next => rfl
  queue_transferAData gb := by
    unfold transferAData queue WaitingQueue.pop
    split
    next hwq => simp [hwq]
    next hwq => simp only [hwq, List.tail_cons]
  wq_of_checkTransfer gb h := by
    unfold checkTransfer at h
    split at h
    next d wq hwq => simp [queue, hwq]
    next => exact absurd h Bool.false_ne_true

end GlobalBuffer

namespace HybridBuffer

/-- The queue and the flags of the buffer. -/
def queue (hb : HybridBuffer) : WaitingQueue RowItem := ⟨hb.wq, hb.canReceive, hb.qEmpty⟩

theorem queue_requestOnce (d : RowItem) (hb : HybridBuffer) :
    (hb.requestOnce d).queue = hb.queue := by
  unfold requestOnce
  split <;> rfl

/-- The buffer with a hybrid policy. -/
def waiting (C : HybridConfig) : WaitingBuffer RowItem (Nat × HybridJunk) where
  State := HybridBuffer
  init := init C
  receiveItem := receiveItem C
  reply hb r := hb.reply C r.2 r.1
  checkTransfer := checkTransfer C
  transferAData := transferAData
  queue := queue
  canTransfer := canTransfer
  queue_init := rfl
  queue_receiveItem d hb := by
    unfold receiveItem
    split
    · rfl
    · exact queue_requestOnce d (hb.push C d)
  queue_reply hb r := by
    unfold reply
    split <;> rfl
  queue_checkTransfer hb := by
    unfold checkTransfer
    split
    next d _ _ _ =>
      split
      · rfl
      · exact queue_requestOnce d hb
    next => rfl
  queue_transferAData _ := rfl
  wq_of_checkTransfer hb h := by
    unfold checkTransfer at h
    split at h
    next d wq hwq => simp [queue, hwq]
    next => exact absurd h Bool.false_ne_true

end HybridBuffer

/-- What happens in a cycle: the item the edge reader has, if any, and the replies of the
memory. -/
structure LaneInput (α ρ : Type) where
  offered : Option α
  replies : List ρ

/-- The turns of a cycle. -/
inductive Turn (α ρ : Type) where
  | receive (offered : Option α)
  | reply (r : ρ)
  | canTransfer
  | turnOff
  | passOn
  | handOver

/-- A reader with its buffer. `requested` are the items the reader passed on and `passed` the
pairs of the item popped from `wq` and of the item given to the accelerator; `none` is the
front of an empty queue. Both are history. -/
structure Lane {α ρ : Type} (B : WaitingBuffer α ρ) where
  xwr : XWReader α
  gb : B.State
  requested : List (Option α)
  passed : List (Option α × Option α)

namespace Lane

variable {α ρ : Type} (B : WaitingBuffer α ρ)

/-- The lane at the start. -/
def init (totReq : Nat) : Lane B := ⟨.init totReq, B.init, [], []⟩

variable {B}

/-- The queue of the buffer. -/
def queue (s : Lane B) : WaitingQueue α := B.queue s.gb

/-- The reader takes the item the edge reader has, if it can. -/
def receive (offered : Option α) (s : Lane B) : Lane B :=
  match s.xwr.canReceive, offered with
  | true, some d => { s with xwr := s.xwr.receiveData d }
  | _, _ => s

/-- The reader is turned off at the end of its work. -/
def turnOff (s : Lane B) : Lane B :=
  if s.xwr.isEndOperation then { s with xwr := s.xwr.turnOffFlag } else s

/-- The reader passes an item on to the buffer. -/
def passOn (s : Lane B) : Lane B :=
  if s.xwr.qEmpty = false ∧ s.queue.canReceive = true then { s with
    xwr := s.xwr.request.2
    gb := match s.xwr.request.1 with
      | some d => B.receiveItem d s.gb
      | none => s.gb
    requested := s.requested ++ [s.xwr.request.1] }
  else s

/-- An item leaves the buffer and the reader. -/
def handOver (s : Lane B) : Lane B :=
  if B.canTransfer s.gb then { s with
    xwr := s.xwr.transferData.2
    gb := B.transferAData s.gb
    passed := s.passed ++ [(s.queue.wq.head?, s.xwr.transferData.1)] }
  else s

/-- One turn of the driver. -/
def turn (s : Lane B) : Turn α ρ → Lane B
  | .receive offered => s.receive offered
  | .reply r => { s with gb := B.reply s.gb r }
  | .canTransfer => { s with gb := B.checkTransfer s.gb }
  | .turnOff => s.turnOff
  | .passOn => s.passOn
  | .handOver => s.handOver

/-- The turns of a cycle, in the order of the driver. -/
def turns (i : LaneInput α ρ) : List (Turn α ρ) :=
  .receive i.offered :: (i.replies.map .reply ++ [.canTransfer, .turnOff, .passOn, .handOver])

/-- The archive of the reader is the queue of the buffer followed by the queue of the reader;
the flags and the space are right, nothing was popped from an empty queue, and every item
given to the accelerator is the one popped from `wq`. -/
structure Lockstep (s : Lane B) : Prop where
  archive : s.xwr.xwqArchive = s.queue.wq ++ s.xwr.xwq
  queue_ok : s.queue.Ok
  qEmpty_iff : s.xwr.qEmpty = true ↔ s.xwr.xwq = []
  qSpace : s.xwr.qSpace = 2 * s.xwr.xwqArchive.length
  /-- There is space for one more item as long as the reader takes items. -/
  space_le : s.xwr.qSpace ≤ maxQueueSize
  space_of_canReceive : s.xwr.canReceive = true → s.xwr.qSpace + 2 ≤ maxQueueSize
  requested : ∀ r ∈ s.requested, ∃ d, r = some d
  passed : ∀ p ∈ s.passed, ∃ d, p = (some d, some d)

/-- There is an item to hand over whenever the flag is set. -/
def Ready (s : Lane B) : Prop := B.canTransfer s.gb = true → s.queue.wq ≠ []

theorem init_lockstep (totReq : Nat) : (init B totReq).Lockstep where
  archive := by simp [init, queue, B.queue_init, WaitingQueue.init, XWReader.init]
  queue_ok := by
    change (B.queue B.init).Ok
    rw [B.queue_init]
    exact WaitingQueue.init_ok
  qEmpty_iff := iff_of_true rfl rfl
  qSpace := rfl
  space_le := Nat.zero_le _
  space_of_canReceive _ := Nat.le_of_ble_eq_true rfl
  requested := by simp [init]
  passed := by simp [init]

/-- The space of the reader, as long as it does not overflow. -/
theorem u64Add_qSpace {n : Nat} (h : n ≤ maxQueueSize) : u64Add n 2 = n + 2 := by
  unfold maxQueueSize at h
  unfold u64Add u64Size
  rw [if_pos (by omega)]

theorem Lockstep.receive {s : Lane B} (h : s.Lockstep) (offered : Option α) :
    (s.receive offered).Lockstep := by
  unfold Lane.receive
  split
  next d hrecv =>
    have hspace := h.space_of_canReceive hrecv
    have hadd := u64Add_qSpace h.space_le
    have hsub : u64Sub maxQueueSize (s.xwr.qSpace + 2) = maxQueueSize - (s.xwr.qSpace + 2) := by
      unfold u64Sub
      rw [if_pos hspace]
    refine ⟨?_, h.queue_ok, ?_, ?_, ?_, ?_, h.requested, h.passed⟩
    · simp only [XWReader.receiveData, h.archive, List.append_assoc]
      rfl
    · simp [XWReader.receiveData]
    · have hold := h.qSpace
      simp only [XWReader.receiveData, hadd, List.length_append, List.length_singleton]
      omega
    · simpa only [XWReader.receiveData, hadd] using hspace
    · simp only [XWReader.receiveData, hadd, hsub]
      split
      · exact fun hfull => absurd hfull Bool.false_ne_true
      · intro _
        omega
  next => exact h

theorem Lockstep.of_queue {s : Lane B} (h : s.Lockstep) {gb : B.State}
    (hqueue : B.queue gb = B.queue s.gb) : Lockstep { s with gb := gb } := by
  refine ⟨?_, ?_, h.qEmpty_iff, h.qSpace, h.space_le, h.space_of_canReceive, h.requested,
    h.passed⟩
  · simp only [queue, hqueue]
    exact h.archive
  · simp only [queue, hqueue]
    exact h.queue_ok

theorem Lockstep.reply {s : Lane B} (h : s.Lockstep) (r : ρ) : (s.turn (.reply r)).Lockstep :=
  h.of_queue (B.queue_reply s.gb r)

theorem Lockstep.canTransfer {s : Lane B} (h : s.Lockstep) :
    (s.turn .canTransfer).Lockstep ∧ (s.turn .canTransfer).Ready := by
  refine ⟨h.of_queue (B.queue_checkTransfer s.gb), ?_⟩
  intro hflag
  have hne := B.wq_of_checkTransfer s.gb hflag
  rwa [← B.queue_checkTransfer s.gb] at hne

theorem Lockstep.turnOff {s : Lane B} (h : s.Lockstep) (hready : s.Ready) :
    s.turnOff.Lockstep ∧ s.turnOff.Ready := by
  unfold Lane.turnOff
  split
  · refine ⟨?_, hready⟩
    exact { h with space_of_canReceive := fun hoff => absurd hoff Bool.false_ne_true }
  · exact ⟨h, hready⟩

theorem Lockstep.passOn {s : Lane B} (h : s.Lockstep) (hready : s.Ready) :
    s.passOn.Lockstep ∧ s.passOn.Ready := by
  unfold Lane.passOn
  split
  next hguard =>
    obtain ⟨hne, hrecv⟩ := hguard
    rw [← Bool.not_eq_true, h.qEmpty_iff] at hne
    obtain ⟨d, xwq, hxwq⟩ := List.exists_cons_of_ne_nil hne
    have harchive := h.archive
    rw [hxwq] at harchive
    have hqueue := B.queue_receiveItem d s.gb
    simp only [XWReader.request, hxwq, List.head?_cons, List.tail_cons]
    refine ⟨⟨?_, ?_, ?_, h.qSpace, h.space_le, h.space_of_canReceive, ?_, h.passed⟩, ?_⟩
    · simp only [queue, hqueue, WaitingQueue.push, List.append_assoc, List.singleton_append]
      exact harchive
    · simp only [queue, hqueue]
      exact h.queue_ok.push hrecv d
    · have hflag : s.xwr.qEmpty = false := by
        rw [← Bool.not_eq_true, h.qEmpty_iff]
        exact hne
      cases xwq <;> simp [hflag]
    · intro r hr
      rcases List.mem_append.mp hr with hold | hnew
      · exact h.requested r hold
      · exact ⟨d, List.mem_singleton.mp hnew⟩
    · intro _
      simp [queue, hqueue, WaitingQueue.push]
  next => exact ⟨h, hready⟩

theorem Lockstep.handOver {s : Lane B} (h : s.Lockstep) (hready : s.Ready) :
    s.handOver.Lockstep := by
  unfold Lane.handOver
  split
  next hflag =>
    have hne := hready hflag
    obtain ⟨d, wq, hwq⟩ := List.exists_cons_of_ne_nil hne
    have harchive := h.archive
    rw [hwq, List.cons_append] at harchive
    have hspace := h.qSpace
    rw [harchive, List.length_cons] at hspace
    have hsub : u64Sub s.xwr.qSpace 2 = s.xwr.qSpace - 2 := by
      unfold u64Sub
      rw [if_pos (by omega)]
    have hqueue := B.queue_transferAData s.gb
    have hle := h.space_le
    simp only [XWReader.transferData, harchive, hwq, List.head?_cons, List.tail_cons, hsub]
    refine ⟨?_, ?_, h.qEmpty_iff, ?_, ?_, ?_, h.requested, ?_⟩
    · simp only [queue, hqueue, WaitingQueue.pop]
      rw [show (B.queue s.gb).wq = d :: wq from hwq, List.tail_cons]
    · simp only [queue, hqueue]
      exact h.queue_ok.pop hne
    · simp only
      omega
    · simp only
      omega
    · intro _
      simp only
      omega
    · intro p hp
      rcases List.mem_append.mp hp with hold | hnew
      · exact h.passed p hold
      · exact ⟨d, List.mem_singleton.mp hnew⟩
  next => exact h

/-- The replies of a cycle keep the queues in step. -/
theorem Lockstep.replies {s : Lane B} (h : s.Lockstep) (rs : List ρ) :
    Transition.Always turn Lockstep s (rs.map .reply) := by
  induction rs generalizing s with
  | nil => exact Transition.always_nil.mpr h
  | cons r rs ih => exact Transition.always_cons.mpr ⟨h, ih (h.reply r)⟩

/-- The turns after the replies keep the queues in step. Between `CanTransfer` and the turn in
which an item leaves, the queue of the buffer only grows. -/
theorem Lockstep.lastTurns {s : Lane B} (h : s.Lockstep) :
    Transition.Always turn Lockstep s [.canTransfer, .turnOff, .passOn, .handOver] := by
  obtain ⟨hcheck, hready⟩ := h.canTransfer
  obtain ⟨hoff, hreadyOff⟩ := hcheck.turnOff hready
  obtain ⟨hpass, hreadyPass⟩ := hoff.passOn hreadyOff
  have hover := hpass.handOver hreadyPass
  simp only [Transition.always_cons, Transition.always_nil]
  exact ⟨h, hcheck, hoff, hpass, hover⟩

/-- A cycle of the driver keeps the queues in step. -/
theorem Lockstep.cycle {s : Lane B} (h : s.Lockstep) (i : LaneInput α ρ) :
    Transition.Always turn Lockstep s (turns i) := by
  have hreplies := (h.receive i.offered).replies i.replies
  refine Transition.always_cons.mpr ⟨h, Transition.always_append.mpr ⟨hreplies, ?_⟩⟩
  exact Lockstep.lastTurns (Transition.always_run hreplies)

/-- A run of the driver keeps the queues in step. -/
theorem Lockstep.run {s : Lane B} (h : s.Lockstep) (inputs : List (LaneInput α ρ)) :
    Transition.Always turn Lockstep s (inputs.flatMap turns) := by
  induction inputs generalizing s with
  | nil => exact Transition.always_nil.mpr h
  | cons i inputs ih =>
    have hcycle := h.cycle i
    exact Transition.always_append.mpr ⟨hcycle, ih (Transition.always_run hcycle)⟩

end Lane

/-- With every replacement policy, every stream of items and every order of replies, the
queues are in step after every turn of the driver. -/
theorem Lane.queues_in_step (totReq : Nat) :
    (∀ (C : GbConfig) (inputs : List (LaneInput ERData (Nat × ReplyJunk))),
      Transition.Always Lane.turn Lane.Lockstep (Lane.init (GlobalBuffer.waiting C) totReq)
        (inputs.flatMap Lane.turns)) ∧
    (∀ (C : HybridConfig) (inputs : List (LaneInput RowItem (Nat × HybridJunk))),
      Transition.Always Lane.turn Lane.Lockstep (Lane.init (HybridBuffer.waiting C) totReq)
        (inputs.flatMap Lane.turns)) := by
  constructor
  · intro C inputs
    exact (Lane.init_lockstep totReq).run inputs
  · intro C inputs
    exact (Lane.init_lockstep totReq).run inputs

end GcnSim
