import GcnSim.Core.Dram
import GcnSim.Lib.Buckets

/-!
# The memory interface with several memories

`DRAMInterface` for any `MAX_DRAM`. `AddTransaction` hands the waiting transactions to the
memories in turn. An accepted write lies in the memory's write buffer; the memory reports it
and drains the buffer later, in any order. A write that `DRAMsim3` merges with a pending one
of the same address is a write that is drained at once.
-/

namespace GcnSim

/-- A `DRAMsim3` memory: the accepted transactions that it has not reported yet, and the
writes in the write buffers of its controllers. -/
structure MemorySystem where
  inside : List Transaction
  writeBuffer : List Transaction
  deriving DecidableEq, Repr

namespace MemorySystem

/-- A new memory. -/
def idle : MemorySystem := ⟨[], []⟩

/-- `AddTransaction`. -/
def addTransaction (t : Transaction) (m : MemorySystem) : MemorySystem where
  inside := m.inside ++ [t]
  writeBuffer := if t.isWrite then m.writeBuffer ++ [t] else m.writeBuffer

/-- `IsQueueFill`. -/
def isQueueFill (m : MemorySystem) : Bool := !m.writeBuffer.isEmpty

end MemorySystem

/-- What a memory does in a cycle: it reports an accepted transaction through a callback, or
a write leaves its write buffer. -/
inductive MemoryEvent where
  | report (k : Nat) | drain (k : Nat)
  deriving DecidableEq, Repr

/-- `WillAcceptTransaction` of every memory, by its index and its contents. -/
abbrev Accepts := Nat → MemorySystem → Transaction → Bool

/-- `DRAMInterface` and the write counters its callbacks decrement. `MAX_DRAM` is the length
of `drams`. -/
structure DramInterface where
  tQueue : List Transaction
  drams : List MemorySystem
  dramIdx : Nat
  fReadComplete : Bool
  wReadComplete : Bool
  fAddress : List Address
  wAddress : List Address
  totAxwCount : Nat
  totXwCount : Nat
  dramIdx_lt : dramIdx < drams.length

namespace DramInterface

/-- The constructor. -/
def init (maxDram totAxwCount totXwCount : Nat) (hmax : 0 < maxDram) : DramInterface where
  tQueue := []
  drams := List.replicate maxDram .idle
  dramIdx := 0
  fReadComplete := false
  wReadComplete := false
  fAddress := []
  wAddress := []
  totAxwCount := totAxwCount
  totXwCount := totXwCount
  dramIdx_lt := by rwa [List.length_replicate]

/-- `dram_idx++`, back to `0` at `MAX_DRAM`. -/
def nextIdx {maxDram : Nat} (i : Fin maxDram) : Fin maxDram :=
  if h : i + 1 < maxDram then ⟨i + 1, h⟩ else ⟨0, i.pos⟩

/-- The rounds of the loop of `AddTransaction` for one transaction, `n` of them at most: the
first memory from `dram_idx` on that accepts it, unless the index comes back to `check`. -/
def findDram {maxDram : Nat} (check : Nat) (accepts : Fin maxDram → Bool) :
    Nat → Fin maxDram → Bool × Fin maxDram
  | 0, i => (false, i)
  | n + 1, i =>
    if accepts i then (true, i)
    else if nextIdx i = check then (false, nextIdx i)
    else findDram check accepts n (nextIdx i)

/-- The next waiting transaction `t` is given to memory `i`. -/
def place (d : DramInterface) (i : Fin d.drams.length) (t : Transaction) : DramInterface :=
  { d with
    drams := d.drams.modify i (·.addTransaction t)
    dramIdx := nextIdx i
    dramIdx_lt := by
      rw [List.length_modify]
      exact (nextIdx i).isLt }

/-- The loop of `AddTransaction` over the waiting transactions, with the memory that takes
each of them. -/
def addLoop (accepts : Accepts) (check : Nat) :
    List Transaction → DramInterface → List (Nat × Transaction) × DramInterface
  | [], d => ([], { d with tQueue := [] })
  | t :: ts, d =>
    let r := findDram check (fun i => accepts i d.drams[i] t) d.drams.length
      ⟨d.dramIdx, d.dramIdx_lt⟩
    if r.1 then
      let rest := addLoop accepts check ts (d.place r.2 t)
      ((r.2.val, t) :: rest.1, rest.2)
    else ([], { d with
      tQueue := t :: ts
      dramIdx := r.2
      dramIdx_lt := r.2.isLt })

/-- `AddTransaction`. -/
def addTransaction (d : DramInterface) (accepts : Accepts) : DramInterface :=
  (addLoop accepts d.dramIdx d.tQueue d).2

/-- The transactions that `AddTransaction` hands to the memories. -/
def placed (d : DramInterface) (accepts : Accepts) : List (Nat × Transaction) :=
  (addLoop accepts d.dramIdx d.tQueue d).1

/-- `DRAMRequest` for a list of requests. -/
def request (d : DramInterface) (ts : List Transaction) : DramInterface :=
  { d with tQueue := d.tQueue ++ ts }

/-- `ReadCompleteCallback`. -/
def readCompleteCallback (d : DramInterface) (a : Address) : DramInterface :=
  if a.region.belowWeight then
    { d with
      fReadComplete := true
      fAddress := d.fAddress ++ [a] }
  else
    { d with
      wReadComplete := true
      wAddress := d.wAddress ++ [a] }

/-- `WriteCompleteCallback`. -/
def writeCompleteCallback (d : DramInterface) (a : Address) : DramInterface :=
  if a.region = .axw then { d with totAxwCount := u64Sub d.totAxwCount 1 }
  else { d with totXwCount := u64Sub d.totXwCount 1 }

/-- The callback for a transaction. -/
def callback (d : DramInterface) (t : Transaction) : DramInterface :=
  if t.isWrite then d.writeCompleteCallback t.address else d.readCompleteCallback t.address

/-- The interface with another content of memory `i`. -/
def setDram (d : DramInterface) (i : Nat) (m : MemorySystem) : DramInterface :=
  { d with
    drams := d.drams.set i m
    dramIdx_lt := by
      rw [List.length_set]
      exact d.dramIdx_lt }

/-- An event of memory `i`. -/
def event (i : Nat) (d : DramInterface) (e : MemoryEvent) : DramInterface :=
  match d.drams[i]?, e with
  | none, _ => d
  | some m, .drain k => d.setDram i { m with writeBuffer := m.writeBuffer.eraseIdx k }
  | some m, .report k =>
    match m.inside[k]? with
    | none => d
    | some t => (d.setDram i { m with inside := m.inside.eraseIdx k }).callback t

/-- `UpdateCycle`: the memories tick one after the other. -/
def updateCycle (d : DramInterface) (ticks : Nat → List MemoryEvent) : DramInterface :=
  (List.range d.drams.length).foldl (fun d i => (ticks i).foldl (event i) d) d

/-- `GetReadData`. -/
def getReadData (d : DramInterface) (isW : Bool) : Option Address × DramInterface :=
  if isW then
    (d.wAddress.head?, { d with
      wAddress := d.wAddress.tail
      wReadComplete := d.wReadComplete && !d.wAddress.tail.isEmpty })
  else
    (d.fAddress.head?, { d with
      fAddress := d.fAddress.tail
      fReadComplete := d.fReadComplete && !d.fAddress.tail.isEmpty })

/-- `WriteExist`: only the first memory is asked. -/
def writeExist (d : DramInterface) : Bool :=
  (d.drams.get ⟨0, Nat.zero_lt_of_lt d.dramIdx_lt⟩).isQueueFill

/-- The transactions of a kind that wait or are inside a memory. -/
def out (d : DramInterface) (p : Transaction → Bool) : Nat :=
  d.tQueue.countP p + (d.drams.flatMap (·.inside)).countP p

/-- A new interface holds nothing. -/
theorem init_out (maxDram totAxwCount totXwCount : Nat) (hmax : 0 < maxDram)
    (p : Transaction → Bool) : (init maxDram totAxwCount totXwCount hmax).out p = 0 := by
  have hinside : (List.replicate maxDram MemorySystem.idle).flatMap (·.inside) = [] := by
    rw [List.flatMap_eq_nil_iff]
    intro m hm
    rw [List.eq_of_mem_replicate hm]
    rfl
  change 0 + ((List.replicate maxDram MemorySystem.idle).flatMap (·.inside)).countP p = 0
  rw [hinside, List.countP_nil]

section AddTransaction

theorem nextIdx_val {maxDram : Nat} (i : Fin maxDram) :
    (nextIdx i).val = if i.val + 1 < maxDram then i.val + 1 else 0 := by
  rw [nextIdx]
  split <;> rfl

variable (accepts : Accepts) (check : Nat)

/-- `AddTransaction` changes the queue, the memories and the index. -/
theorem addLoop_frame (ts : List Transaction) (d : DramInterface) :
    ∃ tQueue drams dramIdx h, (addLoop accepts check ts d).2 =
      { d with
        tQueue := tQueue
        drams := drams
        dramIdx := dramIdx
        dramIdx_lt := h } := by
  induction ts generalizing d with
  | nil => exact ⟨[], d.drams, d.dramIdx, d.dramIdx_lt, rfl⟩
  | cons t ts ih =>
    rw [addLoop]
    dsimp only
    split
    · exact ih _
    · exact ⟨t :: ts, d.drams, _, Fin.isLt _, rfl⟩

theorem addTransaction_wAddress (d : DramInterface) :
    (d.addTransaction accepts).wAddress = d.wAddress := by
  obtain ⟨tQueue, drams, dramIdx, hlt, heq⟩ := addLoop_frame accepts d.dramIdx d.tQueue d
  rw [addTransaction, heq]

theorem addTransaction_wReadComplete (d : DramInterface) :
    (d.addTransaction accepts).wReadComplete = d.wReadComplete := by
  obtain ⟨tQueue, drams, dramIdx, hlt, heq⟩ := addLoop_frame accepts d.dramIdx d.tQueue d
  rw [addTransaction, heq]

theorem addTransaction_totAxwCount (d : DramInterface) :
    (d.addTransaction accepts).totAxwCount = d.totAxwCount := by
  obtain ⟨tQueue, drams, dramIdx, hlt, heq⟩ := addLoop_frame accepts d.dramIdx d.tQueue d
  rw [addTransaction, heq]

/-- No transaction is lost or duplicated between the queue and the memories. -/
theorem addLoop_out (ts : List Transaction) (d : DramInterface) (p : Transaction → Bool) :
    (addLoop accepts check ts d).2.out p =
      ts.countP p + (d.drams.flatMap (·.inside)).countP p := by
  induction ts generalizing d with
  | nil => rfl
  | cons t ts ih =>
    rw [addLoop]
    dsimp only
    split
    · rw [ih]
      have hplace : ∀ i : Fin d.drams.length, ((d.place i t).drams.flatMap (·.inside)).Perm
          (d.drams.flatMap (·.inside) ++ [t]) := fun i =>
        Buckets.flatMap_modify_perm i.isLt (List.Perm.refl _)
      rw [(hplace _).countP_eq p, List.countP_append, List.countP_cons, List.countP_cons,
        List.countP_nil]
      omega
    · rfl

theorem addTransaction_out (d : DramInterface) (p : Transaction → Bool) :
    (d.addTransaction accepts).out p = d.out p :=
  addLoop_out accepts d.dramIdx d.tQueue d p

theorem addLoop_placed_lt (ts : List Transaction) (d : DramInterface) :
    ∀ x ∈ (addLoop accepts check ts d).1, x.1 < d.drams.length := by
  induction ts generalizing d with
  | nil => exact fun x hx => (List.not_mem_nil hx).elim
  | cons t ts ih =>
    rw [addLoop]
    dsimp only
    split
    · rw [List.forall_mem_cons]
      refine ⟨Fin.isLt _, ?_⟩
      intro x hx
      have hlt := ih _ x hx
      rw [place, List.length_modify] at hlt
      exact hlt
    · exact fun x hx => (List.not_mem_nil hx).elim

/-- A memory that takes no write keeps an empty write buffer. -/
theorem addLoop_writeBuffer {j : Nat} (ts : List Transaction) (d : DramInterface)
    (hplaced : ∀ x ∈ (addLoop accepts check ts d).1, x.2.isWrite = true → x.1 ≠ j)
    (hj : ∀ m, d.drams[j]? = some m → m.writeBuffer = []) :
    ∀ m, (addLoop accepts check ts d).2.drams[j]? = some m → m.writeBuffer = [] := by
  induction ts generalizing d with
  | nil => exact hj
  | cons t ts ih =>
    rw [addLoop] at hplaced ⊢
    dsimp only at hplaced ⊢
    split at hplaced
    · rename_i haccepted
      rw [if_pos haccepted]
      rw [List.forall_mem_cons] at hplaced
      apply ih _ hplaced.2
      intro m hm
      rw [place, List.getElem?_modify] at hm
      obtain ⟨m₀, hm₀, rfl⟩ := Option.map_eq_some_iff.mp hm
      have hempty := hj m₀ hm₀
      split
      · rename_i hij
        have hread : t.isWrite = false := by
          by_contra hwrite
          exact hplaced.1 (Bool.eq_true_of_not_eq_false hwrite) hij
        simp [MemorySystem.addTransaction, hread, hempty]
      · exact hempty
    · rename_i hrefused
      rw [if_neg hrefused]
      exact hj

end AddTransaction

section Events

variable (d : DramInterface) (p : Transaction → Bool)

theorem request_out (ts : List Transaction) : (d.request ts).out p = d.out p + ts.countP p := by
  simp only [request, out, List.countP_append]
  omega

/-- Requests of another kind do not matter. -/
theorem request_out_of_none {ts : List Transaction} (hts : ∀ t ∈ ts, p t = false) :
    (d.request ts).out p = d.out p := by
  have hcount : ts.countP p = 0 := by
    rw [List.countP_eq_zero]
    intro t ht
    rw [hts t ht]
    exact Bool.false_ne_true
  rw [request_out, hcount, Nat.add_zero]

theorem callback_out (t : Transaction) : (d.callback t).out p = d.out p := by
  rw [callback, writeCompleteCallback, readCompleteCallback]
  split <;> split <;> rfl

theorem callback_drams (t : Transaction) : (d.callback t).drams = d.drams := by
  rw [callback, writeCompleteCallback, readCompleteCallback]
  split <;> split <;> rfl

/-- An event either leaves everything but a write buffer as it is, or it takes one
transaction out of a memory and calls its callback. -/
theorem event_cases (i : Nat) (e : MemoryEvent) :
    (∃ drams h, d.event i e = { d with drams := drams, dramIdx_lt := h } ∧
      ∀ p, (d.event i e).out p = d.out p) ∨
    ∃ t drams h, d.event i e = ({ d with drams := drams, dramIdx_lt := h }).callback t ∧
      ∀ p, d.out p = (d.event i e).out p + if p t then 1 else 0 := by
  have hset : ∀ (m m' : MemorySystem) (xs : List Transaction), d.drams[i]? = some m →
      (m'.inside ++ xs).Perm m.inside → ∀ p, d.out p = (d.setDram i m').out p + xs.countP p := by
    intro m m' xs hm hperm p
    obtain ⟨hi, hget⟩ := List.getElem?_eq_some_iff.mp hm
    have hmodify : d.drams.set i m' = d.drams.modify i (fun _ => m') := by
      rw [List.modify_eq_set_getElem?, hm]
      rfl
    have hall : ((d.drams.set i m').flatMap (·.inside) ++ xs).Perm
        (d.drams.flatMap (·.inside) ++ []) := by
      rw [hmodify]
      apply Buckets.flatMap_modify_append_perm hi
      rw [List.append_nil, hget]
      exact hperm
    have hcount := hall.countP_eq p
    rw [List.append_nil, List.countP_append] at hcount
    simp only [out, setDram]
    omega
  unfold event
  split
  · exact .inl ⟨d.drams, d.dramIdx_lt, rfl, fun _ => rfl⟩
  · rename_i m k hm
    left
    refine ⟨_, (d.setDram i _).dramIdx_lt, rfl, ?_⟩
    intro p
    exact (hset m _ [] hm (by rw [List.append_nil]) p).symm
  · rename_i m k hm
    split
    · exact .inl ⟨d.drams, d.dramIdx_lt, rfl, fun _ => rfl⟩
    · rename_i t ht
      obtain ⟨hk, hget⟩ := List.getElem?_eq_some_iff.mp ht
      right
      refine ⟨t, _, (d.setDram i _).dramIdx_lt, rfl, ?_⟩
      intro p
      have hperm := (List.perm_append_singleton _ _).trans
        (List.getElem_cons_eraseIdx_perm hk)
      rw [hget] at hperm
      have hout := hset m { m with inside := m.inside.eraseIdx k } [t] hm hperm p
      rw [callback_out, hout, List.countP_singleton]

/-- Events never fill an empty write buffer. -/
theorem event_writeBuffer {i j : Nat} {e : MemoryEvent}
    (hj : ∀ m, d.drams[j]? = some m → m.writeBuffer = []) :
    ∀ m, (d.event i e).drams[j]? = some m → m.writeBuffer = [] := by
  have hset : ∀ m m' : MemorySystem, d.drams[i]? = some m → (m.writeBuffer = [] →
      m'.writeBuffer = []) → ∀ x, (d.setDram i m').drams[j]? = some x → x.writeBuffer = [] := by
    intro m m' hm himp x hx
    rw [setDram, List.getElem?_set] at hx
    split at hx
    · rename_i hij
      split at hx
      · obtain rfl := Option.some.inj hx
        exact himp (hj m (hij ▸ hm))
      · cases hx
    · exact hj x hx
  unfold event
  split
  · exact hj
  · rename_i m k hm
    apply hset m _ hm
    intro hempty
    rw [hempty, List.eraseIdx_nil]
  · rename_i m k hm
    split
    · exact hj
    · rename_i t ht
      rw [callback_drams]
      exact hset m _ hm id

/-- What every event keeps, `UpdateCycle` keeps. -/
theorem updateCycle_invariant {I : DramInterface → Prop}
    (hevent : ∀ d i e, I d → I (event i d e)) (ticks : Nat → List MemoryEvent)
    {d : DramInterface} (h : I d) : I (d.updateCycle ticks) := by
  have hmemory : ∀ i d, I d → I ((ticks i).foldl (event i) d) := fun i d h =>
    List.foldlRecOn (ticks i) (event i) h fun d h e _ => hevent d i e h
  exact List.foldlRecOn (List.range d.drams.length) _ h fun d h i _ => hmemory i d h

end Events

end DramInterface

end GcnSim
