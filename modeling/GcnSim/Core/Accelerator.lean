import GcnSim.Reader.BasisEdge

/-!
# The accelerator

While the accelerator works on `A`, an item goes to the pipeline `m2_data` if there is a
place in it and waits in `a_data` otherwise. `MAC` runs once over the items that are in the
pipeline at its start: each of them is finished after `MAC_CYCLE` rounds and leaves, and the
first waiting item takes its place at the end. The last item of a row writes a line of the
result. `completed` is history.
-/

namespace GcnSim

/-- `struct MAC2Data`. -/
structure Mac2Data where
  data : RowItem
  preCycle : Nat
  deriving DecidableEq, Repr

/-- What an accelerator is configured with. -/
structure AcceleratorConfig where
  limit : Nat
  /-- `AXW_START`. -/
  axwStart : Nat
  axwOffset : Nat
  /-- `CACHE_LINE_BYTE`. -/
  cacheLineByte : Nat
  limit_pos : 0 < limit

/-- `Accelerator` with `isA` set. `requests` are the write requests it made. -/
structure Accelerator where
  axwAddress : Nat
  aData : List RowItem
  m2Data : List Mac2Data
  requests : List Nat
  completed : List RowItem
  undefinedRead : Bool
  deriving DecidableEq, Repr

namespace Accelerator

variable (C : AcceleratorConfig)

/-- `MAC_CYCLE`. -/
def macCycle : Nat := 1

/-- The constructor. -/
def init : Accelerator where
  axwAddress := (C.axwStart + C.axwOffset) % u64Size
  aData := []
  m2Data := []
  requests := []
  completed := []
  undefinedRead := false

/-- `CanReceive`. -/
def canReceive (a : Accelerator) : Bool := a.m2Data.length < C.limit

/-- `ReceiveData(ERData)`. -/
def receiveData (d : RowItem) (a : Accelerator) : Accelerator :=
  if a.canReceive C then { a with m2Data := a.m2Data ++ [⟨d, 0⟩] }
  else { a with aData := a.aData ++ [d] }

/-- A line of the result is written, if the item is the last one of its row. -/
def writeEnd (d : RowItem) (a : Accelerator) : Accelerator :=
  if d.isEnd then { a with
    requests := a.requests ++ [a.axwAddress]
    axwAddress := (a.axwAddress + C.cacheLineByte) % u64Size }
  else a

/-- The first waiting item enters the pipeline. -/
def refill (a : Accelerator) : Accelerator :=
  match a.aData with
  | [] => a
  | d :: aData => { a with
      m2Data := a.m2Data ++ [⟨d, 0⟩]
      aData := aData }

/-- One round of the loop of `MAC`, with the place `offset` it is at. -/
def macRound (s : Accelerator × Nat) : Accelerator × Nat :=
  match s.1.m2Data[s.2]? with
  | none => ({ s.1 with undefinedRead := true }, s.2)
  | some x =>
    if x.preCycle + 1 = macCycle then
      let a := s.1.writeEnd C x.data
      (refill { a with
        m2Data := a.m2Data.eraseIdx s.2
        completed := a.completed ++ [x.data] }, s.2)
    else ({ s.1 with m2Data := s.1.m2Data.set s.2 ⟨x.data, x.preCycle + 1⟩ }, s.2 + 1)

/-- The first `n` rounds of the loop of `MAC`. -/
def macRounds (n : Nat) (s : Accelerator × Nat) : Accelerator × Nat := (macRound C)^[n] s

/-- `MAC`. -/
def mac (a : Accelerator) : Accelerator := (macRounds C a.m2Data.length (a, 0)).1

/-- The calls of an accelerator. -/
inductive Op where
  | receiveData (d : RowItem) | mac
  deriving DecidableEq, Repr

/-- One call. -/
def step (a : Accelerator) : Op → Accelerator
  | .receiveData d => a.receiveData C d
  | .mac => a.mac C

/-- The items that arrived. -/
def arrivals (ops : List Op) : List RowItem :=
  ops.filterMap fun | .receiveData d => some d | .mac => none

/-- The accelerator after a list of calls. -/
def run (ops : List Op) : Accelerator := Transition.run (step C) (init C) ops

/-- The address of result line `k`. -/
def lineAddress (k : Nat) : Nat :=
  (C.axwStart + C.axwOffset + k * C.cacheLineByte) % u64Size

/-- What an accelerator is to do: the items go through it in order, the pipeline is not
longer than `limit` and items wait only for a place in it, and the last item of a row has
written the next line of the result. -/
structure Inv (arrived : List RowItem) (a : Accelerator) : Prop where
  inOrder : a.completed ++ a.m2Data.map Mac2Data.data ++ a.aData = arrived
  fresh : ∀ x ∈ a.m2Data, x.preCycle = 0
  length_le : a.m2Data.length ≤ C.limit
  full : a.aData ≠ [] → a.m2Data.length = C.limit
  requests : a.requests = (List.range (a.completed.countP RowItem.isEnd)).map (lineAddress C)
  axwAddress : a.axwAddress = lineAddress C (a.completed.countP RowItem.isEnd)
  noUndefined : a.undefinedRead = false

variable {C}

theorem lineAddress_succ (k : Nat) :
    lineAddress C (k + 1) = (lineAddress C k + C.cacheLineByte) % u64Size := by
  rw [lineAddress, lineAddress, Nat.mod_add_mod, Nat.succ_mul, ← Nat.add_assoc]

/-- The requests of a completed item. -/
theorem writeEnd_spec {a : Accelerator} {n : Nat}
    (hreq : a.requests = (List.range n).map (lineAddress C)) (haddr : a.axwAddress = lineAddress C n)
    (d : RowItem) :
    (a.writeEnd C d).requests =
        (List.range (n + if d.isEnd then 1 else 0)).map (lineAddress C) ∧
      (a.writeEnd C d).axwAddress = lineAddress C (n + if d.isEnd then 1 else 0) := by
  rw [writeEnd]
  split
  · constructor
    · rw [hreq, haddr, List.range_succ, List.map_append, List.map_singleton]
    · rw [haddr, lineAddress_succ]
  · exact ⟨hreq, haddr⟩

theorem writeEnd_frame (d : RowItem) (a : Accelerator) :
    (a.writeEnd C d).m2Data = a.m2Data ∧ (a.writeEnd C d).aData = a.aData ∧
      (a.writeEnd C d).completed = a.completed ∧
      (a.writeEnd C d).undefinedRead = a.undefinedRead := by
  rw [writeEnd]
  split <;> exact ⟨rfl, rfl, rfl, rfl⟩

/-- The first waiting item goes to the end of the pipeline. -/
theorem refill_spec (a : Accelerator) :
    (refill a).m2Data = a.m2Data ++ (a.aData.take 1).map (⟨·, 0⟩) ∧
      (refill a).aData = a.aData.drop 1 ∧ (refill a).completed = a.completed ∧
      (refill a).requests = a.requests ∧ (refill a).axwAddress = a.axwAddress ∧
      (refill a).undefinedRead = a.undefinedRead := by
  rw [refill]
  split
  · rename_i h
    simp [h]
  · rename_i h
    simp [h]

/-- The state of `MAC` after `k` rounds: the first `k` items of the pipeline are completed,
and the first `k` waiting items are behind the others. -/
structure AfterRounds (a : Accelerator) (k : Nat) (s : Accelerator × Nat) : Prop where
  offset : s.2 = 0
  m2Data : s.1.m2Data = a.m2Data.drop k ++ (a.aData.take k).map (⟨·, 0⟩)
  aData : s.1.aData = a.aData.drop k
  completed : s.1.completed = a.completed ++ (a.m2Data.take k).map Mac2Data.data
  requests : s.1.requests =
    (List.range (s.1.completed.countP RowItem.isEnd)).map (lineAddress C)
  axwAddress : s.1.axwAddress = lineAddress C (s.1.completed.countP RowItem.isEnd)
  noUndefined : s.1.undefinedRead = false

/-- A round completes the item at the front, which is an item of the start of the call. -/
theorem AfterRounds.macRound {a : Accelerator} (hfresh : ∀ x ∈ a.m2Data, x.preCycle = 0) {k : Nat}
    (hk : k < a.m2Data.length) {s : Accelerator × Nat} (h : AfterRounds (C := C) a k s) :
    AfterRounds (C := C) a (k + 1) (macRound C s) := by
  have hdrop := List.drop_eq_getElem_cons hk
  have hm2 := h.m2Data
  rw [hdrop, List.cons_append] at hm2
  have hget : s.1.m2Data[s.2]? = some a.m2Data[k] := by
    rw [h.offset, hm2]
    rfl
  have hdone : a.m2Data[k].preCycle + 1 = macCycle := by
    rw [hfresh _ (List.getElem_mem hk)]
    rfl
  obtain ⟨hreq, haddr⟩ := writeEnd_spec h.requests h.axwAddress a.m2Data[k].data
  obtain ⟨hwm2, hwa, hwc, hwu⟩ := writeEnd_frame (C := C) a.m2Data[k].data s.1
  rw [Accelerator.macRound, hget]
  simp only [if_pos hdone]
  obtain ⟨hrm2, hra, hrc, hrr, hrx, hru⟩ := refill_spec
    { s.1.writeEnd C a.m2Data[k].data with
      m2Data := (s.1.writeEnd C a.m2Data[k].data).m2Data.eraseIdx s.2
      completed := (s.1.writeEnd C a.m2Data[k].data).completed ++ [a.m2Data[k].data] }
  constructor
  case offset => exact h.offset
  case m2Data =>
    rw [hrm2]
    change (s.1.writeEnd C a.m2Data[k].data).m2Data.eraseIdx s.2 ++
      List.map _ (List.take 1 (s.1.writeEnd C a.m2Data[k].data).aData) = _
    rw [hwm2, hwa, h.offset, hm2, h.aData, List.eraseIdx_cons_zero, List.append_assoc,
      ← List.map_append, ← List.take_add]
  case aData =>
    rw [hra]
    change (s.1.writeEnd C a.m2Data[k].data).aData.drop 1 = _
    rw [hwa, h.aData, List.drop_drop]
  case completed =>
    rw [hrc]
    change (s.1.writeEnd C a.m2Data[k].data).completed ++ _ = _
    rw [hwc, h.completed, List.take_succ_eq_append_getElem hk, List.map_append,
      List.map_singleton, List.append_assoc]
  case requests =>
    rw [hrr, hrc]
    change (s.1.writeEnd C a.m2Data[k].data).requests = _
    rw [hreq, hwc, List.countP_append, List.countP_singleton]
  case axwAddress =>
    rw [hrx, hrc]
    change (s.1.writeEnd C a.m2Data[k].data).axwAddress = _
    rw [haddr, hwc, List.countP_append, List.countP_singleton]
  case noUndefined =>
    rw [hru]
    exact hwu.trans h.noUndefined

/-- `MAC` completes the items that are in the pipeline when it is called, and fills as many
places with waiting items. -/
theorem mac_spec {arrived : List RowItem} {a : Accelerator} (h : Inv C arrived a) :
    AfterRounds (C := C) a a.m2Data.length (macRounds C a.m2Data.length (a, 0)) := by
  have hrounds : ∀ k ≤ a.m2Data.length, AfterRounds (C := C) a k (macRounds C k (a, 0)) := by
    intro k
    induction k with
    | zero =>
      intro _
      exact ⟨rfl, by simp [macRounds], by simp [macRounds], by simp [macRounds], h.requests,
        h.axwAddress, h.noUndefined⟩
    | succ k ih =>
      intro hk
      rw [macRounds, Function.iterate_succ_apply']
      exact (ih (by omega)).macRound h.fresh hk
  exact hrounds _ le_rfl

theorem Inv.init : Inv C [] (init C) where
  inOrder := rfl
  fresh _ hx := absurd hx List.not_mem_nil
  length_le := Nat.zero_le _
  full h := absurd rfl h
  requests := rfl
  axwAddress := by
    change (C.axwStart + C.axwOffset) % u64Size = lineAddress C 0
    rw [lineAddress, Nat.zero_mul, Nat.add_zero]
  noUndefined := rfl

/-- An item that finds a place in the pipeline overtakes none: items wait only if it is
full. -/
theorem Inv.receiveData {arrived : List RowItem} {a : Accelerator} (h : Inv C arrived a)
    (d : RowItem) : Inv C (arrived ++ [d]) (a.receiveData C d) := by
  have horder := h.inOrder
  have hle := h.length_le
  rw [Accelerator.receiveData, canReceive]
  split
  · rename_i hlt
    rw [decide_eq_true_eq] at hlt
    have hempty : a.aData = [] := by
      by_contra hne
      exact absurd (h.full hne) hlt.ne
    rw [hempty, List.append_nil] at horder
    constructor
    case inOrder =>
      change a.completed ++ (a.m2Data ++ [(⟨d, 0⟩ : Mac2Data)]).map Mac2Data.data ++ a.aData = _
      rw [hempty, List.append_nil, List.map_append, List.map_singleton, ← List.append_assoc, horder]
    case fresh =>
      intro x hx
      rcases List.mem_append.mp hx with hx | hx
      · exact h.fresh x hx
      · rw [List.mem_singleton.mp hx]
    case length_le =>
      change (a.m2Data ++ [_]).length ≤ _
      rw [List.length_append, List.length_singleton]
      omega
    case full => exact fun hne => absurd hempty hne
    case requests => exact h.requests
    case axwAddress => exact h.axwAddress
    case noUndefined => exact h.noUndefined
  · rename_i hge
    rw [decide_eq_true_eq] at hge
    constructor
    case inOrder =>
      change a.completed ++ a.m2Data.map Mac2Data.data ++ (a.aData ++ [d]) = _
      rw [← List.append_assoc, horder]
    case fresh => exact h.fresh
    case length_le => exact hle
    case full => exact fun _ => Nat.le_antisymm hle (Nat.le_of_not_lt hge)
    case requests => exact h.requests
    case axwAddress => exact h.axwAddress
    case noUndefined => exact h.noUndefined

theorem Inv.mac {arrived : List RowItem} {a : Accelerator} (h : Inv C arrived a) :
    Inv C arrived (a.mac C) := by
  have hspec := mac_spec h
  have hm2 : (a.mac C).m2Data = (a.aData.take a.m2Data.length).map (⟨·, 0⟩) := by
    rw [Accelerator.mac, hspec.m2Data, List.drop_length, List.nil_append]
  have hcompleted : (a.mac C).completed = a.completed ++ a.m2Data.map Mac2Data.data := by
    rw [Accelerator.mac, hspec.completed, List.take_length]
  have hwaiting : (a.mac C).aData = a.aData.drop a.m2Data.length := hspec.aData
  have hle := h.length_le
  constructor
  case inOrder =>
    rw [hcompleted, hm2, hwaiting, List.map_map]
    change _ ++ List.map id _ ++ _ = _
    rw [List.map_id, List.append_assoc, List.take_append_drop, h.inOrder]
  case fresh =>
    intro x hx
    rw [hm2] at hx
    obtain ⟨d, -, rfl⟩ := List.mem_map.mp hx
    rfl
  case length_le =>
    rw [hm2, List.length_map, List.length_take]
    omega
  case full =>
    intro hne
    rw [hwaiting, Ne, List.drop_eq_nil_iff, Nat.not_le] at hne
    rw [hm2, List.length_map, List.length_take, Nat.min_eq_left hne.le]
    apply h.full
    rintro hnil
    rw [hnil] at hne
    exact absurd hne (Nat.not_lt_zero _)
  case requests => exact hspec.requests
  case axwAddress => exact hspec.axwAddress
  case noUndefined => exact hspec.noUndefined

/-- Every run keeps the items in order. -/
theorem run_inv (ops : List Op) : Inv C (arrivals ops) (run C ops) := by
  induction ops using List.reverseRecOn with
  | nil => exact Inv.init
  | append_singleton ops op ih =>
    rw [run, Transition.run_concat, arrivals, List.filterMap_append]
    cases op with
    | receiveData d => exact ih.receiveData d
    | mac =>
      rw [List.filterMap_cons_none rfl, List.filterMap_nil, List.append_nil]
      exact ih.mac

/-- After any calls: what is completed, in the pipeline and waiting is what arrived, in
order; the pipeline holds at most `limit` items and items wait only if it is full; the
requests are one line for each completed end of a row, at consecutive addresses; and a call
of `MAC` completes the items that are in the pipeline, and no others. -/
theorem pipeline_in_order (C : AcceleratorConfig) (ops : List Op) :
    let a := run C ops
    a.completed ++ a.m2Data.map Mac2Data.data ++ a.aData = arrivals ops ∧
      a.m2Data.length ≤ C.limit ∧ (a.aData ≠ [] → a.m2Data.length = C.limit) ∧
      (a.mac C).completed = a.completed ++ a.m2Data.map Mac2Data.data ∧
      a.requests = (List.range (a.completed.countP RowItem.isEnd)).map (fun k =>
        (C.axwStart + C.axwOffset + k * C.cacheLineByte) % u64Size) ∧
      a.undefinedRead = false := by
  intro a
  have h : Inv C (arrivals ops) a := run_inv ops
  have hmac : (a.mac C).completed = a.completed ++ a.m2Data.map Mac2Data.data := by
    rw [Accelerator.mac, (mac_spec h).completed, List.take_length]
  exact ⟨h.inOrder, h.length_le, h.full, hmac, h.requests, h.noUndefined⟩

end Accelerator

end GcnSim
