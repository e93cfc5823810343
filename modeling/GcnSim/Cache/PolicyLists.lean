import GcnSim.Cache.PolicyOrder
import GcnSim.Lib.Run

/-!
# The lists of FIFO and LRU stay parallel until they are cleared

FIFO and LRU keep one logical list of pairs as two lists for each set, and every call has to
change both. `access` and `replace` do. `clear` makes the data lists anew and leaves the
weight-block lists as they are, so that the two lists of a set that was not empty are no
longer parallel. To say where an entry comes from, the lists are kept once more with a stamp
on every entry, the number of the call that inserted it.
-/

namespace GcnSim

/-- The policies that keep two lists for each set. -/
inductive ListAlgo where
  | fifo | lru
  deriving DecidableEq, Repr

/-- A call of one of the policies. -/
inductive ListCall (setN : Nat) where
  | access (setIdx : Fin setN) (data weightBlkIdx : Int)
  | replace (setIdx : Fin setN)
  | clear
  deriving DecidableEq, Repr

/-- The loop of `clear` makes a new data list for a set. -/
def PolicyList.clearData (l : PolicyList) : PolicyList := { l with data := [] }

/-- `FIFO::clear`: `fifoWeightBlkIdx` is not touched. -/
def Fifo.clear {setN : Nat} (lists : Fin setN → PolicyList) : Fin setN → PolicyList :=
  fun setIdx => (lists setIdx).clearData

/-- `LRU::clear`: `lruWeightBlkIdx` is not touched. -/
def Lru.clear {setN : Nat} (lists : Fin setN → PolicyList) : Fin setN → PolicyList :=
  fun setIdx => (lists setIdx).clearData

namespace ListAlgo

variable {setN : Nat}

def access : ListAlgo → Int → Int → PolicyList → PolicyList
  | .fifo => Fifo.access
  | .lru => Lru.access

def replace : ListAlgo → Int × Int → PolicyList → (Int × Int) × PolicyList
  | .fifo => Fifo.replace
  | .lru => Lru.replace

def clear : ListAlgo → (Fin setN → PolicyList) → Fin setN → PolicyList
  | .fifo => Fifo.clear
  | .lru => Lru.clear

/-- The lists after a call. What an empty vector reads as does not matter for them. -/
def call (algo : ListAlgo) (lists : Fin setN → PolicyList) : ListCall setN → Fin setN → PolicyList
  | .access setIdx data weightBlkIdx =>
    Function.update lists setIdx (algo.access data weightBlkIdx (lists setIdx))
  | .replace setIdx => Function.update lists setIdx (algo.replace (0, 0) (lists setIdx)).2
  | .clear => algo.clear lists

/-- `FIFO::FIFO` and `LRU::LRU`: two empty lists for each set. -/
def init : Fin setN → PolicyList := fun _ => ⟨[], []⟩

/-- The lists after the constructor and some calls. -/
def calls (algo : ListAlgo) (cs : List (ListCall setN)) : Fin setN → PolicyList :=
  Transition.run algo.call init cs

end ListAlgo

/-- An entry of a list. -/
structure Entry where
  value : Int
  /-- The number of the call that inserted it. -/
  call : Nat
  deriving DecidableEq, Repr

/-- The two lists of a set with stamps. -/
structure StampedList where
  data : List Entry
  weightBlkIdx : List Entry
  deriving DecidableEq, Repr

namespace StampedList

/-- The lists as the code has them. -/
def forget (l : StampedList) : PolicyList :=
  ⟨l.data.map Entry.value, l.weightBlkIdx.map Entry.value⟩

/-- Position `k` of the two lists is from the same call. -/
def Parallel (l : StampedList) : Prop := l.data.map Entry.call = l.weightBlkIdx.map Entry.call

theorem Parallel.forget {l : StampedList} (h : l.Parallel) : l.forget.Parallel := by
  have hlength := congrArg List.length h
  rw [List.length_map, List.length_map] at hlength
  rw [PolicyList.Parallel, StampedList.forget, List.length_map, List.length_map, hlength]

end StampedList

namespace Fifo

/-- `FIFO::access` as call number `n`. -/
def stampedAccess (n : Nat) (data weightBlkIdx : Int) (l : StampedList) : StampedList :=
  ⟨l.data ++ [⟨data, n⟩], l.weightBlkIdx ++ [⟨weightBlkIdx, n⟩]⟩

/-- `FIFO::replace`. -/
def stampedReplace (l : StampedList) : StampedList := ⟨l.data.tail, l.weightBlkIdx.tail⟩

end Fifo

namespace Lru

/-- `LRU::access` as call number `n`. -/
def stampedAccess (n : Nat) (data weightBlkIdx : Int) (l : StampedList) : StampedList :=
  let mask := kept data weightBlkIdx l.forget.data l.forget.weightBlkIdx
  ⟨⟨data, n⟩ :: Masks.pick mask l.data, ⟨weightBlkIdx, n⟩ :: Masks.pick mask l.weightBlkIdx⟩

/-- `LRU::replace`. -/
def stampedReplace (l : StampedList) : StampedList :=
  ⟨l.data.dropLast, l.weightBlkIdx.dropLast⟩

end Lru

namespace ListAlgo

variable {setN : Nat}

def stampedAccess : ListAlgo → Nat → Int → Int → StampedList → StampedList
  | .fifo => Fifo.stampedAccess
  | .lru => Lru.stampedAccess

def stampedReplace : ListAlgo → StampedList → StampedList
  | .fifo => Fifo.stampedReplace
  | .lru => Lru.stampedReplace

theorem forget_stampedAccess (algo : ListAlgo) (n : Nat) (data weightBlkIdx : Int)
    (l : StampedList) : (algo.stampedAccess n data weightBlkIdx l).forget =
      algo.access data weightBlkIdx l.forget := by
  cases algo with
  | fifo => simp [stampedAccess, access, Fifo.stampedAccess, Fifo.access, StampedList.forget]
  | lru =>
    simp only [stampedAccess, access, Lru.stampedAccess, Lru.access, StampedList.forget,
      Lru.scan_eq_pick, Masks.pick_map, List.map_cons]

theorem forget_stampedReplace (algo : ListAlgo) (junk : Int × Int) (l : StampedList) :
    (algo.stampedReplace l).forget = (algo.replace junk l.forget).2 := by
  cases algo with
  | fifo => simp [stampedReplace, replace, Fifo.stampedReplace, Fifo.replace, StampedList.forget]
  | lru =>
    simp [stampedReplace, replace, Lru.stampedReplace, Lru.replace, StampedList.forget,
      List.map_dropLast]

theorem stampedAccess_parallel (algo : ListAlgo) (n : Nat) (data weightBlkIdx : Int)
    {l : StampedList} (h : l.Parallel) : (algo.stampedAccess n data weightBlkIdx l).Parallel := by
  rw [StampedList.Parallel] at h
  cases algo with
  | fifo => simp [stampedAccess, Fifo.stampedAccess, StampedList.Parallel, h]
  | lru =>
    simp only [stampedAccess, Lru.stampedAccess, StampedList.Parallel, List.map_cons,
      ← Masks.pick_map, h]

theorem stampedReplace_parallel (algo : ListAlgo) {l : StampedList} (h : l.Parallel) :
    (algo.stampedReplace l).Parallel := by
  rw [StampedList.Parallel] at h
  cases algo with
  | fifo => simp only [stampedReplace, Fifo.stampedReplace, StampedList.Parallel, List.map_tail, h]
  | lru =>
    simp only [stampedReplace, Lru.stampedReplace, StampedList.Parallel, List.map_dropLast, h]

/-- What is in the lists after `access` was there before or is inserted by it. -/
theorem mem_stampedAccess {algo : ListAlgo} {n : Nat} {data weightBlkIdx : Int} {l : StampedList} :
    (∀ e ∈ (algo.stampedAccess n data weightBlkIdx l).data, e ∈ l.data ∨ e = ⟨data, n⟩) ∧
      ∀ e ∈ (algo.stampedAccess n data weightBlkIdx l).weightBlkIdx,
        e ∈ l.weightBlkIdx ∨ e = ⟨weightBlkIdx, n⟩ := by
  cases algo with
  | fifo => simp [stampedAccess, Fifo.stampedAccess]
  | lru =>
    refine ⟨fun e he => ?_, fun e he => ?_⟩
    · obtain heq | hmem := List.mem_cons.mp he
      · exact Or.inr heq
      · exact Or.inl ((Masks.pick_sublist _ _).subset hmem)
    · obtain heq | hmem := List.mem_cons.mp he
      · exact Or.inr heq
      · exact Or.inl ((Masks.pick_sublist _ _).subset hmem)

theorem mem_stampedReplace {algo : ListAlgo} {l : StampedList} :
    (∀ e ∈ (algo.stampedReplace l).data, e ∈ l.data) ∧
      ∀ e ∈ (algo.stampedReplace l).weightBlkIdx, e ∈ l.weightBlkIdx := by
  cases algo with
  | fifo =>
    exact ⟨fun _ he => (List.tail_sublist _).subset he, fun _ he => (List.tail_sublist _).subset he⟩
  | lru =>
    exact ⟨fun _ he => (List.dropLast_sublist _).subset he,
      fun _ he => (List.dropLast_sublist _).subset he⟩

/-- What `replace` returns is an entry of either list, from the same call. -/
theorem exists_replaced (algo : ListAlgo) (junk : Int × Int) {l : StampedList} (h : l.Parallel)
    (hne : l.data ≠ []) : ∃ e ∈ l.data, ∃ e' ∈ l.weightBlkIdx, e.call = e'.call ∧
      (algo.replace junk l.forget).1 = (e.value, e'.value) := by
  obtain ⟨data, weightBlkIdx⟩ := l
  cases algo with
  | fifo =>
    cases data with
    | nil => exact absurd rfl hne
    | cons e data =>
      cases weightBlkIdx with
      | nil => cases h
      | cons e' weightBlkIdx =>
        exact ⟨e, List.mem_cons_self, e', List.mem_cons_self, (List.cons.inj h).1, rfl⟩
  | lru =>
    obtain rfl | ⟨xs, e, rfl⟩ := List.eq_nil_or_concat data
    · exact absurd rfl hne
    · obtain rfl | ⟨ys, e', rfl⟩ := List.eq_nil_or_concat weightBlkIdx
      · simp [StampedList.Parallel] at h
      · simp only [StampedList.Parallel, List.concat_eq_append, List.map_append, List.map_cons,
          List.map_nil] at h
        refine ⟨e, by simp, e', by simp, ?_, ?_⟩
        · exact (List.append_singleton_inj.mp h).2
        · simp [replace, Lru.replace, StampedList.forget]

end ListAlgo

/-- The lists of all sets with stamps, and the calls so far. -/
structure StampedLists (setN : Nat) where
  lists : Fin setN → StampedList
  history : List (ListCall setN)

namespace StampedLists

variable {setN : Nat}

/-- The lists as the code has them. -/
def forget (s : StampedLists setN) : Fin setN → PolicyList := fun setIdx => (s.lists setIdx).forget

/-- The stamps are those of the calls that inserted the values. -/
structure Genuine (s : StampedLists setN) : Prop where
  data : ∀ setIdx, ∀ e ∈ (s.lists setIdx).data,
    ∃ weightBlkIdx, s.history[e.call]? = some (.access setIdx e.value weightBlkIdx)
  weightBlkIdx : ∀ setIdx, ∀ e ∈ (s.lists setIdx).weightBlkIdx,
    ∃ data, s.history[e.call]? = some (.access setIdx data e.value)

end StampedLists

namespace ListAlgo

variable {setN : Nat}

/-- The lists with stamps after a call. -/
def stampedCall (algo : ListAlgo) (s : StampedLists setN) (c : ListCall setN) :
    StampedLists setN where
  lists := match c with
    | .access setIdx data weightBlkIdx => Function.update s.lists setIdx
        (algo.stampedAccess s.history.length data weightBlkIdx (s.lists setIdx))
    | .replace setIdx => Function.update s.lists setIdx (algo.stampedReplace (s.lists setIdx))
    | .clear => fun setIdx => { s.lists setIdx with data := [] }
  history := s.history ++ [c]

theorem stampedCall_history (algo : ListAlgo) (s : StampedLists setN) (c : ListCall setN) :
    (algo.stampedCall s c).history = s.history ++ [c] := rfl

/-- The lists with stamps after the constructor and some calls. -/
def stampedCalls (algo : ListAlgo) (cs : List (ListCall setN)) : StampedLists setN :=
  Transition.run algo.stampedCall ⟨fun _ => ⟨[], []⟩, []⟩ cs

theorem forget_stampedCall (algo : ListAlgo) (s : StampedLists setN) (c : ListCall setN) :
    (algo.stampedCall s c).forget = algo.call s.forget c := by
  funext i
  cases c with
  | access setIdx data weightBlkIdx =>
    by_cases hi : i = setIdx
    · subst hi
      simp only [StampedLists.forget, stampedCall, call, Function.update_self]
      exact forget_stampedAccess ..
    · simp [StampedLists.forget, stampedCall, call, Function.update_of_ne hi]
  | replace setIdx =>
    by_cases hi : i = setIdx
    · subst hi
      simp only [StampedLists.forget, stampedCall, call, Function.update_self]
      exact forget_stampedReplace ..
    · simp [StampedLists.forget, stampedCall, call, Function.update_of_ne hi]
  | clear => cases algo <;> rfl

/-- Without its stamps the stamped run is the run of the code. -/
theorem forget_stampedCalls (algo : ListAlgo) (cs : List (ListCall setN)) :
    (algo.stampedCalls cs).forget = algo.calls cs :=
  (List.foldl_hom StampedLists.forget fun s c => (forget_stampedCall algo s c).symm).symm

theorem stampedCalls_concat (algo : ListAlgo) (cs : List (ListCall setN)) (c : ListCall setN) :
    algo.stampedCalls (cs ++ [c]) = algo.stampedCall (algo.stampedCalls cs) c :=
  Transition.run_concat ..

theorem history_stampedCalls (algo : ListAlgo) (cs : List (ListCall setN)) :
    (algo.stampedCalls cs).history = cs := by
  induction cs using List.reverseRecOn with
  | nil => rfl
  | append_singleton cs c ih => rw [stampedCalls_concat, stampedCall_history, ih]

/-- What a call does to the lists of a set. -/
theorem stampedCall_cases (algo : ListAlgo) (s : StampedLists setN) (c : ListCall setN)
    (i : Fin setN) :
    (algo.stampedCall s c).lists i = s.lists i ∨
    (∃ data weightBlkIdx, c = .access i data weightBlkIdx ∧ (algo.stampedCall s c).lists i =
      algo.stampedAccess s.history.length data weightBlkIdx (s.lists i)) ∨
    (c = .replace i ∧ (algo.stampedCall s c).lists i = algo.stampedReplace (s.lists i)) ∨
    (c = .clear ∧ (algo.stampedCall s c).lists i = { s.lists i with data := [] }) := by
  cases c with
  | access setIdx data weightBlkIdx =>
    by_cases hi : i = setIdx
    · subst hi
      exact Or.inr (Or.inl ⟨data, weightBlkIdx, rfl, Function.update_self ..⟩)
    · exact Or.inl (Function.update_of_ne hi ..)
  | replace setIdx =>
    by_cases hi : i = setIdx
    · subst hi
      exact Or.inr (Or.inr (Or.inl ⟨rfl, Function.update_self ..⟩))
    · exact Or.inl (Function.update_of_ne hi ..)
  | clear => exact Or.inr (Or.inr (Or.inr ⟨rfl, rfl⟩))

/-- What is in the lists after a call was there before or is inserted by it. -/
theorem mem_stampedCall {algo : ListAlgo} {s : StampedLists setN} {c : ListCall setN}
    {i : Fin setN} :
    (∀ e ∈ ((algo.stampedCall s c).lists i).data, e ∈ (s.lists i).data ∨
      ∃ data weightBlkIdx, c = .access i data weightBlkIdx ∧ e = ⟨data, s.history.length⟩) ∧
    ∀ e ∈ ((algo.stampedCall s c).lists i).weightBlkIdx, e ∈ (s.lists i).weightBlkIdx ∨
      ∃ data weightBlkIdx, c = .access i data weightBlkIdx ∧
        e = ⟨weightBlkIdx, s.history.length⟩ := by
  obtain heq | ⟨data, weightBlkIdx, rfl, heq⟩ | ⟨rfl, heq⟩ | ⟨rfl, heq⟩ :=
    stampedCall_cases algo s c i
  · rw [heq]
    exact ⟨fun e he => Or.inl he, fun e he => Or.inl he⟩
  · rw [heq]
    refine ⟨fun e he => ?_, fun e he => ?_⟩
    · exact (mem_stampedAccess.1 e he).imp_right fun hnew => ⟨data, weightBlkIdx, rfl, hnew⟩
    · exact (mem_stampedAccess.2 e he).imp_right fun hnew => ⟨data, weightBlkIdx, rfl, hnew⟩
  · rw [heq]
    exact ⟨fun e he => Or.inl (mem_stampedReplace.1 e he),
      fun e he => Or.inl (mem_stampedReplace.2 e he)⟩
  · rw [heq]
    exact ⟨fun e he => absurd he List.not_mem_nil, fun e he => Or.inl he⟩

theorem stampedCall_genuine (algo : ListAlgo) {s : StampedLists setN} (h : s.Genuine)
    (c : ListCall setN) : (algo.stampedCall s c).Genuine := by
  have hold : ∀ {n : Nat} {c' : ListCall setN}, s.history[n]? = some c' →
      (s.history ++ [c])[n]? = some c' := fun hn =>
    (List.getElem?_append_left (List.getElem?_eq_some_iff.mp hn).1).trans hn
  have hnew : (s.history ++ [c])[s.history.length]? = some c := List.getElem?_concat_length
  constructor
  case data =>
    intro i e he
    rw [stampedCall_history]
    obtain hmem | ⟨data, weightBlkIdx, rfl, rfl⟩ := mem_stampedCall.1 e he
    · obtain ⟨weightBlkIdx, hcall⟩ := h.data i e hmem
      exact ⟨weightBlkIdx, hold hcall⟩
    · exact ⟨weightBlkIdx, hnew⟩
  case weightBlkIdx =>
    intro i e he
    rw [stampedCall_history]
    obtain hmem | ⟨data, weightBlkIdx, rfl, rfl⟩ := mem_stampedCall.2 e he
    · obtain ⟨data, hcall⟩ := h.weightBlkIdx i e hmem
      exact ⟨data, hold hcall⟩
    · exact ⟨data, hnew⟩

theorem stampedCalls_genuine (algo : ListAlgo) (cs : List (ListCall setN)) :
    (algo.stampedCalls cs).Genuine :=
  Transition.run_invariant (I := StampedLists.Genuine)
    (fun _ c h => stampedCall_genuine algo h c)
    ⟨fun _ _ he => absurd he List.not_mem_nil, fun _ _ he => absurd he List.not_mem_nil⟩ cs

/-- `replace` is called for a set that is not empty. -/
def Replaceable (lists : Fin setN → PolicyList) : ListCall setN → Prop
  | .replace setIdx => (lists setIdx).data ≠ []
  | .access .. | .clear => True

/-- `clear` is called when all sets are empty. -/
def ClearsEmpty (lists : Fin setN → PolicyList) : ListCall setN → Prop
  | .clear => ∀ setIdx, (lists setIdx).data = []
  | .access .. | .replace _ => True

instance (lists : Fin setN → PolicyList) (c : ListCall setN) : Decidable (Replaceable lists c) :=
  match c with
  | .replace setIdx => inferInstanceAs (Decidable ((lists setIdx).data ≠ []))
  | .access .. | .clear => isTrue trivial

instance (lists : Fin setN → PolicyList) (c : ListCall setN) : Decidable (ClearsEmpty lists c) :=
  match c with
  | .clear => inferInstanceAs (Decidable (∀ setIdx, (lists setIdx).data = []))
  | .access .. | .replace _ => isTrue trivial

/-- What it means that the lists stay parallel in a run. -/
structure StaysParallel (algo : ListAlgo) (cs : List (ListCall setN)) : Prop where
  length_eq : ∀ k setIdx, (algo.calls (cs.take k) setIdx).Parallel
  /-- Position `j` of the two lists is from the same call. -/
  sameCall : ∀ (k : Nat) (setIdx : Fin setN) (j : Nat),
    ((algo.stampedCalls (cs.take k)).lists setIdx).data[j]?.map Entry.call =
      ((algo.stampedCalls (cs.take k)).lists setIdx).weightBlkIdx[j]?.map Entry.call
  /-- The pair that `replace` returns was inserted by a call. -/
  replace_inserted : ∀ k setIdx junk, cs[k]? = some (.replace setIdx) →
    ∃ n < k, ∃ data weightBlkIdx, cs[n]? = some (.access setIdx data weightBlkIdx) ∧
      (algo.replace junk (algo.calls (cs.take k) setIdx)).1 = (data, weightBlkIdx)
  clear_empty : ∀ k, cs[k]? = some .clear →
    ∀ setIdx, algo.calls (cs.take (k + 1)) setIdx = ⟨[], []⟩

/-- A call keeps the lists parallel, `clear` if the sets are empty. -/
theorem stampedCall_parallel (algo : ListAlgo) {s : StampedLists setN} {c : ListCall setN}
    (hclear : ClearsEmpty s.forget c) (h : ∀ i, (s.lists i).Parallel) (i : Fin setN) :
    ((algo.stampedCall s c).lists i).Parallel := by
  obtain heq | ⟨data, weightBlkIdx, rfl, heq⟩ | ⟨rfl, heq⟩ | ⟨rfl, heq⟩ :=
    stampedCall_cases algo s c i
  · rw [heq]
    exact h i
  · rw [heq]
    exact stampedAccess_parallel algo _ data weightBlkIdx (h i)
  · rw [heq]
    exact stampedReplace_parallel algo (h i)
  · have hdata : (s.lists i).data = [] := List.map_eq_nil_iff.mp (hclear i)
    have hpar := h i
    rw [StampedList.Parallel, hdata] at hpar
    rw [heq]
    exact hpar

/-- If all sets are empty whenever `clear` is called, the lists are parallel all the time. -/
theorem stampedCalls_parallel (algo : ListAlgo) {cs : List (ListCall setN)}
    (hclear : Transition.Guarded algo.call ClearsEmpty init cs) (k : Nat)
    (i : Fin setN) : ((algo.stampedCalls (cs.take k)).lists i).Parallel := by
  have hguard : Transition.Guarded algo.stampedCall (fun s c => ClearsEmpty s.forget c)
      ⟨fun _ => ⟨[], []⟩, []⟩ cs :=
    (Transition.guarded_hom (forget_stampedCall algo)).mpr hclear
  exact Transition.always_of_guarded (I := fun s => ∀ i, (s.lists i).Parallel)
    (fun _ _ hc h => stampedCall_parallel algo hc h) (fun _ => rfl) hguard k i

theorem calls_parallel (algo : ListAlgo) {cs : List (ListCall setN)}
    (hclear : Transition.Guarded algo.call ClearsEmpty init cs) (k : Nat) (i : Fin setN) :
    (algo.calls (cs.take k) i).Parallel := by
  rw [← forget_stampedCalls]
  exact (stampedCalls_parallel algo hclear k i).forget

theorem calls_take_succ (algo : ListAlgo) {cs : List (ListCall setN)} {k : Nat}
    {c : ListCall setN} (hc : cs[k]? = some c) :
    algo.calls (cs.take (k + 1)) = algo.call (algo.calls (cs.take k)) c := by
  rw [List.take_add_one, hc]
  exact Transition.run_concat ..

theorem clear_apply (algo : ListAlgo) (lists : Fin setN → PolicyList) (i : Fin setN) :
    algo.call lists .clear i = (lists i).clearData := by
  cases algo <;> rfl

/-- The pair that `replace` returns was inserted by a call, if the lists are parallel. -/
theorem exists_inserted (algo : ListAlgo) (junk : Int × Int) {cs : List (ListCall setN)}
    {i : Fin setN} (hpar : ((algo.stampedCalls cs).lists i).Parallel)
    (hne : (algo.calls cs i).data ≠ []) :
    ∃ (n : Nat) (data weightBlkIdx : Int), cs[n]? = some (.access i data weightBlkIdx) ∧
      (algo.replace junk (algo.calls cs i)).1 = (data, weightBlkIdx) := by
  rw [← forget_stampedCalls] at hne ⊢
  have hdata : ((algo.stampedCalls cs).lists i).data ≠ [] := fun h =>
    hne (List.map_eq_nil_iff.mpr h)
  obtain ⟨e, he, e', he', hcall, hreplace⟩ := exists_replaced algo junk hpar hdata
  obtain ⟨weightBlkIdx, hinsert⟩ := (stampedCalls_genuine algo cs).data i e he
  obtain ⟨data, hinsert'⟩ := (stampedCalls_genuine algo cs).weightBlkIdx i e' he'
  rw [history_stampedCalls] at hinsert hinsert'
  rw [← hcall, hinsert, Option.some.injEq, ListCall.access.injEq] at hinsert'
  exact ⟨e.call, e.value, weightBlkIdx, hinsert, hinsert'.2.2 ▸ hreplace⟩

/-- If the lists of a set are empty after `clear`, they were before. -/
theorem StaysParallel.data_eq_nil {algo : ListAlgo} {cs : List (ListCall setN)}
    (h : algo.StaysParallel cs) {k : Nat} (hc : cs[k]? = some .clear) (i : Fin setN) :
    (algo.calls (cs.take k) i).data = [] := by
  have hempty := h.clear_empty k hc i
  rw [calls_take_succ algo hc, clear_apply, PolicyList.clearData] at hempty
  have hweight : (algo.calls (cs.take k) i).weightBlkIdx = [] :=
    congrArg PolicyList.weightBlkIdx hempty
  have hlength := h.length_eq k i
  rw [PolicyList.Parallel, hweight] at hlength
  exact List.length_eq_zero_iff.mp hlength

/-- The lists of FIFO and of LRU stay parallel in a run exactly if all sets are empty whenever
`clear` is called. -/
theorem staysParallel_iff (algo : ListAlgo) (cs : List (ListCall setN))
    (hreplace : Transition.Guarded algo.call Replaceable init cs) :
    algo.StaysParallel cs ↔ Transition.Guarded algo.call ClearsEmpty init cs := by
  constructor
  · intro h
    rw [Transition.guarded_iff_getElem?]
    intro k c hc
    cases c with
    | access setIdx data weightBlkIdx => trivial
    | replace setIdx => trivial
    | clear => exact h.data_eq_nil hc
  · intro hclear
    have hpar := stampedCalls_parallel algo hclear
    constructor
    case length_eq => exact calls_parallel algo hclear
    case sameCall =>
      intro k i j
      rw [← List.getElem?_map, ← List.getElem?_map, hpar k i]
    case replace_inserted =>
      intro k i junk hc
      have hne := Transition.guarded_iff_getElem?.mp hreplace k _ hc
      obtain ⟨n, data, weightBlkIdx, hn, heq⟩ := exists_inserted algo junk (hpar k i) hne
      obtain ⟨hlt, -⟩ := List.getElem?_eq_some_iff.mp hn
      rw [List.length_take] at hlt
      refine ⟨n, by omega, data, weightBlkIdx, ?_, heq⟩
      rwa [List.getElem?_take_of_lt (by omega)] at hn
    case clear_empty =>
      intro k hc i
      have hdata : (algo.calls (cs.take k) i).data = [] :=
        Transition.guarded_iff_getElem?.mp hclear k _ hc i
      have hlength := calls_parallel algo hclear k i
      rw [PolicyList.Parallel, hdata] at hlength
      rw [calls_take_succ algo hc, clear_apply, PolicyList.clearData,
        List.length_eq_zero_iff.mp hlength.symm]

/-- Set 0 is emptied before `clear`. -/
def emptiedBeforeClear : List (ListCall 2) :=
  [.access 0 5 0, .access 0 6 1, .replace 0, .replace 0, .clear, .access 1 7 2, .replace 1]

theorem staysParallel_emptiedBeforeClear :
    fifo.StaysParallel emptiedBeforeClear ∧ lru.StaysParallel emptiedBeforeClear :=
  ⟨(staysParallel_iff .fifo emptiedBeforeClear (by decide)).mpr (by decide),
    (staysParallel_iff .lru emptiedBeforeClear (by decide)).mpr (by decide)⟩

/-- A line is in the set when `clear` is called. -/
def clearedWithLine : List (ListCall 1) :=
  [.access 0 5 0, .clear, .access 0 7 1, .replace 0]

/-- After `clear` the weight-block list still has the entry of column `5`, and `replace` returns
column `7` with the block of column `5`. -/
theorem clearedWithLine_not_parallel :
    (¬ fifo.StaysParallel clearedWithLine ∧ ¬ lru.StaysParallel clearedWithLine) ∧
      (fifo.replace (0, 0) (fifo.calls (clearedWithLine.take 3) 0)).1 = (7, 0) ∧
      (lru.replace (0, 0) (lru.calls (clearedWithLine.take 3) 0)).1 = (7, 0) := by
  refine ⟨⟨fun h => ?_, fun h => ?_⟩, by decide, by decide⟩
  · exact absurd (h.clear_empty 1 rfl 0) (by decide)
  · exact absurd (h.clear_empty 1 rfl 0) (by decide)

end ListAlgo

end GcnSim
