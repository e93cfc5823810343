import GcnSim.Core.DramInterface
import GcnSim.Lib.While
import GcnSim.Lib.Run

/-!
# The loop of `AddTransaction`

`AddTransaction` offers the head of `t_queue` to the memories in turn. The index moves
on after an acceptance and after a rejection; only a rejection that brings it back to
where the call started ends the loop before the queue is empty. Here the memories are
an oracle that may answer differently after every accepted transaction.
-/

namespace GcnSim

namespace DramInterface

/-- `dram_idx++`, back to `0` at `MAX_DRAM`. -/
def wrapIdx (maxDram i : Nat) : Nat := if i + 1 = maxDram then 0 else i + 1

theorem wrapIdx_lt {maxDram i : Nat} (hi : i < maxDram) : wrapIdx maxDram i < maxDram := by
  rw [wrapIdx]
  split <;> omega

/-- What `AddTransaction` changes. `forwarded` is history: the transactions given to the
memories in this call, with the memory that took each. -/
structure AddState where
  dramIdx : Nat
  tQueue : List Transaction
  forwarded : List (Nat × Transaction)
  deriving DecidableEq, Repr

/-- `WillAcceptTransaction` of memory `i` after the transactions already forwarded. -/
abbrev Oracle := List (Nat × Transaction) → Nat → Transaction → Bool

/-- One round of the loop of `AddTransaction`; `check` is the index the call started at. -/
def addRound (maxDram : Nat) (accepts : Oracle) (check : Nat) (s : AddState) :
    AddState ⊕ AddState :=
  match s.tQueue with
  | [] => .inr s
  | t :: ts =>
    if accepts s.forwarded s.dramIdx t then
      .inl ⟨wrapIdx maxDram s.dramIdx, ts, s.forwarded ++ [(s.dramIdx, t)]⟩
    else if wrapIdx maxDram s.dramIdx = check then
      .inr { s with dramIdx := wrapIdx maxDram s.dramIdx }
    else .inl { s with dramIdx := wrapIdx maxDram s.dramIdx }

theorem addRound_cons (maxDram : Nat) (accepts : Oracle) (check i : Nat) (t : Transaction)
    (ts : List Transaction) (fwd : List (Nat × Transaction)) :
    addRound maxDram accepts check ⟨i, t :: ts, fwd⟩ =
      if accepts fwd i t then .inl ⟨wrapIdx maxDram i, ts, fwd ++ [(i, t)]⟩
      else if wrapIdx maxDram i = check then .inr ⟨wrapIdx maxDram i, t :: ts, fwd⟩
      else .inl ⟨wrapIdx maxDram i, t :: ts, fwd⟩ := rfl

/-- The rounds until a rejection at every index brings the index back to `check`. -/
def roundsToCheck (maxDram check i : Nat) : Nat :=
  if i < check then check - i else maxDram + check - i

/-- A transaction costs at most one round at each memory. -/
def addMeasure (maxDram check : Nat) (s : AddState) : Nat :=
  s.tQueue.length * maxDram + roundsToCheck maxDram check s.dramIdx

section Rounds

variable {maxDram check : Nat} {accepts : Oracle} {s s' : AddState}

/-- What a round that goes on does. -/
theorem addRound_inl (h : addRound maxDram accepts check s = .inl s') :
    (∃ t ts, s.tQueue = t :: ts ∧ accepts s.forwarded s.dramIdx t = true ∧
      s' = ⟨wrapIdx maxDram s.dramIdx, ts, s.forwarded ++ [(s.dramIdx, t)]⟩) ∨
    (∃ t ts, s.tQueue = t :: ts ∧ accepts s.forwarded s.dramIdx t = false ∧
      wrapIdx maxDram s.dramIdx ≠ check ∧
      s' = { s with dramIdx := wrapIdx maxDram s.dramIdx }) := by
  rw [addRound] at h
  split at h
  · cases h
  · rename_i t ts hq
    split at h
    · rename_i hacc
      cases h
      exact Or.inl ⟨t, ts, hq, hacc, rfl⟩
    · rename_i hacc
      split at h
      · cases h
      · rename_i hcheck
        cases h
        exact Or.inr ⟨t, ts, hq, Bool.eq_false_iff.mpr hacc, hcheck, rfl⟩

/-- How a round leaves the loop. -/
theorem addRound_inr (h : addRound maxDram accepts check s = .inr s') :
    (s.tQueue = [] ∧ s' = s) ∨
    (∃ t ts, s.tQueue = t :: ts ∧ accepts s.forwarded s.dramIdx t = false ∧
      wrapIdx maxDram s.dramIdx = check ∧
      s' = { s with dramIdx := wrapIdx maxDram s.dramIdx }) := by
  rw [addRound] at h
  split at h
  · rename_i hq
    cases h
    exact Or.inl ⟨hq, rfl⟩
  · rename_i t ts hq
    split at h
    · cases h
    · rename_i hacc
      split at h
      · rename_i hcheck
        cases h
        exact Or.inr ⟨t, ts, hq, Bool.eq_false_iff.mpr hacc, hcheck, rfl⟩
      · cases h

theorem roundsToCheck_wrapIdx_le (hcheck : check < maxDram) {i : Nat} (hi : i < maxDram) :
    roundsToCheck maxDram check (wrapIdx maxDram i) ≤ maxDram := by
  simp only [roundsToCheck, wrapIdx]
  split <;> split <;> omega

theorem roundsToCheck_wrapIdx_lt (hcheck : check < maxDram) {i : Nat} (hi : i < maxDram)
    (hne : wrapIdx maxDram i ≠ check) :
    roundsToCheck maxDram check (wrapIdx maxDram i) < roundsToCheck maxDram check i := by
  simp only [roundsToCheck, wrapIdx] at hne ⊢
  split_ifs at hne ⊢ <;> omega

theorem roundsToCheck_pos (check : Nat) {i : Nat} (hi : i < maxDram) :
    0 < roundsToCheck maxDram check i := by
  rw [roundsToCheck]
  split <;> omega

/-- Every round that goes on lowers the measure: an acceptance shortens the queue, and a
rejection brings the index closer to `check`. -/
theorem addMeasure_lt (hcheck : check < maxDram) (hidx : s.dramIdx < maxDram)
    (h : addRound maxDram accepts check s = .inl s') :
    addMeasure maxDram check s' < addMeasure maxDram check s := by
  obtain ⟨t, ts, hq, -, rfl⟩ | ⟨t, ts, hq, -, hne, rfl⟩ := addRound_inl h
  · have hle := roundsToCheck_wrapIdx_le hcheck hidx
    have hpos := roundsToCheck_pos check hidx
    simp only [addMeasure, hq, List.length_cons, Nat.succ_mul]
    omega
  · have hlt := roundsToCheck_wrapIdx_lt hcheck hidx hne
    simp only [addMeasure]
    omega

end Rounds

/-- `AddTransaction` on the index and the queue; `none` stands for a loop that goes on. -/
def forward (maxDram : Nat) (accepts : Oracle) (dramIdx : Nat) (tQueue : List Transaction) :
    Option AddState :=
  While.exec (addRound maxDram accepts dramIdx)
    (addMeasure maxDram dramIdx ⟨dramIdx, tQueue, []⟩ + 1) ⟨dramIdx, tQueue, []⟩

/-- What a call leaves of the queue `q` it started with. -/
structure Forwards (maxDram : Nat) (accepts : Oracle) (q : List Transaction) (r : AddState) :
    Prop where
  dramIdx_lt : r.dramIdx < maxDram
  /-- The forwarded transactions are the first ones, in order, and the others stay. -/
  split : r.forwarded.map Prod.snd ++ r.tQueue = q
  /-- Each went to a memory that accepted it then. -/
  accepted : ∀ k (hk : k < r.forwarded.length), r.forwarded[k].1 < maxDram ∧
    accepts (r.forwarded.take k) r.forwarded[k].1 r.forwarded[k].2 = true

section Forwards

variable {maxDram check : Nat} {accepts : Oracle} {q : List Transaction}

theorem Forwards.start {dramIdx : Nat} (hidx : dramIdx < maxDram) :
    Forwards maxDram accepts q ⟨dramIdx, q, []⟩ :=
  ⟨hidx, rfl, fun _ hk => absurd hk (Nat.not_lt_zero _)⟩

theorem Forwards.next {s s' : AddState} (h : Forwards maxDram accepts q s)
    (hround : addRound maxDram accepts check s = .inl s') : Forwards maxDram accepts q s' := by
  obtain ⟨t, ts, hq, hacc, rfl⟩ | ⟨t, ts, hq, -, -, rfl⟩ := addRound_inl hround
  · refine ⟨wrapIdx_lt h.dramIdx_lt, ?_, ?_⟩
    · simpa [hq] using h.split
    · intro k hk
      rcases Nat.lt_or_ge k s.forwarded.length with hlt | hge
      · have hk' := h.accepted k hlt
        simp only [List.getElem_append_left hlt, List.take_append_of_le_length hlt.le]
        exact hk'
      · have hk' : k = s.forwarded.length := by
          simp only [List.length_append, List.length_singleton] at hk
          omega
        subst hk'
        simpa using And.intro h.dramIdx_lt hacc
  · exact ⟨wrapIdx_lt h.dramIdx_lt, h.split, h.accepted⟩

theorem Forwards.done {s r : AddState} (h : Forwards maxDram accepts q s)
    (hround : addRound maxDram accepts check s = .inr r) : Forwards maxDram accepts q r := by
  obtain ⟨-, rfl⟩ | ⟨t, ts, hq, -, -, rfl⟩ := addRound_inr hround
  · exact h
  · exact ⟨wrapIdx_lt h.dramIdx_lt, h.split, h.accepted⟩

/-- The loop ends, for every oracle, and forwards the front of the queue. -/
theorem forward_spec (accepts : Oracle) (q : List Transaction) {dramIdx : Nat}
    (hidx : dramIdx < maxDram) :
    ∃ r, forward maxDram accepts dramIdx q = some r ∧ Forwards maxDram accepts q r :=
  While.exec_of_measure (addMeasure maxDram dramIdx)
    (fun _ _ h hround => ⟨h.next hround, addMeasure_lt hidx h.dramIdx_lt hround⟩)
    (fun _ _ h hround => h.done hround) (Forwards.start hidx)

theorem forward_eq_of_returns {dramIdx : Nat} (hidx : dramIdx < maxDram) {r : AddState}
    (h : While.Returns (addRound maxDram accepts dramIdx) ⟨dramIdx, q, []⟩ r) :
    forward maxDram accepts dramIdx q = some r := by
  obtain ⟨r', hr', -⟩ := forward_spec accepts q hidx
  rw [hr', While.Returns.unique ⟨_, hr'⟩ h]

end Forwards

/-- A call of the interface. -/
inductive MemoryCall where
  | dramRequest (t : Transaction) | addTransaction (accepts : Oracle)

/-- The index, the queue, and all transactions forwarded so far. -/
structure Traffic where
  dramIdx : Nat
  tQueue : List Transaction
  forwarded : List (Nat × Transaction)

namespace Traffic

/-- One call. A loop that goes on would leave everything as it is. -/
def step (maxDram : Nat) (s : Traffic) : MemoryCall → Traffic
  | .dramRequest t => { s with tQueue := s.tQueue ++ [t] }
  | .addTransaction accepts =>
    match forward maxDram accepts s.dramIdx s.tQueue with
    | some r => ⟨r.dramIdx, r.tQueue, s.forwarded ++ r.forwarded⟩
    | none => s

/-- The transactions that were requested. -/
def requests (calls : List MemoryCall) : List Transaction :=
  calls.filterMap fun
    | .dramRequest t => some t
    | .addTransaction _ => none

variable {maxDram : Nat}

/-- What is forwarded and what waits is what was there and what a call requests. -/
theorem step_conserves {s : Traffic} (hidx : s.dramIdx < maxDram) (c : MemoryCall) :
    (s.step maxDram c).dramIdx < maxDram ∧
    (s.step maxDram c).forwarded.map Prod.snd ++ (s.step maxDram c).tQueue =
      s.forwarded.map Prod.snd ++ s.tQueue ++ requests [c] := by
  cases c with
  | dramRequest t => exact ⟨hidx, by simp [step, requests]⟩
  | addTransaction accepts =>
    obtain ⟨r, hr, hforwards⟩ := forward_spec accepts s.tQueue hidx
    simp only [step, hr]
    refine ⟨hforwards.dramIdx_lt, ?_⟩
    rw [List.map_append, List.append_assoc, hforwards.split]
    simp [requests]

theorem run_conserves {s : Traffic} (hidx : s.dramIdx < maxDram) (calls : List MemoryCall) :
    (Transition.run (step maxDram) s calls).dramIdx < maxDram ∧
    (Transition.run (step maxDram) s calls).forwarded.map Prod.snd ++
      (Transition.run (step maxDram) s calls).tQueue =
      s.forwarded.map Prod.snd ++ s.tQueue ++ requests calls := by
  induction calls generalizing s with
  | nil => exact ⟨hidx, by simp [requests]⟩
  | cons c calls ih =>
    obtain ⟨hidx', hstep⟩ := step_conserves hidx c
    obtain ⟨hlt, hrun⟩ := ih hidx'
    refine ⟨hlt, ?_⟩
    have hrequests : requests (c :: calls) = requests [c] ++ requests calls := by
      rw [requests, requests, requests, ← List.filterMap_append]
      rfl
    rw [Transition.run_cons, hrun, hstep, hrequests, List.append_assoc]

end Traffic

/-- `AddTransaction` ends for every oracle, hands over the front of the queue in order, each
transaction once and to a memory that accepts it, and keeps the index in range. Over any
calls every requested transaction is forwarded or waits, in the order of the requests. -/
theorem addTransaction_forwards_queue {maxDram dramIdx : Nat} (hidx : dramIdx < maxDram)
    (tQueue : List Transaction) :
    (∀ accepts : Oracle, ∃ r,
      While.Returns (addRound maxDram accepts dramIdx) ⟨dramIdx, tQueue, []⟩ r ∧
      Forwards maxDram accepts tQueue r) ∧
    ∀ calls : List MemoryCall,
      let s := Transition.run (Traffic.step maxDram) ⟨dramIdx, tQueue, []⟩ calls
      s.dramIdx < maxDram ∧
      s.forwarded.map Prod.snd ++ s.tQueue = tQueue ++ Traffic.requests calls := by
  constructor
  · intro accepts
    obtain ⟨r, hr, hforwards⟩ := forward_spec accepts tQueue hidx
    exact ⟨r, ⟨_, hr⟩, hforwards⟩
  · intro calls
    exact Traffic.run_conserves (s := ⟨dramIdx, tQueue, []⟩) hidx calls

/-- Three reads and a write for two memories of which the second rejects writes. -/
theorem addTransaction_forwards_queue_two :
    let q := [readLine .aRow 0, ⟨⟨.axw, 0⟩, true⟩, readLine .aCol 0, readLine .aCol 1]
    let accepts : Oracle := fun _ i t => i = 0 || !t.isWrite
    ∃ r, While.Returns (addRound 2 accepts 0) ⟨0, q, []⟩ r ∧ Forwards 2 accepts q r := by
  intro q accepts
  exact (addTransaction_forwards_queue (by decide) q).1 accepts

section Refinement

/-- The memories after the transactions forwarded to them. -/
def memoriesAfter (drams : List MemorySystem) (forwarded : List (Nat × Transaction)) :
    List MemorySystem :=
  forwarded.foldl (fun drams p => drams.modify p.1 (·.addTransaction p.2)) drams

/-- Memories that answer by their contents, as an oracle. -/
def oracleOf (accepts : Accepts) (drams : List MemorySystem) : Oracle := fun forwarded i t =>
  match (memoriesAfter drams forwarded)[i]? with
  | some m => accepts i m t
  | none => false

theorem nextIdx_eq_wrapIdx {maxDram : Nat} (i : Fin maxDram) :
    (nextIdx i).val = wrapIdx maxDram i := by
  have := i.isLt
  rw [nextIdx_val, wrapIdx]
  split <;> split <;> omega

variable {maxDram check : Nat} {accepts : Oracle} {fwd : List (Nat × Transaction)}
  {t : Transaction} {ts : List Transaction}

/-- The rounds spent on a transaction that is accepted. -/
theorem returns_findDram_true {n : Nat} {i j : Fin maxDram} {r : AddState}
    (h : findDram check (fun i => accepts fwd i t) n i = (true, j)) :
    While.Returns (addRound maxDram accepts check) ⟨i, t :: ts, fwd⟩ r ↔
      While.Returns (addRound maxDram accepts check) ⟨nextIdx j, ts, fwd ++ [(j.val, t)]⟩ r := by
  induction n generalizing i with
  | zero => cases h
  | succ n ih =>
    rw [findDram] at h
    split at h
    · rename_i hacc
      cases h
      apply While.returns_of_inl
      rw [addRound_cons, if_pos hacc, nextIdx_eq_wrapIdx]
    · rename_i hacc
      split at h
      · cases h
      · rename_i hcheck
        rw [← ih h]
        apply While.returns_of_inl
        rw [nextIdx_eq_wrapIdx] at hcheck
        rw [addRound_cons, if_neg hacc, if_neg hcheck, nextIdx_eq_wrapIdx]

/-- The rounds spent on a transaction that no memory up to `check` accepts. -/
theorem returns_findDram_false {n : Nat} {i j : Fin maxDram}
    (hn : roundsToCheck maxDram check i ≤ n) (hcheck : check < maxDram)
    (h : findDram check (fun i => accepts fwd i t) n i = (false, j)) :
    While.Returns (addRound maxDram accepts check) ⟨i, t :: ts, fwd⟩ ⟨j, t :: ts, fwd⟩ := by
  induction n generalizing i with
  | zero => exact absurd (roundsToCheck_pos check i.isLt) (by omega)
  | succ n ih =>
    rw [findDram] at h
    split at h
    · cases h
    · rename_i hacc
      split at h
      · rename_i hback
        cases h
        apply While.returns_of_inr
        rw [nextIdx_eq_wrapIdx] at hback
        rw [addRound_cons, if_neg hacc, if_pos hback, nextIdx_eq_wrapIdx]
      · rename_i hback
        rw [nextIdx_eq_wrapIdx] at hback
        have hlt := roundsToCheck_wrapIdx_lt hcheck i.isLt hback
        have hround : addRound maxDram accepts check ⟨i, t :: ts, fwd⟩ =
            .inl ⟨nextIdx i, t :: ts, fwd⟩ := by
          rw [addRound_cons, if_neg hacc, if_neg hback, nextIdx_eq_wrapIdx]
        rw [While.returns_of_inl hround]
        exact ih (by rw [nextIdx_eq_wrapIdx]; omega) h

/-- The answers of the memories of `d`. -/
def answers (accepts : Accepts) (d : DramInterface) (t : Transaction) (i : Fin d.drams.length) :
    Bool :=
  accepts i (d.drams.get i) t

theorem addLoop_of_found {accepts : Accepts} {d : DramInterface} {j : Fin d.drams.length}
    (h : findDram check (d.answers accepts t) d.drams.length ⟨d.dramIdx, d.dramIdx_lt⟩ =
      (true, j)) :
    addLoop accepts check (t :: ts) d =
      ((j.val, t) :: (addLoop accepts check ts (d.place j t)).1,
        (addLoop accepts check ts (d.place j t)).2) := by
  change findDram check (fun i => accepts i d.drams[i] t) _ _ = _ at h
  simp only [addLoop, h, if_true]

theorem addLoop_of_not_found {accepts : Accepts} {d : DramInterface} {j : Fin d.drams.length}
    (h : findDram check (d.answers accepts t) d.drams.length ⟨d.dramIdx, d.dramIdx_lt⟩ =
      (false, j)) :
    addLoop accepts check (t :: ts) d =
      ([], { d with tQueue := t :: ts, dramIdx := j, dramIdx_lt := j.isLt }) := by
  change findDram check (fun i => accepts i d.drams[i] t) _ _ = _ at h
  simp only [addLoop, h, Bool.false_eq_true, if_false]

/-- The loop over the waiting transactions, from the state `d` reached after `fwd`. -/
theorem returns_addLoop (accepts : Accepts) {drams : List MemorySystem} {check : Nat}
    (hcheck : check < drams.length) (ts : List Transaction) (fwd : List (Nat × Transaction))
    (d : DramInterface) (hdrams : d.drams = memoriesAfter drams fwd)
    (hlen : d.drams.length = drams.length) :
    While.Returns (addRound drams.length (oracleOf accepts drams) check) ⟨d.dramIdx, ts, fwd⟩
      ⟨(addLoop accepts check ts d).2.dramIdx, (addLoop accepts check ts d).2.tQueue,
        fwd ++ (addLoop accepts check ts d).1⟩ := by
  induction ts generalizing d fwd with
  | nil =>
    apply While.returns_of_inr
    rw [addLoop, List.append_nil]
    rfl
  | cons t ts ih =>
    have horacle : d.answers accepts t =
        fun i : Fin d.drams.length => oracleOf accepts drams fwd i t := by
      funext i
      simp only [answers, oracleOf, ← hdrams]
      rw [List.getElem?_eq_getElem i.isLt]
      rfl
    rw [← hlen] at hcheck ⊢
    obtain ⟨found, j, hfind⟩ : ∃ found j, findDram check (d.answers accepts t) d.drams.length
        ⟨d.dramIdx, d.dramIdx_lt⟩ = (found, j) := ⟨_, _, rfl⟩
    cases found with
    | true =>
      rw [addLoop_of_found hfind]
      rw [horacle] at hfind
      have hplaced : (d.place j t).drams = memoriesAfter drams (fwd ++ [(j.val, t)]) := by
        rw [memoriesAfter, List.foldl_append]
        exact congrArg (fun ds => ds.modify j.val (·.addTransaction t)) hdrams
      have hnext := ih (fwd ++ [(j.val, t)]) (d.place j t) hplaced
        (by rw [place, List.length_modify, hlen])
      rw [← hlen, List.append_assoc] at hnext
      exact (returns_findDram_true hfind).mpr hnext
    | false =>
      rw [addLoop_of_not_found hfind, List.append_nil]
      rw [horacle] at hfind
      refine returns_findDram_false ?_ hcheck hfind
      have := d.dramIdx_lt
      simp only [roundsToCheck]
      split <;> omega

/-- The interface with memories that answer by their contents runs this loop. -/
theorem forward_eq_addTransaction (accepts : Accepts) (d : DramInterface) :
    forward d.drams.length (oracleOf accepts d.drams) d.dramIdx d.tQueue =
      some ⟨(d.addTransaction accepts).dramIdx, (d.addTransaction accepts).tQueue,
        d.placed accepts⟩ :=
  forward_eq_of_returns d.dramIdx_lt
    (returns_addLoop accepts d.dramIdx_lt d.tQueue [] d rfl rfl)

end Refinement

end DramInterface

end GcnSim
