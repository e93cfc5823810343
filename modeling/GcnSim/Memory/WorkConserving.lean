import GcnSim.Memory.AddTransaction
import Mathlib.Algebra.BigOperators.Group.Finset.Basic
import Mathlib.Algebra.Order.BigOperators.Group.Finset
import Mathlib.Data.Finset.Range

/-!
# When `AddTransaction` leaves work behind

The memories are queues with free places. The loop goes around the memories in turns,
starting at `dram_idx`, and each memory takes at most one transaction in a turn. A
rejection ends the loop only at the last memory of a turn, so the number of turns is
what that memory has room for and one more, whatever room the others have.
-/

namespace GcnSim

namespace DramInterface

/-- Memory `i` has `free i` places for the transactions of a call. -/
def roomOracle (free : Nat → Nat) : Oracle := fun forwarded i _ =>
  forwarded.countP (·.1 = i) < free i

/-- Nothing waits, or no memory accepts the transaction at the head. -/
def WorkConserving (maxDram : Nat) (accepts : Oracle) (r : AddState) : Prop :=
  ∀ t ∈ r.tQueue.head?, ∀ i < maxDram, accepts r.forwarded i t = false

/-- The last memory of a turn that starts at memory `start`. -/
def lastIdx (maxDram start : Nat) : Nat := if start = 0 then maxDram - 1 else start - 1

/-- The place of memory `i` in a turn that starts at memory `start`. -/
def position (maxDram start i : Nat) : Nat :=
  if start ≤ i then i - start else maxDram + i - start

section Position

variable {maxDram start i : Nat}

theorem position_start : position maxDram start start = 0 := by
  rw [position, if_pos le_rfl, Nat.sub_self]

theorem position_inj (hs : start < maxDram) {j : Nat} (hi : i < maxDram) (hj : j < maxDram)
    (h : position maxDram start i = position maxDram start j) : i = j := by
  simp only [position] at h
  split_ifs at h <;> omega

/-- The index comes back to the start behind the last memory. -/
theorem wrapIdx_eq_start_iff (hs : start < maxDram) (hi : i < maxDram) :
    wrapIdx maxDram i = start ↔ i = lastIdx maxDram start := by
  simp only [wrapIdx, lastIdx]
  split_ifs <;> omega

theorem position_le_last (hs : start < maxDram) (hi : i < maxDram) :
    position maxDram start i ≤ position maxDram start (lastIdx maxDram start) := by
  simp only [position, lastIdx]
  split_ifs <;> omega

theorem position_wrapIdx (hs : start < maxDram) (hne : wrapIdx maxDram i ≠ start) :
    position maxDram start (wrapIdx maxDram i) = position maxDram start i + 1 := by
  simp only [position, wrapIdx] at hne ⊢
  split_ifs at hne ⊢ <;> omega

end Position

/-- Turns were gone through before the current one, each memory taking one transaction in a
turn as long as it had room. -/
structure Turns (maxDram start : Nat) (free : Nat → Nat) (turns : Nat) (s : AddState) :
    Prop where
  turns_le : turns ≤ free (lastIdx maxDram start)
  count : ∀ i < maxDram, s.forwarded.countP (·.1 = i) =
    min (free i) (if position maxDram start i < position maxDram start s.dramIdx then turns + 1
      else turns)

section Turns

variable {maxDram start turns : Nat} {free : Nat → Nat} {s : AddState}

theorem Turns.init (q : List Transaction) : Turns maxDram start free 0 ⟨start, q, []⟩ where
  turns_le := Nat.zero_le _
  count i _ := by
    rw [position_start, if_neg (Nat.not_lt_zero _), Nat.min_zero]
    rfl

/-- The memory whose turn it is has taken what it had room for in the turns before. -/
theorem Turns.count_current (h : Turns maxDram start free turns s) (hidx : s.dramIdx < maxDram) :
    s.forwarded.countP (·.1 = s.dramIdx) = min (free s.dramIdx) turns := by
  rw [h.count _ hidx, if_neg (Nat.lt_irrefl _)]

/-- The memory has taken its transaction of this turn, or had no room: it counts among those
that went before. -/
theorem Turns.advance (h : Turns maxDram start free turns s) (hs : start < maxDram)
    (hidx : s.dramIdx < maxDram) {s' : AddState} (hidx' : s'.dramIdx = wrapIdx maxDram s.dramIdx)
    (hcurrent : s'.forwarded.countP (·.1 = s.dramIdx) = min (free s.dramIdx) (turns + 1))
    (hother : ∀ i, i ≠ s.dramIdx →
      s'.forwarded.countP (·.1 = i) = s.forwarded.countP (·.1 = i))
    (hroom : wrapIdx maxDram s.dramIdx = start → turns < free s.dramIdx) :
    ∃ turns', Turns maxDram start free turns' s' := by
  have hcount : ∀ i < maxDram, s'.forwarded.countP (·.1 = i) = min (free i)
      (if position maxDram start i ≤ position maxDram start s.dramIdx then turns + 1
        else turns) := by
    intro i hi
    by_cases hne : i = s.dramIdx
    · rw [hne, hcurrent, if_pos le_rfl]
    · have hpos : position maxDram start i ≠ position maxDram start s.dramIdx :=
        fun he => hne (position_inj hs hi hidx he)
      rw [hother i hne, h.count i hi]
      by_cases hlt : position maxDram start i < position maxDram start s.dramIdx
      · rw [if_pos hlt, if_pos hlt.le]
      · rw [if_neg hlt, if_neg (by omega)]
  by_cases hback : wrapIdx maxDram s.dramIdx = start
  · -- the last memory of the turn took a transaction, so another turn begins
    have hlast := (wrapIdx_eq_start_iff hs hidx).mp hback
    refine ⟨turns + 1, ?_, ?_⟩
    · rw [← hlast]
      exact hroom hback
    · intro i hi
      rw [hcount i hi, hlast, if_pos (position_le_last hs hi), hidx', hback, position_start,
        if_neg (Nat.not_lt_zero _)]
  · refine ⟨turns, h.turns_le, ?_⟩
    intro i hi
    rw [hcount i hi, hidx', position_wrapIdx hs hback]
    simp only [Nat.lt_succ_iff]

theorem countP_concat (l : List (Nat × Transaction)) (j : Nat) (t : Transaction) (i : Nat) :
    (l ++ [(j, t)]).countP (·.1 = i) = l.countP (·.1 = i) + if j = i then 1 else 0 := by
  rw [List.countP_append, List.countP_singleton]
  simp

theorem Turns.next (h : Turns maxDram start free turns s) (hs : start < maxDram)
    (hidx : s.dramIdx < maxDram) {s' : AddState}
    (hround : addRound maxDram (roomOracle free) start s = .inl s') :
    ∃ turns', Turns maxDram start free turns' s' := by
  have hcurrent := h.count_current hidx
  obtain ⟨t, ts, -, hacc, rfl⟩ | ⟨t, ts, -, hacc, hne, rfl⟩ := addRound_inl hround
  · simp only [roomOracle, decide_eq_true_eq, hcurrent] at hacc
    refine h.advance hs hidx rfl ?_ ?_ (fun _ => by omega)
    · rw [countP_concat, hcurrent, if_pos rfl]
      omega
    · intro i hi
      rw [countP_concat, if_neg (Ne.symm hi), Nat.add_zero]
  · simp only [roomOracle, decide_eq_false_iff_not, hcurrent] at hacc
    refine h.advance hs hidx rfl ?_ (fun _ _ => rfl) (fun hback => absurd hback hne)
    rw [hcurrent]
    omega

/-- The most a call hands over. -/
def turnCapacity (maxDram start : Nat) (free : Nat → Nat) : Nat :=
  ∑ i ∈ Finset.range maxDram, min (free i) (free (lastIdx maxDram start) + 1)

/-- Before its end a call hands over no more than its turns have room for. -/
theorem Turns.length_le (h : Turns maxDram start free turns s)
    (hrange : ∀ p ∈ s.forwarded, p.1 < maxDram) :
    s.forwarded.length ≤ turnCapacity maxDram start free := by
  rw [← Buckets.sum_countP_slot hrange]
  refine Finset.sum_le_sum fun i hi => ?_
  have hturns := h.turns_le
  rw [h.count i (Finset.mem_range.mp hi)]
  split <;> omega

/-- A call that ends with a rejection has gone through all its turns. -/
theorem Turns.count_of_rejected (h : Turns maxDram start free turns s) (hs : start < maxDram)
    (hidx : s.dramIdx < maxDram) {t : Transaction}
    (hacc : roomOracle free s.forwarded s.dramIdx t = false)
    (hback : wrapIdx maxDram s.dramIdx = start) {i : Nat} (hi : i < maxDram) :
    s.forwarded.countP (·.1 = i) = min (free i) (free (lastIdx maxDram start) + 1) := by
  have hlast := (wrapIdx_eq_start_iff hs hidx).mp hback
  have hturns := h.turns_le
  simp only [roomOracle, decide_eq_false_iff_not, h.count_current hidx] at hacc
  rw [← hlast] at hturns ⊢
  rw [h.count i hi]
  by_cases hne : i = s.dramIdx
  · rw [hne, if_neg (Nat.lt_irrefl _)]
    omega
  · have hlt : position maxDram start i < position maxDram start s.dramIdx := by
      refine lt_of_le_of_ne ?_ fun he => hne (position_inj hs hi hidx he)
      rw [hlast]
      exact position_le_last hs hi
    rw [if_pos hlt]
    omega

end Turns

/-- How a call on the queue `q` ends: the queue is empty, or all turns were gone through. -/
def TurnsEnd (maxDram start : Nat) (free : Nat → Nat) (q : List Transaction) (r : AddState) :
    Prop :=
  (r.tQueue = [] ∧ q.length ≤ turnCapacity maxDram start free) ∨
  (r.tQueue ≠ [] ∧ turnCapacity maxDram start free < q.length ∧ ∀ i < maxDram,
    r.forwarded.countP (·.1 = i) = min (free i) (free (lastIdx maxDram start) + 1))

section Main

variable {maxDram start : Nat} {free : Nat → Nat} {q : List Transaction}

theorem Forwards.range {accepts : Oracle} {s : AddState} (h : Forwards maxDram accepts q s) :
    ∀ p ∈ s.forwarded, p.1 < maxDram := by
  intro p hp
  obtain ⟨k, hk, rfl⟩ := List.mem_iff_getElem.mp hp
  exact (h.accepted k hk).1

theorem Forwards.length_split {accepts : Oracle} {s : AddState}
    (h : Forwards maxDram accepts q s) : s.forwarded.length + s.tQueue.length = q.length := by
  rw [← h.split, List.length_append, List.length_map]

theorem turnsEnd_of_round {turns : Nat} {s r : AddState} (hs : start < maxDram)
    (hfwd : Forwards maxDram (roomOracle free) q s) (h : Turns maxDram start free turns s)
    (hround : addRound maxDram (roomOracle free) start s = .inr r) :
    TurnsEnd maxDram start free q r := by
  have hlen := hfwd.length_split
  obtain ⟨hq, rfl⟩ | ⟨t, ts, hq, hacc, hback, rfl⟩ := addRound_inr hround
  · refine Or.inl ⟨hq, ?_⟩
    rw [hq, List.length_nil, Nat.add_zero] at hlen
    exact hlen ▸ h.length_le hfwd.range
  · have hcount := fun i hi =>
      h.count_of_rejected hs hfwd.dramIdx_lt hacc hback (i := i) hi
    have htotal : s.forwarded.length = turnCapacity maxDram start free := by
      rw [← Buckets.sum_countP_slot hfwd.range]
      exact Finset.sum_congr rfl fun i hi => hcount i (Finset.mem_range.mp hi)
    refine Or.inr ⟨by simp [hq], ?_, hcount⟩
    rw [hq, List.length_cons] at hlen
    omega

theorem returns_turnsEnd (hs : start < maxDram) (free : Nat → Nat) (q : List Transaction) :
    ∃ r, While.Returns (addRound maxDram (roomOracle free) start) ⟨start, q, []⟩ r ∧
      TurnsEnd maxDram start free q r := by
  have hrun : ∃ r, forward maxDram (roomOracle free) start q = some r ∧
      TurnsEnd maxDram start free q r := by
    refine While.exec_of_measure (addMeasure maxDram start) (I := fun s =>
      Forwards maxDram (roomOracle free) q s ∧ ∃ turns, Turns maxDram start free turns s)
      ?_ ?_ ⟨Forwards.start hs, 0, Turns.init q⟩
    · rintro s s' ⟨hfwd, turns, hturns⟩ hround
      exact ⟨⟨hfwd.next hround, hturns.next hs hfwd.dramIdx_lt hround⟩,
        addMeasure_lt hs hfwd.dramIdx_lt hround⟩
    · rintro s r ⟨hfwd, turns, hturns⟩ hround
      exact turnsEnd_of_round hs hfwd hturns hround
  obtain ⟨r, hr, hend⟩ := hrun
  exact ⟨r, ⟨_, hr⟩, hend⟩

theorem workConserving_iff_of_turnsEnd {r : AddState} (h : TurnsEnd maxDram start free q r) :
    WorkConserving maxDram (roomOracle free) r ↔
      q.length ≤ turnCapacity maxDram start free ∨
        ∀ i < maxDram, free i ≤ free (lastIdx maxDram start) + 1 := by
  obtain ⟨hq, hle⟩ | ⟨hq, hlt, hcount⟩ := h
  · refine iff_of_true ?_ (Or.inl hle)
    simp [WorkConserving, hq]
  · obtain ⟨t, ts, hcons⟩ := List.exists_cons_of_ne_nil hq
    simp only [WorkConserving, hcons, List.head?_cons, Option.mem_def, Option.some.injEq,
      forall_eq', roomOracle, decide_eq_false_iff_not]
    constructor
    · intro hreject
      refine Or.inr fun i hi => ?_
      have := hreject i hi
      rw [hcount i hi] at this
      omega
    · rintro (hle | hfree) i hi
      · omega
      · have := hfree i hi
        rw [hcount i hi]
        omega

/-- A call of `AddTransaction` leaves a transaction behind that some memory has room for,
unless the turns hold all that waits or no memory has room for more turns than there are. -/
theorem addTransaction_workConserving_iff (hs : start < maxDram) (free : Nat → Nat)
    (q : List Transaction) :
    (∃ r, While.Returns (addRound maxDram (roomOracle free) start) ⟨start, q, []⟩ r ∧
      WorkConserving maxDram (roomOracle free) r) ↔
      q.length ≤ turnCapacity maxDram start free ∨
        ∀ i < maxDram, free i ≤ free (lastIdx maxDram start) + 1 := by
  obtain ⟨r, hr, hend⟩ := returns_turnsEnd hs free q
  rw [← workConserving_iff_of_turnsEnd hend]
  constructor
  · rintro ⟨r', hr', hwork⟩
    rwa [hr.unique hr']
  · exact fun hwork => ⟨r, hr, hwork⟩

theorem addTransaction_workConserving_three :
    let free := fun i => if i = 0 then 1 else 0
    let q := [readLine .aRow 0, readLine .aRow 1]
    ∃ r, While.Returns (addRound 3 (roomOracle free) 0) ⟨0, q, []⟩ r ∧
      WorkConserving 3 (roomOracle free) r := by
  intro free q
  exact (addTransaction_workConserving_iff (by decide) free q).mpr (Or.inr (by decide))

/-- The first memory has room for both transactions. It takes one, the second memory rejects
the other, and the index is back at the start. -/
theorem room_behind_full_memory :
    let free := fun i => if i = 0 then 2 else 0
    let q := [readLine .aRow 0, readLine .aRow 1]
    ¬ ∃ r, While.Returns (addRound 2 (roomOracle free) 0) ⟨0, q, []⟩ r ∧
      WorkConserving 2 (roomOracle free) r := by
  rintro free q ⟨r, hr, hwork⟩
  have hend : While.Returns (addRound 2 (roomOracle free) 0) ⟨0, q, []⟩
      ⟨0, [readLine .aRow 1], [(0, readLine .aRow 0)]⟩ := ⟨2, by decide⟩
  rw [hr.unique hend] at hwork
  exact absurd (hwork _ rfl 0 (by decide)) (by decide)

end Main

end DramInterface

end GcnSim
