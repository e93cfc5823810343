import Mathlib.Data.List.Dedup
import Mathlib.Data.List.DropRight

/-!
# The end of a history

The last entries of a history that grows at its end, and the last uses of its
values: `dedup` keeps the last occurrence of each value, so it lists the values of
a history in the order of their last use.
-/

namespace Recency

variable {α : Type*} {n : Nat} {x : α} {history : List α}

/-- A history is what is older than its last entries, followed by them. -/
theorem eq_append_rtake (n : Nat) (history : List α) :
    ∃ older, history = older ++ history.rtake n ∧
      (older = [] ∨ (history.rtake n).length = n) := by
  refine ⟨history.rdrop n, (List.take_append_drop _ _).symm, ?_⟩
  obtain hle | hlt := Nat.le_total history.length n
  · left
    rw [List.rdrop, Nat.sub_eq_zero_of_le hle, List.take_zero]
  · right
    rw [List.rtake, List.length_drop]
    omega

theorem rtake_append (older : List α) {recent : List α} (h : older = [] ∨ recent.length = n)
    (hle : recent.length ≤ n) : (older ++ recent).rtake n = recent := by
  obtain rfl | heq := h
  · rw [List.nil_append, List.rtake, Nat.sub_eq_zero_of_le hle, List.drop_zero]
  · rw [List.rtake, List.length_append, heq, Nat.add_sub_cancel, List.drop_left]

theorem length_rtake_le (n : Nat) (history : List α) : (history.rtake n).length ≤ n := by
  rw [List.rtake, List.length_drop]
  omega

/-- As long as there are fewer than `n` last entries the next one is added to them. -/
theorem rtake_concat_of_lt (h : (history.rtake n).length < n) :
    (history ++ [x]).rtake n = history.rtake n ++ [x] := by
  obtain ⟨older, heq, rfl | hlen⟩ := eq_append_rtake n history
  · have hlen : (history.rtake n ++ [x]).length ≤ n := by
      rw [List.length_append, List.length_singleton]
      exact h
    conv_lhs => rw [heq]
    exact rtake_append [] (Or.inl rfl) hlen
  · exact absurd hlen (Nat.ne_of_lt h)

/-- Later the next one takes the place of the oldest of them. -/
theorem rtake_concat_of_eq (hn : 0 < n) (h : (history.rtake n).length = n) :
    (history ++ [x]).rtake n = (history.rtake n).tail ++ [x] := by
  obtain ⟨older, heq, -⟩ := eq_append_rtake n history
  cases hrecent : history.rtake n with
  | nil =>
    rw [hrecent, List.length_nil] at h
    exact absurd h (Nat.ne_of_lt hn)
  | cons y recent =>
    rw [hrecent, List.length_cons] at h
    have hsplit : history ++ [x] = (older ++ [y]) ++ (recent ++ [x]) := by
      conv_lhs => rw [heq, hrecent]
      simp
    have hlen : (recent ++ [x]).length = n := by rw [List.length_append, List.length_singleton, h]
    rw [hsplit]
    exact rtake_append _ (Or.inr hlen) hlen.le

variable [DecidableEq α]

/-- The order of last use after one more use. -/
theorem dedup_concat (history : List α) (x : α) :
    (history ++ [x]).dedup = history.dedup.erase x ++ [x] := by
  induction history with
  | nil => rfl
  | cons y history ih =>
    rw [List.cons_append]
    by_cases hmem : y ∈ history
    · rw [List.dedup_cons_of_mem (List.mem_append_left [x] hmem), List.dedup_cons_of_mem hmem, ih]
    · rw [List.dedup_cons_of_notMem hmem]
      by_cases hyx : y = x
      · subst hyx
        rw [List.dedup_cons_of_mem (List.mem_append_right history (List.mem_singleton_self y)), ih,
          List.erase_cons_head, List.erase_of_not_mem (mt List.mem_dedup.mp hmem)]
      · have hnot : y ∉ history ++ [x] := by simp [hmem, hyx]
        rw [List.dedup_cons_of_notMem hnot, ih, List.erase_cons_tail (by simpa using hyx),
          List.cons_append]

/-- A value that is not among the last entries is erased from what is older. -/
theorem rtake_erase_of_not_mem (hx : x ∉ history.rtake n) :
    (history.erase x).rtake n = history.rtake n := by
  obtain ⟨older, heq, hlen⟩ := eq_append_rtake n history
  by_cases hmem : x ∈ older
  · conv_lhs => rw [heq, List.erase_append_left _ hmem]
    refine rtake_append _ (Or.inr ?_) (length_rtake_le n history)
    exact hlen.resolve_left (List.ne_nil_of_mem hmem)
  · have hnot : x ∉ history := by
      rw [heq, List.mem_append]
      exact fun h => h.elim hmem hx
    rw [List.erase_of_not_mem hnot]

/-- A value among the last entries that is used again moves to their end. -/
theorem rtake_erase_concat_of_mem (hnodup : history.Nodup) (hx : x ∈ history.rtake n) :
    (history.erase x ++ [x]).rtake n = (history.rtake n).erase x ++ [x] := by
  obtain ⟨older, heq, hlen⟩ := eq_append_rtake n history
  have hnot : x ∉ older := by
    rw [heq] at hnodup
    exact fun h => List.disjoint_of_nodup_append hnodup h hx
  have hpos : 0 < (history.rtake n).length := List.length_pos_of_mem hx
  have hcount : ((history.rtake n).erase x ++ [x]).length = (history.rtake n).length := by
    rw [List.length_append, List.length_erase_of_mem hx, List.length_singleton]
    omega
  conv_lhs => rw [heq, List.erase_append_right _ hnot, List.append_assoc]
  rw [← hcount] at hlen
  exact rtake_append older hlen (hcount.le.trans (length_rtake_le n history))

end Recency
