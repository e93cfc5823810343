import Mathlib.Data.List.Basic
import Mathlib.Data.List.Nodup
import Mathlib.Data.List.Perm.Subperm

/-!
# Slots and the order of their contents

A list of slots, some of them blank, with a list beside it that orders what the
others hold. Values are written to a blank slot or over the first value of the
order; a value that is used again moves to the end of the order.
-/

namespace Slots

variable {α : Type*} {blank : α → Bool} {slots : List α} {x old : α} {i : Nat}

/-- What is found in a slot after a write of one slot. -/
theorem of_getElem?_set {α : Type*} {slots : List α} {i j : Nat} {x y : α}
    (h : (slots.set i x)[j]? = some y) : (j = i ∧ y = x) ∨ (j ≠ i ∧ slots[j]? = some y) := by
  rw [List.getElem?_set] at h
  split at h
  · rename_i hij
    split at h
    · exact Or.inl ⟨hij.symm, (Option.some.inj h).symm⟩
    · cases h
  · rename_i hij
    exact Or.inr ⟨Ne.symm hij, h⟩

/-- Where a value was written shows, unless the slot held it before. -/
theorem eq_of_set_eq {α : Type*} {slots : List α} {i j : Nat} {x y : α} (hi : slots[i]? = some y)
    (hne : y ≠ x) (h : slots.set i x = slots.set j x) : i = j := by
  by_contra hij
  have hlt := (List.getElem?_eq_some_iff.mp hi).1
  have hlook := congrArg (fun l => l[i]?) h
  simp only [List.getElem?_set_self hlt, List.getElem?_set_ne (Ne.symm hij), hi,
    Option.some.injEq] at hlook
  exact hne hlook.symm

/-- No value is in two slots. -/
def Distinct (blank : α → Bool) (slots : List α) : Prop :=
  ∀ (i j : Nat) (x : α), slots[i]? = some x → slots[j]? = some x → blank x = false → i = j

theorem Distinct.set (h : Distinct blank slots) (hx : x ∉ slots) (i : Nat) :
    Distinct blank (slots.set i x) := by
  have hother {k : Nat} {y : α} (hk : (slots.set i x)[k]? = some y) (hki : k ≠ i) :
      slots[k]? = some y := by rwa [List.getElem?_set_ne (Ne.symm hki)] at hk
  have hself {y : α} (hi : (slots.set i x)[i]? = some y) : y = x := by
    rw [List.getElem?_set_self'] at hi
    cases hs : slots[i]? <;> simp_all
  intro j k y hj hk hy
  by_cases hji : j = i
  · by_cases hki : k = i
    · exact hji.trans hki.symm
    · rw [hji] at hj
      rw [hself hj] at hk
      exact absurd (List.mem_of_getElem? (hother hk hki)) hx
  · by_cases hki : k = i
    · rw [hki] at hk
      rw [hself hk] at hj
      exact absurd (List.mem_of_getElem? (hother hj hji)) hx
    · exact h j k y (hother hj hji) (hother hk hki) hy

/-- A write replaces the value of one slot. -/
theorem Distinct.mem_set_iff (h : Distinct blank slots) (hi : slots[i]? = some old) {y : α}
    (hy : blank y = false) : y ∈ slots.set i x ↔ y = x ∨ y ∈ slots ∧ y ≠ old := by
  obtain ⟨hlt, hold⟩ := List.getElem?_eq_some_iff.mp hi
  constructor
  · intro hmem
    obtain ⟨j, hj⟩ := List.mem_iff_getElem?.mp hmem
    by_cases hji : j = i
    · rw [hji, List.getElem?_set_self hlt] at hj
      exact Or.inl (Option.some.inj hj).symm
    · rw [List.getElem?_set_ne (Ne.symm hji)] at hj
      refine Or.inr ⟨List.mem_of_getElem? hj, ?_⟩
      rintro rfl
      exact hji (h j i y hj hi hy)
  · rintro (rfl | ⟨hmem, hne⟩)
    · exact List.mem_set hlt y
    · obtain ⟨j, hj⟩ := List.mem_iff_getElem?.mp hmem
      have hji : j ≠ i := by
        rintro rfl
        exact hne (Option.some.inj (hj.symm.trans hi))
      refine List.mem_of_getElem? (i := j) ?_
      rw [List.getElem?_set_ne (Ne.symm hji)]
      exact hj

/-- The order lists what the slots hold, each value once. -/
structure Enumerates (blank : α → Bool) (slots order : List α) : Prop where
  nodup : order.Nodup
  mem_iff : ∀ y, y ∈ order ↔ y ∈ slots ∧ blank y = false

variable {order : List α}

theorem Enumerates.replicate (n : Nat) (hx : blank x = true) :
    Enumerates blank (List.replicate n x) [] where
  nodup := List.nodup_nil
  mem_iff y := by
    refine iff_of_false List.not_mem_nil ?_
    rintro ⟨hmem, hy⟩
    rw [List.eq_of_mem_replicate hmem, hx] at hy
    exact Bool.noConfusion hy

/-- With a blank slot the order is shorter than the list of slots. -/
theorem Enumerates.length_lt (h : Enumerates blank slots order) (hmem : old ∈ slots)
    (hold : blank old = true) : order.length < slots.length := by
  have hsub : order ⊆ slots.filter (! blank ·) := by
    intro y hy
    obtain ⟨hslot, hyb⟩ := (h.mem_iff y).mp hy
    exact List.mem_filter.mpr ⟨hslot, by simp [hyb]⟩
  calc order.length ≤ (slots.filter (! blank ·)).length := (List.subperm_of_subset h.nodup hsub).length_le
    _ < slots.length := List.length_filter_lt_length_iff_exists.mpr ⟨old, hmem, by simp [hold]⟩

/-- Without a blank slot the order is as long as the list of slots. -/
theorem Enumerates.length_eq (h : Enumerates blank slots order) (hd : Distinct blank slots)
    (hfull : ∀ y ∈ slots, blank y = false) : order.length = slots.length := by
  have hslots : slots.Nodup := by
    rw [List.nodup_iff_getElem?_ne_getElem?]
    intro i j hij hj heq
    have hsome := List.getElem?_eq_getElem hj
    have hmem := hfull _ (List.getElem_mem hj)
    exact Nat.ne_of_lt hij (hd i j _ (heq.trans hsome) hsome hmem)
  refine ((List.perm_ext_iff_of_nodup h.nodup hslots).mpr ?_).length_eq
  intro y
  rw [h.mem_iff y]
  exact and_iff_left_of_imp (hfull y)

/-- A value is written to a blank slot. -/
theorem Enumerates.fill (h : Enumerates blank slots order) (hd : Distinct blank slots)
    (hi : slots[i]? = some old) (hold : blank old = true) (hx : x ∉ slots)
    (hxb : blank x = false) : Enumerates blank (slots.set i x) (order ++ [x]) where
  nodup := by
    rw [List.nodup_append_comm, List.singleton_append, List.nodup_cons, h.mem_iff]
    exact ⟨fun hmem => hx hmem.1, h.nodup⟩
  mem_iff y := by
    rw [List.mem_append, List.mem_singleton, h.mem_iff]
    constructor
    · rintro (⟨hmem, hy⟩ | rfl)
      · refine ⟨(hd.mem_set_iff hi hy).mpr (Or.inr ⟨hmem, ?_⟩), hy⟩
        rintro rfl
        exact Bool.noConfusion (hy.symm.trans hold)
      · exact ⟨(hd.mem_set_iff hi hxb).mpr (Or.inl rfl), hxb⟩
    · rintro ⟨hmem, hy⟩
      obtain rfl | ⟨hmem, -⟩ := (hd.mem_set_iff hi hy).mp hmem
      · exact Or.inr rfl
      · exact Or.inl ⟨hmem, hy⟩

/-- A value is written over the first value of the order. -/
theorem Enumerates.replace (h : Enumerates blank slots (old :: order))
    (hd : Distinct blank slots) (hi : slots[i]? = some old) (hx : x ∉ slots)
    (hxb : blank x = false) : Enumerates blank (slots.set i x) (order ++ [x]) where
  nodup := by
    have hnodup := List.nodup_cons.mp h.nodup
    rw [List.nodup_append_comm, List.singleton_append, List.nodup_cons]
    exact ⟨fun hmem => hx ((h.mem_iff x).mp (List.mem_cons_of_mem old hmem)).1, hnodup.2⟩
  mem_iff y := by
    have hnodup := List.nodup_cons.mp h.nodup
    have hmem_order : y ∈ order ↔ (y ∈ slots ∧ blank y = false) ∧ y ≠ old := by
      rw [← h.mem_iff y, List.mem_cons]
      constructor
      · intro hy
        exact ⟨Or.inr hy, fun heq => hnodup.1 (heq ▸ hy)⟩
      · rintro ⟨rfl | hy, hne⟩
        · exact absurd rfl hne
        · exact hy
    rw [List.mem_append, List.mem_singleton, hmem_order]
    constructor
    · rintro (⟨⟨hmem, hy⟩, hne⟩ | rfl)
      · exact ⟨(hd.mem_set_iff hi hy).mpr (Or.inr ⟨hmem, hne⟩), hy⟩
      · exact ⟨(hd.mem_set_iff hi hxb).mpr (Or.inl rfl), hxb⟩
    · rintro ⟨hmem, hy⟩
      obtain rfl | ⟨hmem, hne⟩ := (hd.mem_set_iff hi hy).mp hmem
      · exact Or.inr rfl
      · exact Or.inl ⟨⟨hmem, hy⟩, hne⟩

/-- A value that is used again moves to the end of the order. -/
theorem Enumerates.touch [DecidableEq α] (h : Enumerates blank slots order) (hx : x ∈ order) :
    Enumerates blank slots (order.erase x ++ [x]) where
  nodup := by
    rw [List.nodup_append_comm, List.singleton_append, List.nodup_cons]
    exact ⟨h.nodup.not_mem_erase, h.nodup.erase x⟩
  mem_iff y := by
    rw [← h.mem_iff y, List.mem_append, List.mem_singleton, h.nodup.mem_erase_iff]
    by_cases hyx : y = x
    · subst hyx
      exact iff_of_true (Or.inr rfl) hx
    · simp [hyx]

end Slots
