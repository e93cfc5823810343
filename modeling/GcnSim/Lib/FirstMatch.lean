import Mathlib.Data.List.Count
import Mathlib.Data.List.Perm.Basic

/-!
# Taking elements out of a list

A loop over a vector that stops at the first element that meets a test, and erases it there,
is `find?` together with `eraseP`. What is left is the list without that element. `takeOut`
erases elements by their positions.
-/

namespace FirstMatch

variable {α : Type*} {p : α → Bool} {l : List α} {x : α}

/-- The first match and what stands around it. -/
theorem eraseP_eq_append (h : l.find? p = some x) :
    ∃ before behind, l = before ++ x :: behind ∧ l.eraseP p = before ++ behind ∧
      ∀ y ∈ before, p y = false := by
  obtain ⟨hx, before, behind, hl, hbefore⟩ := List.find?_eq_some_iff_append.mp h
  refine ⟨before, behind, hl, ?_, fun y hy => by simpa using hbefore y hy⟩
  rw [hl, List.eraseP_append_right _ fun y hy => by simpa using hbefore y hy,
    List.eraseP_cons_of_pos hx]

theorem find?_of_mem (h : x ∈ l) (hx : p x = true) : ∃ y ∈ l, p y = true ∧ l.find? p = some y := by
  cases hfind : l.find? p with
  | none => exact (List.find?_eq_none.mp hfind x h hx).elim
  | some y => exact ⟨y, List.mem_of_find?_eq_some hfind, List.find?_some hfind, rfl⟩

/-- Only the first match leaves the list. -/
theorem perm_eraseP (h : l.find? p = some x) : l.Perm (x :: l.eraseP p) := by
  obtain ⟨before, behind, hl, herase, -⟩ := eraseP_eq_append h
  rw [herase, hl]
  exact List.perm_middle

theorem countP_eraseP (h : l.find? p = some x) (q : α → Bool) :
    (l.eraseP p).countP q + (if q x then 1 else 0) = l.countP q := by
  rw [(perm_eraseP h).countP_eq q, List.countP_cons]

section TakeOut

variable {β : Type*}

/-- The elements at a list of positions leave the list one after the other. -/
def takeOut : List Nat → List α → List α × List α
  | [], l => ([], l)
  | k :: ks, l =>
    let r := takeOut ks (l.eraseIdx k)
    (l[k]?.toList ++ r.1, r.2)

theorem mem_of_mem_takeOut {ks : List Nat} {l : List α} {a : α}
    (h : a ∈ (takeOut ks l).1 ∨ a ∈ (takeOut ks l).2) : a ∈ l := by
  induction ks generalizing l with
  | nil => exact h.resolve_left List.not_mem_nil
  | cons k ks ih =>
    rw [takeOut] at h
    have hrest : a ∈ l.eraseIdx k → a ∈ l := fun ha => List.eraseIdx_subset ha
    rcases h with h | h
    · rcases List.mem_append.mp h with h | h
      · exact List.mem_of_getElem? (Option.mem_toList.mp h)
      · exact hrest (ih (.inl h))
    · exact hrest (ih (.inr h))

/-- Elements can leave a list in the order in which their images are wanted. -/
theorem exists_takeOut {f : α → β} {out rest : List β} {l : List α}
    (h : (l.map f).Perm (out ++ rest)) :
    ∃ ks, (takeOut ks l).1.map f = out ∧ ((takeOut ks l).2.map f).Perm rest := by
  induction out generalizing l with
  | nil => exact ⟨[], rfl, h⟩
  | cons b out ih =>
    have hmem : b ∈ l.map f := h.symm.subset (List.mem_cons_self ..)
    obtain ⟨k, hk, hb⟩ := List.mem_iff_getElem.mp hmem
    rw [List.length_map] at hk
    rw [List.getElem_map] at hb
    have herase : ((l.eraseIdx k).map f).Perm (out ++ rest) := by
      have hperm := ((List.getElem_cons_eraseIdx_perm hk).map f).trans h
      rw [List.map_cons, hb, List.cons_append] at hperm
      exact hperm.cons_inv
    obtain ⟨ks, hout, hrest⟩ := ih herase
    refine ⟨k :: ks, ?_, hrest⟩
    rw [takeOut, List.getElem?_eq_getElem hk]
    simp [hout, hb]

end TakeOut

end FirstMatch
