import Mathlib.Data.List.Basic
import Mathlib.Data.List.Sort
import Mathlib.Data.List.Flatten
import Mathlib.Algebra.BigOperators.Group.Finset.Piecewise

/-!
# Items distributed over buckets

Items are pushed, one after another, each on the bucket its slot names. What is
left in a bucket are the items with that slot, in their order. `groups` lists the
items key by key: for increasing keys this is the stable sort by the key. `ends`
are the positions at which consecutive rows end.
-/

namespace Buckets

variable {α β ι : Type*}

theorem mapIdx_eq_self {f : Nat → α → α} (h : ∀ k a, f k a = a) (l : List α) :
    l.mapIdx f = l := by
  apply List.ext_getElem
  · simp
  · intro k h₁ h₂
    rw [List.getElem_mapIdx, h]

/-- What every entry has and a change keeps, every entry has after a change of one. -/
theorem forall_mem_modify {P : α → Prop} {f : α → α} (hf : ∀ a, P a → P (f a)) {l : List α}
    (h : ∀ a ∈ l, P a) (k : Nat) : ∀ a ∈ l.modify k f, P a := by
  induction l generalizing k with
  | nil => simp
  | cons a l ih =>
    rw [List.forall_mem_cons] at h
    cases k with
    | zero =>
      rw [List.modify_zero_cons, List.forall_mem_cons]
      exact ⟨hf a h.1, h.2⟩
    | succ k =>
      rw [List.modify_succ_cons, List.forall_mem_cons]
      exact ⟨h.1, ih h.2 k⟩

/-- Every entry was there before, or is the one that changed. -/
theorem mem_modify {f : α → α} {l : List α} {k : Nat} {a : α} (h : a ∈ l.modify k f) :
    a ∈ l ∨ ∃ hk : k < l.length, a = f l[k] := by
  obtain ⟨j, hj, rfl⟩ := List.mem_iff_getElem.mp h
  rw [List.length_modify] at hj
  rw [List.getElem_modify]
  split
  · rename_i hkj
    subst hkj
    exact .inr ⟨hj, rfl⟩
  · exact .inl (List.getElem_mem hj)

/-- A change that keeps the image of an entry keeps the image of the list. -/
theorem map_modify_of_eq {f : α → α} {g : α → β} (hf : ∀ a, g (f a) = g a) (l : List α)
    (k : Nat) : (l.modify k f).map g = l.map g := by
  induction l generalizing k with
  | nil => simp
  | cons a l ih =>
    cases k with
    | zero => rw [List.modify_zero_cons, List.map_cons, hf, List.map_cons]
    | succ k => rw [List.modify_succ_cons, List.map_cons, ih, List.map_cons]

/-- If changing one entry trades `xs` for `ys` in what it lists, then so does the whole list. -/
theorem flatMap_modify_append_perm {g : α → List β} {f : α → α} {xs ys : List β} {l : List α}
    {k : Nat} (hk : k < l.length) (hf : (g (f l[k]) ++ xs).Perm (g l[k] ++ ys)) :
    ((l.modify k f).flatMap g ++ xs).Perm (l.flatMap g ++ ys) := by
  have hswap : ∀ as bs cs : List β, (as ++ bs ++ cs).Perm (as ++ cs ++ bs) := by
    intro as bs cs
    rw [List.append_assoc, List.append_assoc]
    exact List.perm_append_comm.append_left as
  induction l generalizing k with
  | nil => cases hk
  | cons a l ih =>
    cases k with
    | zero =>
      rw [List.modify_zero_cons, List.flatMap_cons, List.flatMap_cons]
      exact ((hswap _ _ _).trans (hf.append_right _)).trans (hswap _ _ _)
    | succ k =>
      rw [List.modify_succ_cons, List.flatMap_cons, List.flatMap_cons, List.append_assoc,
        List.append_assoc]
      exact (ih (Nat.lt_of_succ_lt_succ hk) hf).append_left _

/-- If changing one entry adds `x` to what it lists, then `x` is added to the whole list. -/
theorem flatMap_modify_perm {g : α → List β} {f : α → α} {x : β} {l : List α} {k : Nat}
    (hk : k < l.length) (hf : (g (f l[k])).Perm (g l[k] ++ [x])) :
    ((l.modify k f).flatMap g).Perm (l.flatMap g ++ [x]) := by
  rw [← List.append_nil ((l.modify k f).flatMap g)]
  apply flatMap_modify_append_perm hk
  rwa [List.append_nil]

/-- If the entries of a list are marked by its position among lists, the list is found again
by the mark. -/
theorem filter_flatten_getElem? {mark : α → Nat} {ls : List (List α)} {n : Nat}
    (h : ∀ j l, ls[j]? = some l → ∀ a ∈ l, mark a = n + j) (i : Nat) :
    (ls.flatten.filter fun a => decide (mark a = n + i)) = ls[i]?.getD [] := by
  induction ls generalizing n i with
  | nil => rfl
  | cons l ls ih =>
    have hhead : ∀ a ∈ l, mark a = n := h 0 l rfl
    have htail : ∀ j l', ls[j]? = some l' → ∀ a ∈ l', mark a = n + 1 + j := by
      intro j l' hl' a ha
      rw [h (j + 1) l' hl' a ha]
      omega
    rw [List.flatten_cons, List.filter_append]
    cases i with
    | zero =>
      have hrest : (ls.flatten.filter fun a => decide (mark a = n + 0)) = [] := by
        rw [List.filter_eq_nil_iff]
        intro a ha hmark
        obtain ⟨l', hl', ha⟩ := List.mem_flatten.mp ha
        obtain ⟨j, hj⟩ := List.mem_iff_getElem?.mp hl'
        have := htail j l' hj a ha
        rw [decide_eq_true_eq] at hmark
        omega
      rw [hrest, List.append_nil, List.filter_eq_self.mpr fun a ha => by simp [hhead a ha]]
      rfl
    | succ i =>
      have hnone : (l.filter fun a => decide (mark a = n + (i + 1))) = [] := by
        rw [List.filter_eq_nil_iff]
        intro a ha
        rw [hhead a ha, decide_eq_true_eq]
        omega
      have hrest := ih htail i
      rw [show n + 1 + i = n + (i + 1) by omega] at hrest
      rw [hnone, List.nil_append, hrest]
      rfl

section Push

/-- Push at the end of bucket `k`. There has to be such a bucket. -/
def push (bs : List (List α)) (k : Nat) (a : α) : Option (List (List α)) :=
  if k < bs.length then some (bs.modify k (· ++ [a])) else none

/-- The buckets after the pushes of `items`. -/
def fill (slot : β → Nat) (value : β → α) (bs : List (List α)) (items : List β) :
    List (List α) :=
  bs.mapIdx fun k b => b ++ (items.filter fun e => slot e = k).map value

variable {slot : β → Nat} {value : β → α}

@[simp] theorem length_fill (bs : List (List α)) (items : List β) :
    (fill slot value bs items).length = bs.length := by
  simp [fill]

@[simp] theorem fill_nil (bs : List (List α)) : fill slot value bs [] = bs := by
  apply mapIdx_eq_self
  intro k b
  rw [List.filter_nil, List.map_nil, List.append_nil]

/-- One push is one more item. -/
theorem fill_cons (bs : List (List α)) (e : β) (items : List β) :
    fill slot value bs (e :: items) =
      fill slot value (bs.modify (slot e) (· ++ [value e])) items := by
  apply List.ext_getElem
  · simp [fill]
  · intro k h₁ h₂
    simp only [fill, List.getElem_mapIdx, List.getElem_modify]
    by_cases he : slot e = k
    · simp [he]
    · simp [he]

/-- If every slot is in range no push fails. -/
theorem foldlM_push {bs : List (List α)} {items : List β} (h : ∀ e ∈ items, slot e < bs.length) :
    items.foldlM (fun bs e => push bs (slot e) (value e)) bs = some (fill slot value bs items) := by
  induction items generalizing bs with
  | nil => simp
  | cons e items ih =>
    rw [List.forall_mem_cons] at h
    rw [List.foldlM_cons, push, if_pos h.1, fill_cons]
    exact ih (by simpa using h.2)

/-- The buckets hold as many items more as were pushed. -/
theorem length_flatten_fill {bs : List (List α)} {items : List β}
    (h : ∀ e ∈ items, slot e < bs.length) :
    (fill slot value bs items).flatten.length = bs.flatten.length + items.length := by
  induction items generalizing bs with
  | nil => simp
  | cons e items ih =>
    rw [List.forall_mem_cons] at h
    have hpush := flatMap_modify_perm (g := id) (f := (· ++ [value e])) h.1 (List.Perm.refl _)
    have hlen := hpush.length_eq
    rw [List.flatMap_id, List.flatMap_id] at hlen
    rw [List.length_append, List.length_singleton] at hlen
    rw [fill_cons, ih (by simpa using h.2), hlen, List.length_cons]
    omega

/-- The content of a bucket that was empty at the start. -/
theorem getElem_fill_replicate {n k : Nat} (items : List β)
    (h : k < (fill slot value (List.replicate n []) items).length) :
    (fill slot value (List.replicate n []) items)[k] =
      (items.filter fun e => slot e = k).map value := by
  simp [fill]

/-- Items with slots in range are counted slot by slot. -/
theorem sum_countP_slot {n : Nat} {items : List β} (h : ∀ e ∈ items, slot e < n) :
    (∑ k ∈ Finset.range n, items.countP fun e => slot e = k) = items.length := by
  induction items with
  | nil => simp
  | cons e items ih =>
    rw [List.forall_mem_cons] at h
    simp only [List.countP_cons, decide_eq_true_eq, Finset.sum_add_distrib, ih h.2,
      List.length_cons, Finset.sum_ite_eq, Finset.mem_range, h.1, if_true]

end Push

section Groups

variable [LinearOrder ι] {key : α → ι}

/-- The items key by key. -/
def groups (key : α → ι) (keys : List ι) (l : List α) : List α :=
  keys.flatMap fun k => l.filter fun a => key a = k

/-- Lists that are sorted by a key and have the same items for every key are equal. -/
theorem eq_of_filter_eq {l₁ l₂ : List α} (h₁ : l₁.Pairwise fun a b => key a ≤ key b)
    (h₂ : l₂.Pairwise fun a b => key a ≤ key b)
    (h : ∀ k, (l₁.filter fun a => key a = k) = l₂.filter fun a => key a = k) : l₁ = l₂ := by
  induction l₁ generalizing l₂ with
  | nil =>
    cases l₂ with
    | nil => rfl
    | cons b l₂ =>
      have hb := h (key b)
      simp at hb
  | cons a l₁ ih =>
    cases l₂ with
    | nil =>
      have ha := h (key a)
      simp at ha
    | cons b l₂ =>
      rw [List.pairwise_cons] at h₁ h₂
      have hba : key b ≤ key a := by
        have hmem : a ∈ (b :: l₂).filter fun c => key c = key a := by
          rw [← h]
          simp
        rcases List.mem_cons.mp (List.mem_of_mem_filter hmem) with rfl | hmem
        · exact le_rfl
        · exact h₂.1 a hmem
      have hab : key a ≤ key b := by
        have hmem : b ∈ (a :: l₁).filter fun c => key c = key b := by
          rw [h]
          simp
        rcases List.mem_cons.mp (List.mem_of_mem_filter hmem) with rfl | hmem
        · exact le_rfl
        · exact h₁.1 b hmem
      have hkey : key a = key b := le_antisymm hab hba
      have hhead := h (key b)
      simp only [List.filter_cons, hkey, decide_true, if_true, List.cons.injEq] at hhead
      obtain ⟨rfl, -⟩ := hhead
      congr 1
      apply ih h₁.2 h₂.2
      intro k
      have hk := h k
      simp only [List.filter_cons] at hk
      split at hk
      · exact (List.cons.inj hk).2
      · exact hk

theorem key_le_trans (a b c : α) (hab : decide (key a ≤ key b) = true)
    (hbc : decide (key b ≤ key c) = true) : decide (key a ≤ key c) = true := by
  rw [decide_eq_true_eq] at hab hbc ⊢
  exact hab.trans hbc

theorem key_le_total (a b : α) : (decide (key a ≤ key b) || decide (key b ≤ key a)) = true := by
  simpa using le_total (key a) (key b)

/-- A stable sort keeps the items of one key as they were. -/
theorem filter_mergeSort (l : List α) (k : ι) :
    ((l.mergeSort fun a b => key a ≤ key b).filter fun a => key a = k) =
      l.filter fun a => key a = k := by
  have hsub : (l.filter fun a => key a = k).Sublist (l.mergeSort fun a b => key a ≤ key b) := by
    apply List.sublist_mergeSort key_le_trans key_le_total _ List.filter_sublist
    rw [List.pairwise_filter]
    apply List.pairwise_of_forall
    intro a b ha hb
    rw [decide_eq_true_eq] at ha hb ⊢
    rw [ha, hb]
  have hfilter := hsub.filter fun a => decide (key a = k)
  rw [List.filter_filter] at hfilter
  simp only [Bool.and_self] at hfilter
  refine (hfilter.eq_of_length ?_).symm
  exact ((List.mergeSort_perm l _).filter _).length_eq.symm

/-- Items that are listed key by key are found again by their key. -/
theorem filter_flatMap_key {f : ι → List α} (hf : ∀ k, ∀ a ∈ f k, key a = k) {keys : List ι}
    (hkeys : keys.Nodup) (k : ι) :
    ((keys.flatMap f).filter fun a => key a = k) = if k ∈ keys then f k else [] := by
  induction keys with
  | nil => rfl
  | cons j keys ih =>
    rw [List.nodup_cons] at hkeys
    rw [List.flatMap_cons, List.filter_append, ih hkeys.2]
    by_cases hkj : k = j
    · subst hkj
      have hall : ((f k).filter fun a => key a = k) = f k :=
        List.filter_eq_self.mpr fun a ha => by simpa using hf k a ha
      rw [hall, if_neg hkeys.1, List.append_nil, if_pos List.mem_cons_self]
    · have hnil : ((f j).filter fun a => key a = k) = [] :=
        List.filter_eq_nil_iff.mpr fun a ha => by simpa [hf j a ha] using Ne.symm hkj
      rw [hnil, List.nil_append]
      simp [hkj]

/-- Items that are listed by increasing keys are sorted by the key. -/
theorem pairwise_flatMap_key {f : ι → List α} (hf : ∀ k, ∀ a ∈ f k, key a = k) {keys : List ι}
    (hkeys : keys.Pairwise (· < ·)) : (keys.flatMap f).Pairwise fun a b => key a ≤ key b := by
  rw [List.pairwise_flatMap]
  constructor
  · intro k _
    rw [List.pairwise_iff_forall_sublist]
    intro a b hab
    rw [hf k a (hab.subset (by simp)), hf k b (hab.subset (by simp))]
  · refine hkeys.imp ?_
    intro j k hjk a ha b hb
    rw [hf j a ha, hf k b hb]
    exact hjk.le

theorem key_of_mem_group (l : List α) (k : ι) : ∀ a ∈ l.filter (fun a => key a = k), key a = k := by
  intro a ha
  simpa using (List.mem_filter.mp ha).2

/-- Grouping by increasing keys is the stable sort by the key. -/
theorem groups_eq_mergeSort {keys : List ι} (hkeys : keys.Pairwise (· < ·)) {l : List α}
    (hmem : ∀ a ∈ l, key a ∈ keys) :
    groups key keys l = l.mergeSort fun a b => key a ≤ key b := by
  apply eq_of_filter_eq (pairwise_flatMap_key (key_of_mem_group l) hkeys)
  · have hsorted := List.pairwise_mergeSort key_le_trans (@key_le_total α ι _ key) l
    exact hsorted.imp fun h => by simpa using h
  · intro k
    rw [filter_mergeSort, filter_flatMap_key (key_of_mem_group l) (hkeys.imp fun h => h.ne)]
    split
    · rfl
    · rename_i hk
      symm
      rw [List.filter_eq_nil_iff]
      intro a ha hak
      rw [decide_eq_true_eq] at hak
      exact hk (hak ▸ hmem a ha)

/-- Grouping loses and duplicates no item. -/
theorem groups_perm {keys : List ι} (hkeys : keys.Pairwise (· < ·)) {l : List α}
    (hmem : ∀ a ∈ l, key a ∈ keys) : (groups key keys l).Perm l := by
  rw [groups_eq_mergeSort hkeys hmem]
  exact List.mergeSort_perm l _

/-- Grouping a list that is sorted by the key changes nothing. -/
theorem groups_eq_self {keys : List ι} (hkeys : keys.Pairwise (· < ·)) {l : List α}
    (hmem : ∀ a ∈ l, key a ∈ keys) (hl : l.Pairwise fun a b => key a ≤ key b) :
    groups key keys l = l := by
  rw [groups_eq_mergeSort hkeys hmem]
  exact List.mergeSort_of_pairwise (hl.imp fun h => by simpa using h)

end Groups

section Ends

/-- Where each of the rows ends that follow each other from `start` on. -/
def ends (start : Nat) : List (List α) → List Nat
  | [] => []
  | r :: rows => (start + r.length) :: ends (start + r.length) rows

@[simp] theorem length_ends (start : Nat) (rows : List (List α)) :
    (ends start rows).length = rows.length := by
  induction rows generalizing start with
  | nil => rfl
  | cons r rows ih => rw [ends, List.length_cons, ih, List.length_cons]

/-- Row `k` starts after the entries of the rows before it. -/
theorem getElem_ends {start k : Nat} {rows : List (List α)}
    (h : k < (start :: ends start rows).length) :
    (start :: ends start rows)[k] = start + (rows.take k).flatten.length := by
  induction rows generalizing start k with
  | nil =>
    cases k with
    | zero => rfl
    | succ k => simp [ends] at h
  | cons r rows ih =>
    cases k with
    | zero => rfl
    | succ k =>
      have hk : k < ((start + r.length) :: ends (start + r.length) rows).length := by
        simpa [ends] using h
      have he := ih hk
      simp only [ends, List.getElem_cons_succ, List.take_succ_cons, List.flatten_cons,
        List.length_append] at he ⊢
      omega

/-- Ends do not decrease. -/
theorem pairwise_ends (start : Nat) (rows : List (List α)) :
    (start :: ends start rows).Pairwise (· ≤ ·) := by
  rw [List.pairwise_iff_getElem]
  intro i j hi hj hij
  rw [getElem_ends hi, getElem_ends hj]
  have hsub : ((rows.take i).flatten).Sublist (rows.take j).flatten :=
    (List.take_sublist_take_left (Nat.le_of_lt hij)).flatten
  exact Nat.add_le_add_left hsub.length_le start

/-- The last row ends where the entries end. -/
theorem getLastD_ends (start d : Nat) (rows : List (List α)) :
    (start :: ends start rows).getLastD d = start + rows.flatten.length := by
  have hlen : rows.length < (start :: ends start rows).length := by simp
  have hlast : (start :: ends start rows).getLastD d = (start :: ends start rows)[rows.length] := by
    rw [List.getLastD_eq_getLast?, List.getLast?_eq_getElem?]
    simp
  rw [hlast, getElem_ends, List.take_length]

/-- The rows can be read back from their entries. -/
theorem slice_ends {rows : List (List α)} {k : Nat} (hk : k < rows.length) :
    (rows.flatten.drop (rows.take k).flatten.length).take
      ((rows.take (k + 1)).flatten.length - (rows.take k).flatten.length) = rows[k] := by
  have hsplit : rows.flatten = (rows.take k).flatten ++ (rows[k] ++ (rows.drop (k + 1)).flatten) := by
    conv_lhs => rw [← List.take_append_drop k rows, List.drop_eq_getElem_cons hk]
    rw [List.flatten_append, List.flatten_cons]
  rw [hsplit, List.drop_left, List.take_succ_eq_append_getElem hk, List.flatten_append,
    List.length_append]
  simp

end Ends

end Buckets
