import Mathlib.Data.List.Basic
import Mathlib.Algebra.Order.BigOperators.Group.List
import Mathlib.Tactic.Ring

/-!
# Lists cut into consecutive blocks

A list of counts cuts a data list into consecutive blocks. `offset` is where a
block starts and `slice` is its content. `upTo` lists what a schedule of passes
has produced: every block a fixed number of times, block after block.
-/

namespace Blocks

variable {α : Type*}

/-- The number of entries before block `b`. -/
def offset (counts : List Nat) (b : Nat) : Nat := (counts.take b).sum

/-- The entries of block `b`. -/
def slice (counts : List Nat) (data : List α) (b : Nat) : List α :=
  (data.drop (offset counts b)).take (counts.getD b 0)

/-- Lines of at most `n` entries hold at most `n` times their number, and that many exactly
if all of them are full. -/
theorem length_flatten_le {n : Nat} {lines : List (List α)} (h : ∀ l ∈ lines, l.length ≤ n) :
    lines.flatten.length ≤ n * lines.length ∧
      (lines.flatten.length = n * lines.length ↔ ∀ l ∈ lines, l.length = n) := by
  induction lines with
  | nil => exact ⟨le_rfl, iff_of_true rfl fun l hl => (List.not_mem_nil hl).elim⟩
  | cons line lines ih =>
    rw [List.forall_mem_cons] at h
    obtain ⟨hle, hfull⟩ := ih h.2
    rw [List.flatten_cons, List.length_append, List.length_cons, Nat.mul_succ,
      List.forall_mem_cons, ← hfull]
    omega

@[simp] theorem offset_zero (counts : List Nat) : offset counts 0 = 0 := by
  simp [offset]

theorem offset_succ {counts : List Nat} {b : Nat} (hb : b < counts.length) :
    offset counts (b + 1) = offset counts b + counts.getD b 0 := by
  simp only [offset, List.take_succ_eq_append_getElem hb, List.sum_append, List.sum_singleton,
    List.getD_eq_getElem?_getD, List.getElem?_eq_getElem hb, Option.getD_some]

theorem drop_eq_getD_cons {counts : List Nat} {b : Nat} (hb : b < counts.length) :
    counts.drop b = counts.getD b 0 :: counts.drop (b + 1) := by
  rw [List.drop_eq_getElem_cons hb, List.getD_eq_getElem?_getD, List.getElem?_eq_getElem hb,
    Option.getD_some]

/-- The last block ends where the counts add up to. -/
theorem offset_add_count_le (counts : List Nat) (b : Nat) :
    offset counts b + counts.getD b 0 ≤ counts.sum := by
  by_cases hb : b < counts.length
  · rw [← offset_succ hb]
    exact (List.take_sublist _ _).sum_le_sum (fun _ _ => Nat.zero_le _)
  · have h : counts.getD b 0 = 0 := by
      rw [List.getD_eq_getElem?_getD, List.getElem?_eq_none (by omega)]
      rfl
    rw [h]
    exact (List.take_sublist _ _).sum_le_sum (fun _ _ => Nat.zero_le _)

/-- Blocks lie inside data as long as the counts say. -/
theorem length_slice {counts : List Nat} {data : List α} {b : Nat}
    (h : counts.sum ≤ data.length) : (slice counts data b).length = counts.getD b 0 := by
  have hle := offset_add_count_le counts b
  rw [slice, List.length_take, List.length_drop]
  omega

/-- Lines of `k` entries cut off one after another list the block again. -/
theorem flatMap_lines (l : List α) (k n : Nat) :
    ((List.range n).flatMap fun d => (l.drop (d * k)).take k) = l.take (n * k) := by
  induction n with
  | zero => simp
  | succ n ih =>
    rw [List.range_succ, List.flatMap_append, ih, List.flatMap_cons, List.flatMap_nil,
      List.append_nil, Nat.succ_mul, List.take_add]

theorem offset_cons_succ (n : Nat) (counts : List Nat) (b : Nat) :
    offset (n :: counts) (b + 1) = n + offset counts b := by
  rw [offset, List.take_succ_cons, List.sum_cons, offset]

theorem length_flatten_map {f : Nat → List α} {counts : List Nat}
    (hf : ∀ n ∈ counts, (f n).length = n) : (counts.map f).flatten.length = counts.sum := by
  rw [List.length_flatten, List.map_map]
  exact congrArg List.sum ((List.map_congr_left hf).trans (List.map_id _))

/-- An entry of a list that is built block by block. -/
theorem getElem?_flatten_map {f : Nat → List α} {counts : List Nat}
    (hf : ∀ n ∈ counts, (f n).length = n) {b t : Nat} (hb : b < counts.length)
    (ht : t < counts.getD b 0) :
    (counts.map f).flatten[offset counts b + t]? = (f (counts.getD b 0))[t]? := by
  induction counts generalizing b with
  | nil => exact absurd hb (Nat.not_lt_zero b)
  | cons n counts ih =>
    rw [List.forall_mem_cons] at hf
    rw [List.map_cons, List.flatten_cons]
    cases b with
    | zero =>
      rw [List.getD_cons_zero] at ht ⊢
      rw [offset_zero, Nat.zero_add, List.getElem?_append_left (ht.trans_eq hf.1.symm)]
    | succ b =>
      rw [List.getD_cons_succ] at ht ⊢
      rw [List.getElem?_append_right (by rw [hf.1, offset_cons_succ]; omega), hf.1,
        offset_cons_succ, ← ih hf.2 (Nat.lt_of_succ_lt_succ hb) ht]
      congr 1
      omega

section Labels

/-- The entries of block `b` replaced by the number `b`, for blocks numbered from `k`. -/
def labelsFrom (k : Nat) (counts : List Nat) : List Nat :=
  (counts.zipIdx k).flatMap fun b => List.replicate b.1 b.2

/-- The block of every entry. -/
def labels (counts : List Nat) : List Nat := labelsFrom 0 counts

theorem labelsFrom_cons (k n : Nat) (counts : List Nat) :
    labelsFrom k (n :: counts) = List.replicate n k ++ labelsFrom (k + 1) counts := by
  rw [labelsFrom, List.zipIdx_cons, List.flatMap_cons]
  rfl

theorem length_labelsFrom (k : Nat) (counts : List Nat) :
    (labelsFrom k counts).length = counts.sum := by
  induction counts generalizing k with
  | nil => rfl
  | cons n counts ih =>
    rw [labelsFrom_cons, List.length_append, List.length_replicate, ih, List.sum_cons]

/-- An entry has the number of the block it lies in. -/
theorem getElem?_labelsFrom (k : Nat) (counts : List Nat) (x b : Nat) :
    (labelsFrom k counts)[x]? = some (k + b) ↔
      b < counts.length ∧ offset counts b ≤ x ∧ x < offset counts b + counts.getD b 0 := by
  induction counts generalizing k x b with
  | nil => simp [labelsFrom]
  | cons n counts ih =>
    rw [labelsFrom_cons, List.getElem?_append, List.length_replicate]
    cases b with
    | zero =>
      by_cases hx : x < n
      · simp [hx]
      · have hne : (labelsFrom (k + 1) counts)[x - n]? ≠ some k := by
          intro h
          obtain ⟨b, hb, hk⟩ := List.mem_flatMap.mp (List.mem_of_getElem? h)
          have hle := List.le_snd_of_mem_zipIdx hb
          rw [(List.mem_replicate.mp hk).2] at hle
          omega
        simp [hx, hne]
    | succ b =>
      have hcount : (n :: counts).getD (b + 1) 0 = counts.getD b 0 := List.getD_cons_succ
      rw [offset_cons_succ, hcount, List.length_cons]
      split
      · rename_i hx
        rw [List.getElem?_replicate_of_lt hx]
        refine iff_of_false ?_ ?_
        · simp
        · omega
      · rw [show k + (b + 1) = k + 1 + b by omega, ih]
        omega

theorem length_labels (counts : List Nat) : (labels counts).length = counts.sum :=
  length_labelsFrom 0 counts

theorem getElem?_labels (counts : List Nat) (x b : Nat) :
    (labels counts)[x]? = some b ↔
      b < counts.length ∧ offset counts b ≤ x ∧ x < offset counts b + counts.getD b 0 := by
  have h := getElem?_labelsFrom 0 counts x b
  rwa [Nat.zero_add] at h

/-- Every entry lies in a block. -/
theorem exists_block {counts : List Nat} {x : Nat} (hx : x < counts.sum) :
    ∃ b < counts.length, offset counts b ≤ x ∧ x < offset counts b + counts.getD b 0 := by
  rw [← length_labels] at hx
  exact ⟨(labels counts)[x], (getElem?_labels _ _ _).mp (List.getElem?_eq_getElem hx)⟩

/-- The numbers do not decrease. -/
theorem pairwise_labels (counts : List Nat) : (labels counts).Pairwise (· ≤ ·) := by
  refine List.pairwise_flatMap.mpr ⟨?_, ?_⟩
  · intro b _
    exact List.pairwise_replicate.mpr (Or.inr le_rfl)
  · refine List.pairwise_iff_getElem.mpr fun i j hi hj hij x hx y hy => ?_
    rw [(List.mem_replicate.mp hx).2, (List.mem_replicate.mp hy).2, List.getElem_zipIdx,
      List.getElem_zipIdx]
    exact Nat.add_le_add_left hij.le 0

end Labels

/-- What the passes before pass `p` over block `b` produce, when every block is passed
over `w` times and pass `p` over block `b` produces `piece b p`. -/
def upTo (piece : Nat → Nat → List α) (w b p : Nat) : List α :=
  ((List.range b).flatMap fun b => (List.range w).flatMap (piece b)) ++
    (List.range p).flatMap (piece b)

@[simp] theorem upTo_zero (piece : Nat → Nat → List α) (w : Nat) : upTo piece w 0 0 = [] := rfl

/-- One more pass over the block. -/
theorem upTo_succ (piece : Nat → Nat → List α) (w b p : Nat) :
    upTo piece w b (p + 1) = upTo piece w b p ++ piece b p := by
  simp only [upTo, List.range_succ, List.flatMap_append, List.flatMap_cons, List.flatMap_nil,
    List.append_nil, List.append_assoc]

/-- After its last pass the block is finished. -/
theorem upTo_last (piece : Nat → Nat → List α) (w b : Nat) :
    upTo piece w b w = upTo piece w (b + 1) 0 := by
  simp only [upTo, List.range_succ, List.flatMap_append, List.flatMap_cons, List.flatMap_nil,
    List.append_nil, List.range_zero]

theorem upTo_prefix_block (piece : Nat → Nat → List α) {w b p : Nat} (hp : p ≤ w) :
    upTo piece w b p <+: upTo piece w (b + 1) 0 := by
  rw [← upTo_last]
  obtain ⟨k, rfl⟩ := Nat.exists_eq_add_of_le hp
  rw [upTo, upTo, List.range_add, List.flatMap_append, ← List.append_assoc]
  exact List.prefix_append _ _

theorem upTo_prefix_of_le (piece : Nat → Nat → List α) {w b c : Nat} (h : b ≤ c) :
    upTo piece w b 0 <+: upTo piece w c 0 := by
  induction c, h using Nat.le_induction with
  | base => exact List.prefix_rfl
  | succ c _ ih => exact ih.trans (upTo_prefix_block piece (Nat.zero_le w))

/-- Entries with one key are all found by it, and by no other key. -/
theorem filter_of_key {l : List α} {key : α → Nat} {b : Nat} (h : ∀ e ∈ l, key e = b) (c : Nat) :
    l.filter (fun e => key e = c) = if c = b then l else [] := by
  split
  · rename_i hc
    exact List.filter_eq_self.mpr fun e he => by simp [h e he, hc]
  · rename_i hc
    exact List.filter_eq_nil_iff.mpr fun e he => by simpa [h e he] using Ne.symm hc

/-- Entries that carry their block number can be found again by it. -/
theorem filter_flatMap_range {f : Nat → List α} {key : α → Nat}
    (hkey : ∀ b, ∀ e ∈ f b, key e = b) (n c : Nat) :
    ((List.range n).flatMap f).filter (fun e => key e = c) = if c < n then f c else [] := by
  induction n with
  | zero => rfl
  | succ n ih =>
    rw [List.range_succ, List.flatMap_append, List.filter_append, ih]
    simp only [List.flatMap_cons, List.flatMap_nil, List.append_nil, filter_of_key (hkey n)]
    rcases Nat.lt_trichotomy c n with h | h | h
    · rw [if_pos h, if_neg (by omega), if_pos (by omega), List.append_nil]
    · subst h
      rw [if_neg (by omega), if_pos rfl, if_pos (by omega), List.nil_append]
    · rw [if_neg (by omega), if_neg (by omega), if_neg (by omega), List.append_nil]

section Schedule

variable {piece : Nat → Nat → List α} {block pass : α → Nat}

theorem filter_block_pass (l : List α) (c q : Nat) :
    (l.filter fun e => block e = c ∧ pass e = q) =
      (l.filter fun e => block e = c).filter fun e => pass e = q := by
  rw [List.filter_filter]
  exact List.filter_congr fun e _ => by simp [Bool.and_comm, Bool.decide_and]

/-- What a schedule inside pass `p` over block `b` has produced in pass `q` over block
`c`: all of it, the part produced so far, or nothing. -/
theorem filter_upTo (hblock : ∀ b p, ∀ e ∈ piece b p, block e = b)
    (hpass : ∀ b p, ∀ e ∈ piece b p, pass e = p) (w b p k c q : Nat) :
    ((upTo piece w b p ++ (piece b p).take k).filter fun e => block e = c ∧ pass e = q) =
      if c < b ∧ q < w ∨ c = b ∧ q < p then piece c q
      else if c = b ∧ q = p then (piece c q).take k else [] := by
  have hmem : ∀ b n, ∀ e ∈ (List.range n).flatMap (piece b), block e = b := by
    intro b n e he
    obtain ⟨p', -, he⟩ := List.mem_flatMap.mp he
    exact hblock b p' e he
  have htake : ∀ e ∈ (piece b p).take k, block e = b ∧ pass e = p := fun e he =>
    ⟨hblock b p e (List.mem_of_mem_take he), hpass b p e (List.mem_of_mem_take he)⟩
  have hblocks := filter_flatMap_range (hmem · w) b c
  have hpasses := filter_of_key (hmem b p) c
  have hcurrent := filter_of_key (fun e he => (htake e he).1) c
  rw [upTo, filter_block_pass]
  simp only [List.filter_append]
  rw [hblocks, hpasses, hcurrent]
  rcases Nat.lt_trichotomy c b with hc | hc | hc
  · rw [if_pos hc, if_neg (by omega), if_neg (by omega), filter_flatMap_range (hpass c)]
    simp [hc, Nat.ne_of_lt hc]
  · subst hc
    rw [if_neg (by omega), if_pos rfl, if_pos rfl, filter_flatMap_range (hpass c),
      filter_of_key fun e he => (htake e he).2]
    rcases Nat.lt_trichotomy q p with hq | hq | hq
    · simp [hq, Nat.ne_of_lt hq]
    · simp [hq]
    · simp [Nat.not_lt.mpr hq.le, Nat.ne_of_gt hq]
  · simp [Nat.not_lt.mpr hc.le, Nat.ne_of_gt hc]

end Schedule

end Blocks
