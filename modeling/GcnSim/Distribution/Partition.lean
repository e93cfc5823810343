import GcnSim.Core.Distributer
import GcnSim.Lib.Cuts
import Mathlib.Data.List.Count

/-!
# Edge-balanced distribution

`Distribute` partitions the matrix exactly when its `int` variables hold what they count and
the rows can be cut for all units but the last into groups of at least `unit_edge` edges with
an edge left over for the last unit. Otherwise columns of a wide row stay behind, or the edges
run out early: the unit that took the last edge also takes all rows that remain, and the next
unit reads an empty queue.
-/

namespace GcnSim.Distributer

/-- The last of sorted pointers is not below any other. -/
theorem le_getLastD_of_mem {x v : Nat} {xs : List Nat} (h : (x :: xs).Pairwise (· ≤ ·))
    (hv : v ∈ x :: xs) : v ≤ xs.getLastD x := by
  induction xs generalizing x v with
  | nil => exact (List.mem_singleton.mp hv).le
  | cons y ys ih =>
    obtain ⟨hx, hsorted⟩ := List.pairwise_cons.mp h
    rw [List.getLastD_cons]
    rcases List.mem_cons.mp hv with rfl | hv
    · exact (hx y List.mem_cons_self).trans (ih hsorted List.mem_cons_self)
    · exact ih hsorted hv

/-- `col_size` is the number of columns of the row, wrapped to an `int`. -/
theorem colSize_eq {before back : Nat} (h : before ≤ back) :
    colSize before back = int32 (back - before : Nat) := by
  have hu64 : u64Size = 18446744073709551616 := rfl
  unfold colSize intOfU64 u64OfInt u64Sub int32
  split <;> split <;> split <;> omega

theorem colSize_unit {last p x : Nat} {adjrow : List Nat} (hlast : last ≤ p) (hpx : p ≤ x)
    (hback : adjrow.getLastD 0 = p - last) :
    colSize (adjrow.getLastD 0) (x - last) = int32 (x - p : Nat) := by
  rw [hback, colSize_eq (by omega), show x - last - (p - last) = x - p by omega]

/-- No row between the pointers has `2 ^ 31` columns. -/
def Narrow (pointers : List Nat) : Prop := pointers.IsChain fun u v => v - u < 2147483648

/-- One round of the loop, at pointer `p`. -/
theorem fill_cons (unitEdge : Nat) (xs adjcol : List Nat) {last x p row : Nat}
    {cols adjrow : List Nat} (hlast : last ≤ p) (hpx : p ≤ x) (hwide : x - p < 2147483648)
    (hrow : row < intMax) (hback : adjrow.getLastD 0 = p - last) (hfit : x - p ≤ cols.length) :
    fill unitEdge last (x :: xs) cols row adjrow adjcol =
      if cols.drop (x - p) = [] then
        some (adjrow ++ [x - last] ++ xs.map (· - last), adjcol ++ cols.take (x - p),
          ⟨[], [], last, row + 1⟩)
      else if unitEdge ≤ x - last then
        some (adjrow ++ [x - last], adjcol ++ cols.take (x - p),
          ⟨xs, cols.drop (x - p), x, row + 1⟩)
      else fill unitEdge last xs (cols.drop (x - p)) (row + 1) (adjrow ++ [x - last])
        (adjcol ++ cols.take (x - p)) := by
  have hsize : (colSize (adjrow.getLastD 0) (x - last)).toNat = x - p := by
    rw [colSize_unit hlast hpx hback, int32_of_lt hwide, Int.toNat_natCast]
  have hnext : last + (x - last) = x := by omega
  rw [fill]
  simp only [hsize, if_neg (not_or.mpr ⟨Nat.not_le.mpr hrow, Nat.not_lt.mpr hfit⟩), hnext]

/-- A unit that starts at pointer `last` and stands at pointer `p` takes all that is left. -/
def TakesAll (unitEdge last : Nat) (xs : List Nat) (p : Nat) (cols : List Nat) (row : Nat)
    (adjrow adjcol : List Nat) : Prop :=
  ∃ j, 0 < j ∧ (∀ v ∈ xs, last + unitEdge ≤ v → xs.getLastD p ≤ v) ∧
    fill unitEdge last xs cols row adjrow adjcol = some (adjrow ++ xs.map (· - last),
      adjcol ++ cols, ⟨[], [], last, row + j⟩)

/-- It takes the rows up to the first pointer `unitEdge` after `last`. -/
def TakesUpTo (unitEdge last : Nat) (xs : List Nat) (p : Nat) (cols : List Nat) (row : Nat)
    (adjrow adjcol : List Nat) : Prop :=
  ∃ ys v zs, xs = ys ++ v :: zs ∧ (∀ y ∈ ys, y < last + unitEdge) ∧ last + unitEdge ≤ v ∧
    v < xs.getLastD p ∧
    fill unitEdge last xs cols row adjrow adjcol = some
      (adjrow ++ (ys ++ [v]).map (· - last), adjcol ++ cols.take (v - p),
        ⟨zs, cols.drop (v - p), v, row + ys.length + 1⟩)

section Cons

variable {unitEdge last x p row : Nat} {xs cols adjrow adjcol : List Nat}
  (hstep : fill unitEdge last (x :: xs) cols row adjrow adjcol =
    fill unitEdge last xs (cols.drop (x - p)) (row + 1) (adjrow ++ [x - last])
      (adjcol ++ cols.take (x - p)))
  (hnear : x < last + unitEdge)
include hstep hnear

/-- A row that does not fill the unit is taken with all the others. -/
theorem TakesAll.cons (h : TakesAll unitEdge last xs x (cols.drop (x - p)) (row + 1)
    (adjrow ++ [x - last]) (adjcol ++ cols.take (x - p))) :
    TakesAll unitEdge last (x :: xs) p cols row adjrow adjcol := by
  obtain ⟨j, hj, hall, heq⟩ := h
  refine ⟨j + 1, Nat.succ_pos j, ?_, ?_⟩
  · intro v hv hge
    rw [List.getLastD_cons]
    rcases List.mem_cons.mp hv with rfl | hv
    · exact absurd hge (Nat.not_le.mpr hnear)
    · exact hall v hv hge
  · rw [hstep, heq]
    simp only [List.append_assoc, List.singleton_append, List.map_cons, List.take_append_drop,
      Option.some.injEq, Prod.mk.injEq, Remaining.mk.injEq, true_and]
    omega

/-- A row that does not fill the unit is taken with those up to the next cut. -/
theorem TakesUpTo.cons (hpx : p ≤ x) (hsorted : (x :: xs).Pairwise (· ≤ ·))
    (h : TakesUpTo unitEdge last xs x (cols.drop (x - p)) (row + 1)
      (adjrow ++ [x - last]) (adjcol ++ cols.take (x - p))) :
    TakesUpTo unitEdge last (x :: xs) p cols row adjrow adjcol := by
  obtain ⟨ys, v, zs, rfl, hys, hv, hlt, heq⟩ := h
  have hxv : x ≤ v := (List.pairwise_cons.mp hsorted).1 v (by simp)
  refine ⟨x :: ys, v, zs, rfl, ?_, hv, ?_, ?_⟩
  · intro y hy
    rcases List.mem_cons.mp hy with rfl | hy
    · exact hnear
    · exact hys y hy
  · rwa [List.getLastD_cons]
  · have htake : cols.take (x - p) ++ (cols.drop (x - p)).take (v - x) = cols.take (v - p) := by
      rw [← List.take_add]
      congr 1
      omega
    rw [hstep, heq, List.append_assoc adjcol, htake, List.drop_drop,
      show x - p + (v - x) = v - p by omega]
    simp only [List.append_assoc, List.cons_append, List.nil_append, List.map_cons,
      List.length_cons, Option.some.injEq, Prod.mk.injEq, Remaining.mk.injEq, true_and]
    omega

end Cons

/-- What one unit takes, starting at pointer `last` and standing at pointer `p`, as long as no
`int` overflows. -/
theorem fill_spec (unitEdge last : Nat) {xs : List Nat} {p : Nat} (cols : List Nat) {row : Nat}
    (adjrow adjcol : List Nat) (hne : xs ≠ []) (hsorted : (p :: xs).Pairwise (· ≤ ·))
    (hnarrow : Narrow (p :: xs)) (hroom : row + xs.countP (· < xs.getLastD p) < intMax)
    (hlast : last ≤ p) (hback : adjrow.getLastD 0 = p - last)
    (hcols : cols.length = xs.getLastD p - p) :
    TakesAll unitEdge last xs p cols row adjrow adjcol ∨
      TakesUpTo unitEdge last xs p cols row adjrow adjcol := by
  induction xs generalizing p cols row adjrow adjcol with
  | nil => exact absurd rfl hne
  | cons x xs ih =>
    obtain ⟨hp, hsorted'⟩ := List.pairwise_cons.mp hsorted
    obtain ⟨hwide, hnarrow'⟩ := List.isChain_cons_cons.mp hnarrow
    have hpx : p ≤ x := hp x (by simp)
    rw [List.getLastD_cons] at hcols hroom
    have hxlast := le_getLastD_of_mem hsorted' List.mem_cons_self
    have hround := fill_cons unitEdge xs adjcol hlast hpx hwide
      ((Nat.le_add_right row _).trans_lt hroom) hback (by omega : x - p ≤ cols.length)
    by_cases hdone : cols.drop (x - p) = []
    · have hlen := congrArg List.length hdone
      rw [List.length_drop, List.length_nil] at hlen
      have hend : xs.getLastD x = x := by omega
      rw [if_pos hdone] at hround
      refine Or.inl ⟨1, Nat.one_pos, ?_, ?_⟩
      · intro v hv _
        rw [List.getLastD_cons, hend]
        rcases List.mem_cons.mp hv with rfl | hv
        · exact le_rfl
        · exact (List.pairwise_cons.mp hsorted').1 v hv
      · rw [hround, List.take_of_length_le (by omega)]
        simp
    · have hmore : x < xs.getLastD x := by
        have hpos : 0 < (cols.drop (x - p)).length := List.length_pos_iff.mpr hdone
        rw [List.length_drop] at hpos
        omega
      rw [if_neg hdone] at hround
      by_cases hcut : unitEdge ≤ x - last
      · rw [if_pos hcut] at hround
        refine Or.inr ⟨[], x, xs, rfl, by simp, by omega, ?_, hround⟩
        rwa [List.getLastD_cons]
      · have hxs : xs ≠ [] := by
          rintro rfl
          exact absurd hmore (Nat.lt_irrefl x)
        rw [if_neg hcut] at hround
        have hnear : x < last + unitEdge := by omega
        have hroom' : row + 1 + xs.countP (· < xs.getLastD x) < intMax := by
          rw [List.countP_cons_of_pos (by simpa using hmore)] at hroom
          omega
        rcases ih (cols.drop (x - p)) (adjrow ++ [x - last]) (adjcol ++ cols.take (x - p)) hxs
          hsorted' hnarrow' hroom' (by omega) (by simp) (by rw [List.length_drop]; omega)
          with hall | hup
        · exact Or.inl (hall.cons hround hnear)
        · exact Or.inr (hup.cons hround hnear hpx hsorted')

/-- The row pointers of the units put together again: every unit counts its edges from
zero, so the edges given to the units before are added back. -/
def rebase : Nat → List UnitShare → List Nat
  | _, [] => []
  | edges, u :: us =>
    u.adjrowindex.tail.map (· + edges) ++ rebase (edges + u.adjcolindex.length) us

/-- The rows of a unit. -/
def UnitShare.rowRange (u : UnitShare) : List Nat :=
  List.range' u.rowStart (u.rowEnd + 1 - u.rowStart)

/-- The shares partition what remains. -/
structure PartitionsFrom (s : Remaining) (us : List UnitShare) : Prop where
  cols : (us.map (·.adjcolindex)).flatten = s.tmpAdjcol
  starts : ∀ u ∈ us, u.adjrowindex.head? = some 0
  rows : rebase s.last us = s.tmpAdjrow
  nonempty : ∀ u ∈ us, u.rowStart ≤ u.rowEnd
  ranges : (us.map (·.rowRange)).flatten = List.range' s.row s.tmpAdjrow.length

/-- The queues between two units belong together, and the rows that remain fit in the `int`
variables. -/
structure Remaining.Matches (s : Remaining) : Prop where
  sorted : (s.last :: s.tmpAdjrow).Pairwise (· ≤ ·)
  cols : s.tmpAdjcol.length = s.tmpAdjrow.getLastD s.last - s.last
  narrow : Narrow (s.last :: s.tmpAdjrow)
  room : s.row + s.tmpAdjrow.countP (· < s.tmpAdjrow.getLastD s.last) < intMax

theorem map_sub_add {last : Nat} {xs : List Nat} (h : ∀ x ∈ xs, last ≤ x) :
    (xs.map (· - last)).map (· + last) = xs := by
  rw [List.map_map]
  conv_rhs => rw [← List.map_id xs]
  exact List.map_congr_left fun x hx => Nat.sub_add_cancel (h x hx)

/-- A unit that takes all that is left leaves nothing for the next. -/
theorem fillUnits_nil (unitEdge n : Nat) (cols : List Nat) (last row : Nat) :
    fillUnits unitEdge (n + 1) ⟨[], cols, last, row⟩ = none := by
  simp [fillUnits, fill]

/-- One more unit in front of a partition of the rest. -/
theorem PartitionsFrom.cons {s : Remaining} (hs : s.Matches) {ys zs : List Nat} {v : Nat}
    (hxs : s.tmpAdjrow = ys ++ v :: zs) (hv : v ≤ s.tmpAdjrow.getLastD s.last)
    (axwCount : Nat) {us : List UnitShare}
    (h : PartitionsFrom ⟨zs, s.tmpAdjcol.drop (v - s.last), v, s.row + ys.length + 1⟩ us) :
    PartitionsFrom s (⟨[0] ++ (ys ++ [v]).map (· - s.last), s.tmpAdjcol.take (v - s.last), s.row,
      s.row + ys.length, axwCount⟩ :: us) where
  cols := by
    rw [List.map_cons, List.flatten_cons, h.cols]
    exact List.take_append_drop _ _
  starts := by
    intro u hu
    rcases List.mem_cons.mp hu with rfl | hu
    · rfl
    · exact h.starts u hu
  rows := by
    have hle : ∀ x ∈ ys ++ [v], s.last ≤ x := by
      intro x hx
      apply (List.pairwise_cons.mp hs.sorted).1
      rw [hxs]
      rcases List.mem_append.mp hx with hx | hx
      · exact List.mem_append_left _ hx
      · rw [List.mem_singleton.mp hx]
        exact List.mem_append_right _ List.mem_cons_self
    have hlast : s.last ≤ v := hle v (List.mem_append_right _ (List.mem_singleton_self v))
    have hlen : (s.tmpAdjcol.take (v - s.last)).length = v - s.last := by
      rw [List.length_take, hs.cols]
      omega
    have hrest := h.rows
    simp only [rebase, List.singleton_append, List.tail_cons]
    rw [map_sub_add hle, hlen, Nat.add_sub_cancel' hlast, hrest, hxs, List.append_assoc]
    rfl
  nonempty := by
    intro u hu
    rcases List.mem_cons.mp hu with rfl | hu
    · exact Nat.le_add_right _ _
    · exact h.nonempty u hu
  ranges := by
    have hrest := h.ranges
    rw [List.map_cons, List.flatten_cons, hrest, UnitShare.rowRange, hxs, List.length_append,
      List.length_cons]
    simp only
    rw [show s.row + ys.length + 1 - s.row = ys.length + 1 by omega,
      show s.row + ys.length + 1 = s.row + (ys.length + 1) by omega, List.range'_append_1]
    congr 1
    omega

/-- The last unit takes all that is left. -/
theorem PartitionsFrom.last {s : Remaining} (hs : s.Matches) (hne : s.tmpAdjrow ≠ [])
    (axwCount : Nat) :
    PartitionsFrom s [⟨[0] ++ s.tmpAdjrow.map (· - s.last), s.tmpAdjcol, s.row,
      s.row + s.tmpAdjrow.length - 1, axwCount⟩] where
  cols := by simp
  starts := by simp
  rows := by
    simp only [rebase, List.singleton_append, List.tail_cons, List.append_nil]
    exact map_sub_add (List.pairwise_cons.mp hs.sorted).1
  nonempty := by
    have hpos := List.length_pos_iff.mpr hne
    intro u hu
    rw [List.mem_singleton.mp hu]
    simp only
    omega
  ranges := by
    have hpos := List.length_pos_iff.mpr hne
    simp only [List.map_cons, List.map_nil, List.flatten_cons, List.flatten_nil, List.append_nil,
      UnitShare.rowRange]
    congr 1
    omega

theorem setLastEnd_cons (rowEnd : Nat) (u : UnitShare) {us : List UnitShare} (h : us ≠ []) :
    setLastEnd rowEnd (u :: us) = u :: setLastEnd rowEnd us := by
  cases us with
  | nil => exact absurd rfl h
  | cons u' us => rfl

/-- The rows that remain can be cut for `n` units, with an edge left over after them. -/
def Cuttable (unitEdge n : Nat) (s : Remaining) : Prop :=
  s.tmpAdjrow ≠ [] ∧ (n = 0 ∨
    Cuts.Exists unitEdge s.tmpAdjrow s.last n (s.tmpAdjrow.getLastD s.last))

/-- The last row pointer is also the last one behind a cut. -/
theorem getLastD_cut (ys : List Nat) (v : Nat) (zs : List Nat) (a : Nat) :
    (ys ++ v :: zs).getLastD a = zs.getLastD v := by
  simp [List.getLastD_eq_getLast?, List.getLast?_cons]

/-- The queues belong together behind a cut with edges after it. -/
theorem Remaining.Matches.cut {s : Remaining} (hs : s.Matches) {ys zs : List Nat} {v : Nat}
    (hxs : s.tmpAdjrow = ys ++ v :: zs) (hlt : v < zs.getLastD v) :
    Remaining.Matches ⟨zs, s.tmpAdjcol.drop (v - s.last), v, s.row + ys.length + 1⟩ := by
  obtain ⟨hlast, hsorted⟩ := List.pairwise_cons.mp hs.sorted
  rw [hxs] at hlast hsorted
  obtain ⟨-, hsorted', hys⟩ := List.pairwise_append.mp hsorted
  constructor
  case sorted => exact hsorted'
  case cols =>
    have hv : s.last ≤ v := hlast v (List.mem_append_right ys List.mem_cons_self)
    change (s.tmpAdjcol.drop (v - s.last)).length = zs.getLastD v - v
    rw [List.length_drop, hs.cols, hxs, getLastD_cut]
    omega
  case narrow =>
    have hnarrow := hs.narrow
    rw [hxs, ← List.cons_append] at hnarrow
    exact hnarrow.right_of_append
  case room =>
    have hroom := hs.room
    have hall : ys.countP (· < zs.getLastD v) = ys.length := List.countP_eq_length.mpr
      fun y hy => decide_eq_true ((hys y hy v List.mem_cons_self).trans_lt hlt)
    rw [hxs, getLastD_cut, List.countP_append, List.countP_cons_of_pos (by simpa using hlt),
      hall] at hroom
    change s.row + ys.length + 1 + zs.countP (· < zs.getLastD v) < intMax
    omega

/-- The first cut may be taken at the first row pointer that is far enough. -/
theorem cuttable_succ_iff {unitEdge n : Nat} (hgap : 0 < unitEdge) {s : Remaining}
    (hs : s.Matches) {ys zs : List Nat} {v : Nat} (hxs : s.tmpAdjrow = ys ++ v :: zs)
    (hys : ∀ y ∈ ys, y < s.last + unitEdge) (hv : s.last + unitEdge ≤ v)
    (hlt : v < zs.getLastD v) :
    Cuttable unitEdge (n + 1) s ↔ Cuttable unitEdge n
      ⟨zs, s.tmpAdjcol.drop (v - s.last), v, s.row + ys.length + 1⟩ := by
  have hsorted := (List.pairwise_cons.mp hs.sorted).2
  rw [hxs] at hsorted
  have hzs : zs ≠ [] := by
    rintro rfl
    exact absurd hlt (Nat.lt_irrefl v)
  have hsucc : Cuts.Exists unitEdge (ys ++ v :: zs) s.last (n + 1) (zs.getLastD v) ↔
      Cuts.Exists unitEdge zs v n (zs.getLastD v) := Cuts.exists_succ_iff hgap hsorted hys hv
  simp only [Cuttable, hxs, getLastD_cut, hzs, List.append_ne_nil_of_right_ne_nil,
    List.cons_ne_nil, ne_eq, not_false_eq_true, true_and, Nat.succ_ne_zero, false_or, hsucc]
  constructor
  · exact Or.inr
  · rintro (rfl | h)
    · exact (Cuts.exists_zero _ _ _ _).mpr hlt
    · exact h

/-- The units partition what remains if it can be cut for all but the last of them, and
otherwise some unit reads an empty queue. -/
theorem fillUnits_spec (unitEdge n : Nat) {s : Remaining} (hs : s.Matches)
    (hcap : s.tmpAdjrow.getLastD s.last - s.last ≤ (n + 1) * unitEdge) :
    (Cuttable unitEdge n s ∧ ∃ us, us ≠ [] ∧ fillUnits unitEdge (n + 1) s = some us ∧
      PartitionsFrom s (setLastEnd (s.row + s.tmpAdjrow.length - 1) us)) ∨
    (¬ Cuttable unitEdge n s ∧ fillUnits unitEdge (n + 1) s = none) := by
  induction n generalizing s with
  | zero =>
    by_cases hne : s.tmpAdjrow = []
    · refine Or.inr ⟨fun hc => hc.1 hne, ?_⟩
      simp [fillUnits, hne, fill]
    · rcases fill_spec unitEdge s.last s.tmpAdjcol [0] [] hne hs.sorted hs.narrow hs.room le_rfl
        (by simp) hs.cols with ⟨j, -, -, heq⟩ | ⟨ys, v, zs, -, -, hv, hlt, -⟩
      · refine Or.inl ⟨⟨hne, Or.inl rfl⟩, _, ?_, by simp only [fillUnits, heq]; rfl, ?_⟩
        · simp
        · exact PartitionsFrom.last hs hne _
      · omega
  | succ n ih =>
    by_cases hne : s.tmpAdjrow = []
    · refine Or.inr ⟨fun hc => hc.1 hne, ?_⟩
      rw [fillUnits, hne, fill]
    · rcases fill_spec unitEdge s.last s.tmpAdjcol [0] [] hne hs.sorted hs.narrow hs.room le_rfl
        (by simp) hs.cols with ⟨j, -, hall, heq⟩ | ⟨ys, v, zs, hxs, hys, hv, hlt, heq⟩
      · refine Or.inr ⟨?_, ?_⟩
        · rintro ⟨-, hzero | hcuts⟩
          · exact absurd hzero (Nat.succ_ne_zero n)
          · exact Cuts.not_exists_succ hall hcuts
        · rw [fillUnits, heq]
          simp only [fillUnits_nil, Option.map_none]
      · have htotal : s.tmpAdjrow.getLastD s.last = zs.getLastD v := by
          rw [hxs, getLastD_cut]
        rw [htotal] at hlt
        have hmul : (n + 1 + 1) * unitEdge = (n + 1) * unitEdge + unitEdge := Nat.succ_mul _ _
        have hgap : 0 < unitEdge := by
          by_contra hz
          rw [Nat.eq_zero_of_not_pos hz, Nat.mul_zero] at hcap
          omega
        have hcuts := cuttable_succ_iff (n := n) hgap hs hxs hys hv hlt
        rcases ih (hs.cut hxs hlt) (by simp only; omega) with
          ⟨hcut, us, hus, hfill, hpart⟩ | ⟨hcut, hfill⟩
        · have hend : s.row + ys.length + 1 + zs.length - 1 =
              s.row + s.tmpAdjrow.length - 1 := by
            rw [hxs, List.length_append, List.length_cons]
            omega
          simp only [hend] at hpart
          have hunits : fillUnits unitEdge (n + 1 + 1) s = some
              (⟨[0] ++ (ys ++ [v]).map (· - s.last), s.tmpAdjcol.take (v - s.last), s.row,
                s.row + ys.length, ([0] ++ (ys ++ [v]).map (· - s.last)).length - 1⟩ :: us) := by
            rw [fillUnits, heq]
            simp only [hfill, Option.map_some, Nat.add_sub_cancel, List.nil_append]
          refine Or.inl ⟨hcuts.mpr hcut, _, List.cons_ne_nil _ _, hunits, ?_⟩
          rw [setLastEnd_cons _ _ hus]
          exact PartitionsFrom.cons hs hxs (htotal ▸ hlt.le) _ hpart
        · refine Or.inr ⟨fun hc => hcut (hcuts.mp hc), ?_⟩
          rw [fillUnits, heq]
          simp only [hfill, Option.map_none]

section Taken

/-- The columns that the loop takes of the rows of `xs` when it stands at pointer `p`. -/
def taken : Nat → List Nat → Nat
  | _, [] => 0
  | p, x :: xs => (int32 (x - p : Nat)).toNat + taken x xs

theorem toNat_int32_le (n : Nat) :
    (int32 n).toNat ≤ n ∧ (n ≤ (int32 n).toNat → n < 2147483648) := by
  rw [int32]
  omega

/-- No more columns are taken than there are, and not all of them if a row is too wide. -/
theorem taken_le {p : Nat} {xs : List Nat} (h : (p :: xs).Pairwise (· ≤ ·)) :
    taken p xs ≤ xs.getLastD p - p ∧ (xs.getLastD p - p ≤ taken p xs → Narrow (p :: xs)) := by
  induction xs generalizing p with
  | nil => exact ⟨Nat.zero_le _, fun _ => List.isChain_singleton p⟩
  | cons x xs ih =>
    obtain ⟨hp, hsorted⟩ := List.pairwise_cons.mp h
    have hpx : p ≤ x := hp x List.mem_cons_self
    have hlast := le_getLastD_of_mem hsorted List.mem_cons_self
    obtain ⟨hle, hnarrow⟩ := ih hsorted
    obtain ⟨hrow, hwide⟩ := toNat_int32_le (x - p)
    rw [List.getLastD_cons, taken]
    refine ⟨by omega, fun hall => ?_⟩
    exact List.isChain_cons_cons.mpr ⟨hwide (by omega), hnarrow (by omega)⟩

theorem taken_take_le (p n : Nat) (xs : List Nat) : taken p (xs.take n) ≤ taken p xs := by
  induction xs generalizing p n with
  | nil => rw [List.take_nil]
  | cons x xs ih =>
    cases n with
    | zero => exact Nat.zero_le _
    | succ n => exact Nat.add_le_add_left (ih x n) _

/-- What a unit takes, it takes of the rows that `row` can count. -/
theorem fill_taken {unitEdge last : Nat} {xs : List Nat} {p row : Nat}
    {cols adjrow adjcol adjrow' adjcol' : List Nat} {s' : Remaining}
    (hsorted : (p :: xs).Pairwise (· ≤ ·)) (hlast : last ≤ p)
    (hback : adjrow.getLastD 0 = p - last)
    (h : fill unitEdge last xs cols row adjrow adjcol = some (adjrow', adjcol', s')) :
    (s'.last :: s'.tmpAdjrow).Pairwise (· ≤ ·) ∧
      adjcol'.length + taken s'.last (s'.tmpAdjrow.take (intMax - s'.row)) ≤
        adjcol.length + taken p (xs.take (intMax - row)) := by
  induction xs generalizing p cols row adjrow adjcol with
  | nil => cases h
  | cons x xs ih =>
    obtain ⟨hp, hsorted'⟩ := List.pairwise_cons.mp hsorted
    have hpx : p ≤ x := hp x List.mem_cons_self
    rw [fill] at h
    dsimp only at h
    rw [colSize_unit hlast hpx hback] at h
    -- neither the bound nor the width of the row matters from here on
    have hrest : row < intMax → taken p ((x :: xs).take (intMax - row)) =
        (int32 (x - p : Nat)).toNat + taken x (xs.take (intMax - (row + 1))) := by
      intro hrow
      rw [show intMax - row = intMax - (row + 1) + 1 by omega, List.take_succ_cons, taken]
    generalize intMax = bound at h ih hrest ⊢
    generalize (int32 (x - p : Nat)).toNat = n at h hrest
    split at h
    · cases h
    · rename_i hok
      rw [hrest (Nat.not_le.mp fun hle => hok (.inl hle))]
      have hlen : (adjcol ++ cols.take n).length ≤ adjcol.length + n := by
        rw [List.length_append, List.length_take]
        omega
      split at h
      · cases h
        refine ⟨List.pairwise_singleton _ _, ?_⟩
        rw [List.take_nil, taken]
        omega
      · split at h
        · cases h
          rw [show last + (x - last) = x by omega]
          exact ⟨hsorted', by dsimp only; omega⟩
        · obtain ⟨hnext, htaken⟩ := ih hsorted' (hlast.trans hpx) (by simp) h
          exact ⟨hnext, htaken.trans (by omega)⟩

theorem fillUnits_taken {unitEdge n : Nat} {s : Remaining} {us : List UnitShare}
    (hsorted : (s.last :: s.tmpAdjrow).Pairwise (· ≤ ·))
    (h : fillUnits unitEdge n s = some us) :
    (us.map (·.adjcolindex)).flatten.length ≤
      taken s.last (s.tmpAdjrow.take (intMax - s.row)) := by
  induction n generalizing s us with
  | zero =>
    cases h
    exact Nat.zero_le _
  | succ n ih =>
    rw [fillUnits] at h
    split at h
    · cases h
    · rename_i adjrow adjcol s' hfill
      obtain ⟨us', hrest, rfl⟩ := Option.map_eq_some_iff.mp h
      obtain ⟨hsorted', htaken⟩ := fill_taken hsorted le_rfl (by simp) hfill
      have hunits := ih hsorted' hrest
      rw [List.map_cons, List.flatten_cons, List.length_append]
      change adjcol.length + _ ≤ _
      rw [List.length_nil] at htaken
      omega

theorem map_setLastEnd (rowEnd : Nat) (us : List UnitShare) :
    (setLastEnd rowEnd us).map (·.adjcolindex) = us.map (·.adjcolindex) := by
  induction us with
  | nil => rfl
  | cons u us ih =>
    cases us with
    | nil => rfl
    | cons u' us => exact congrArg (u.adjcolindex :: ·) ih

end Taken

/-- The shares partition the matrix: the columns, the row pointers and the rows. -/
structure Partitions (m : CsrMatrix) (us : List UnitShare) : Prop where
  /-- The columns of the units are the columns of the matrix. -/
  cols : (us.map (·.adjcolindex)).flatten = m.col
  /-- The row pointers of every unit start with `0`. -/
  starts : ∀ u ∈ us, u.adjrowindex.head? = some 0
  /-- Rebased, the row pointers of the units are those of the matrix. -/
  rows : rebase 0 us = m.row.tail
  /-- The row ranges are consecutive and partition the rows. -/
  nonempty : ∀ u ∈ us, u.rowStart ≤ u.rowEnd
  ranges : (us.map (·.rowRange)).flatten = List.range m.xH

/-- The `int` variables of `Distribute` hold what they count. -/
structure FitsInt (m : CsrMatrix) : Prop where
  /-- `col_size` holds the number of columns of every row. -/
  narrow : Narrow m.row
  /-- `row` holds the number of every row up to the last edge. -/
  room : m.row.tail.countP (· < m.col.length) < intMax

theorem row_eq_cons (m : CsrMatrix) : m.row = 0 :: m.row.tail :=
  (List.cons_head?_tail m.row_zero).symm

theorem getLastD_tail (m : CsrMatrix) : m.row.tail.getLastD 0 = m.col.length := by
  rw [m.col_length]
  conv_rhs => rw [row_eq_cons m, List.getLastD_cons]

/-- If the units got all columns, no `int` overflowed. -/
theorem fitsInt_of_cols {m : CsrMatrix} {unitEdge n : Nat} {us : List UnitShare}
    (h : fillUnits unitEdge n ⟨m.row.tail, m.col, 0, 0⟩ = some us)
    (hcols : (us.map (·.adjcolindex)).flatten = m.col) : FitsInt m := by
  have hsorted : (0 :: m.row.tail).Pairwise (· ≤ ·) := row_eq_cons m ▸ m.row_mono
  have hlast := getLastD_tail m
  have htaken := fillUnits_taken hsorted h
  rw [hcols, Nat.sub_zero] at htaken
  change _ ≤ taken 0 (m.row.tail.take intMax) at htaken
  constructor
  case narrow =>
    rw [row_eq_cons m]
    apply (taken_le hsorted).2
    rw [hlast, Nat.sub_zero]
    exact htaken.trans (taken_take_le 0 intMax m.row.tail)
  case room =>
    have hprefix : (0 :: m.row.tail.take intMax).Pairwise (· ≤ ·) :=
      hsorted.sublist ((List.take_sublist intMax m.row.tail).cons_cons 0)
    have hreach := htaken.trans (taken_le hprefix).1
    have hlength := List.length_take_le intMax m.row.tail
    rw [← List.take_append_drop intMax m.row.tail] at hsorted ⊢
    generalize m.row.tail.take intMax = ys at hsorted hreach hlength ⊢
    generalize m.row.tail.drop intMax = zs at hsorted ⊢
    have hzs : zs.countP (· < m.col.length) = 0 := by
      rw [List.countP_eq_zero]
      intro z hz
      have hle := (List.pairwise_append.mp (List.cons_append ▸ hsorted)).2.2 _
        (List.getLastD_mem_cons : ys.getLastD 0 ∈ 0 :: ys) z hz
      simp only [decide_eq_true_eq]
      omega
    rw [List.countP_append, hzs, Nat.add_zero]
    rcases ys.eq_nil_or_concat with rfl | ⟨ys, y, rfl⟩
    · exact Nat.zero_lt_succ _
    · refine (List.countP_lt_length_iff.mpr ⟨y, by simp, ?_⟩).trans_le hlength
      rw [List.concat_eq_append, List.getLastD_concat] at hreach
      exact decide_eq_false (by omega)

/-- `Distribute` reads no empty queue and partitions the matrix exactly when the matrix has
a row, its rows fit in the `int` variables, and they can be cut for all units but the last into
groups of at least `unit_edge` edges that leave an edge for the last unit. -/
theorem distribute_partitions_iff (m : CsrMatrix) (totAcc : Nat) (hacc : 1 ≤ totAcc) :
    (∃ us, distribute m totAcc = some us ∧ Partitions m us) ↔
      0 < m.xH ∧ FitsInt m ∧ (totAcc = 1 ∨
        Cuts.Exists (unitEdge m totAcc) m.row.tail 0 (totAcc - 1) m.col.length) := by
  obtain ⟨n, rfl⟩ : ∃ n, totAcc = n + 1 := ⟨totAcc - 1, by omega⟩
  by_cases hfit : FitsInt m
  case neg =>
    refine iff_of_false ?_ fun h => hfit h.2.1
    rintro ⟨us, hsome, hpart⟩
    obtain ⟨us', hunits, rfl⟩ := Option.map_eq_some_iff.mp hsome
    have hcols := hpart.cols
    rw [map_setLastEnd] at hcols
    exact hfit (fitsInt_of_cols hunits hcols)
  case pos =>
    have htotal := getLastD_tail m
    have hs : Remaining.Matches ⟨m.row.tail, m.col, 0, 0⟩ := by
      constructor
      case sorted => exact row_eq_cons m ▸ m.row_mono
      case cols => exact htotal.symm
      case narrow => exact row_eq_cons m ▸ hfit.narrow
      case room =>
        have hroom := hfit.room
        rw [← htotal] at hroom
        exact (Nat.zero_add _).trans_lt hroom
    have hlen : m.xH = m.row.tail.length := List.length_tail.symm
    have hcap : m.row.tail.getLastD 0 - 0 ≤ (n + 1) * unitEdge m (n + 1) := by
      rw [htotal, Nat.sub_zero, Nat.mul_comm]
      exact (ceilDiv_le_iff (Nat.succ_pos n)).mp le_rfl
    have hcut : Cuttable (unitEdge m (n + 1)) n ⟨m.row.tail, m.col, 0, 0⟩ ↔
        0 < m.xH ∧ FitsInt m ∧ (n + 1 = 1 ∨
          Cuts.Exists (unitEdge m (n + 1)) m.row.tail 0 (n + 1 - 1) m.col.length) := by
      rw [Cuttable, hlen, List.length_pos_iff, htotal, Nat.add_sub_cancel]
      simp only [Nat.succ_inj, hfit, true_and]
    rw [← hcut]
    rcases fillUnits_spec _ n hs hcap with ⟨hc, us, -, hfill, hpart⟩ | ⟨hc, hfill⟩
    · refine iff_of_true ⟨_, by rw [distribute, hfill, Option.map_some], ?_⟩ hc
      rw [hlen]
      simp only [Nat.zero_add] at hpart
      refine ⟨hpart.cols, hpart.starts, hpart.rows, hpart.nonempty, ?_⟩
      rw [hpart.ranges, hlen, List.range_eq_range']
    · refine iff_of_false ?_ hc
      rintro ⟨us, hsome, -⟩
      rw [distribute, hfill] at hsome
      cases hsome

/-- Four rows with one edge each for two units. -/
def evenRows : CsrMatrix where
  row := [0, 1, 2, 3, 4]
  col := [10, 11, 12, 13]
  row_zero := by decide
  row_mono := by decide
  col_length := by decide

theorem distribute_evenRows : 1 ≤ 2 ∧ ∃ us, distribute evenRows 2 = some us ∧
    Partitions evenRows us := by
  have hfit : FitsInt evenRows := ⟨by unfold Narrow; decide, by decide +kernel⟩
  refine ⟨by decide, (distribute_partitions_iff evenRows 2 (by decide)).mpr
    ⟨by decide, hfit, Or.inr ⟨[2], by decide, by decide, by decide, by decide⟩⟩⟩

/-- All edges are in the first row. -/
def heavyRow : CsrMatrix where
  row := [0, 3, 3]
  col := [10, 11, 12]
  row_zero := by decide
  row_mono := by decide
  col_length := by decide

/-- The first of two units takes every edge and every row; the second reads the front of
an empty queue. -/
theorem distribute_heavyRow : distribute heavyRow 2 = none := by decide

end GcnSim.Distributer
