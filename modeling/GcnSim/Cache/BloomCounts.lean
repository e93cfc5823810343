import GcnSim.Cache.BloomIndex
import GcnSim.Cache.HybridInstall

/-!
# The counts of the bloom filters

Every item of fold 0 is counted in the filter of its row and in the overlapping filter of
its row, under the hash `colindex % BF_LEN`. A counter is the number of such items, as an
`int`; so it is never below the number of items of one column, unless more items than an
`int` counts were received. The victim is the first way with the smallest count.
-/

namespace GcnSim

/-- `min_element` is the first of the smallest entries. -/
theorem minElement_spec {l : List Int} {k : Nat} (hk : k < l.length) (heq : minElement l = k) :
    (∀ x ∈ l, l[k] ≤ x) ∧ ∀ j (hj : j < k), l[k] < l[j] := by
  have hlt : l.findIdx (fun x => l.all (x ≤ ·)) < l.length := by
    rw [← heq] at hk
    exact hk
  have hall := List.findIdx_getElem (w := hlt)
  subst heq
  have hmin : ∀ x ∈ l, l[minElement l] ≤ x := fun x hx =>
    of_decide_eq_true (List.all_eq_true.mp hall x hx)
  refine ⟨hmin, ?_⟩
  intro j hj
  have hnot := List.not_of_lt_findIdx hj
  rw [List.all_eq_false] at hnot
  obtain ⟨x, hx, hxj⟩ := hnot
  rw [decide_eq_true_eq, Int.not_le] at hxj
  exact (hmin x hx).trans_lt hxj

namespace BloomFilter

variable (C : HybridConfig)

/-- A counter of a filter. -/
def entry (lists : List (List Int)) (i h : Nat) : Option Int := lists[i]?.bind (·[h]?)

/-- An item of fold 0 of a row that `table` gives to filter `i`, with hash `h`. -/
def counts (table : List Int) (i h : Nat) (d : RowItem) : Bool :=
  d.preWFold = 0 ∧ table[d.rowindex]? = some (i : Int) ∧ d.colindex % C.bfLen = h

/-- An item of fold 0 and column `col` of a row that `table` gives to filter `i`. -/
def refers (table : List Int) (i col : Nat) (d : RowItem) : Bool :=
  d.preWFold = 0 ∧ table[d.rowindex]? = some (i : Int) ∧ d.colindex = col

variable {C}

theorem entry_modify (lists : List (List Int)) (k h : Nat) (f : Int → Int) (i j : Nat) :
    entry (lists.modify k (·.modify h f)) i j =
      if k = i ∧ h = j then (entry lists i j).map f else entry lists i j := by
  rw [entry, entry, List.getElem?_modify]
  cases lists[i]? with
  | none => simp
  | some l =>
    by_cases hk : k = i
    · simp only [hk, if_true, Option.bind_some, true_and]
      by_cases hh : h = j
      · simp [hh]
      · simp [hh]
    · simp [hk]

/-- One item moves the counter of its filter and its hash. -/
theorem entry_bump (lists : List (List Int)) (filter : Option Int) (h i j : Nat) :
    entry (bump lists filter h) i j = if filter = some (i : Int) ∧ h = j
      then (entry lists i j).map fun n => int32 (n + 1) else entry lists i j := by
  cases filter with
  | none => simp [bump]
  | some f =>
    by_cases hf : 0 ≤ f
    · obtain ⟨k, rfl⟩ := Int.eq_ofNat_of_zero_le hf
      simp only [bump, hf, if_true, Int.toNat_natCast, entry_modify, Option.some_inj, Nat.cast_inj]
    · have hne : f ≠ (i : Int) := by omega
      simp [bump, hf, hne]

theorem entry_init {i h : Nat} (hi : i < C.bloomFilterNum) (hh : h < C.bfLen) :
    entry (List.replicate C.bloomFilterNum (List.replicate C.bfLen (0 : Int))) i h = some 0 := by
  rw [entry, List.getElem?_replicate_of_lt hi, Option.bind_some, List.getElem?_replicate_of_lt hh]

/-- A column of a row of filter `i` is counted there under its hash. -/
theorem counts_of_refers {table : List Int} {i col : Nat} {d : RowItem}
    (h : refers table i col d = true) : counts C table i (col % C.bfLen) d = true := by
  rw [refers, decide_eq_true_eq] at h
  rw [counts, decide_eq_true_eq]
  exact ⟨h.1, h.2.1, congrArg (· % C.bfLen) h.2.2⟩

/-- A counter is not below the number of items of one column. -/
theorem countP_refers_le (table : List Int) (i col : Nat) (items : List RowItem) :
    items.countP (refers table i col) ≤ items.countP (counts C table i (col % C.bfLen)) :=
  List.countP_mono_left fun _ _ h => counts_of_refers h

/-- A counter goes up with the items it counts. -/
theorem entry_scan (table : List Int) {lists : List (List Int)} {i h n : Nat} (d : RowItem)
    (hn : entry lists i h = some (int32 n)) :
    entry (if d.preWFold = 0 then bump lists table[d.rowindex]? (d.colindex % C.bfLen) else lists)
      i h = some (int32 (n + if counts C table i h d then 1 else 0 : Nat)) := by
  rw [counts]
  by_cases hfold : d.preWFold = 0
  · rw [if_pos hfold, entry_bump, hn]
    by_cases hmatch : table[d.rowindex]? = some (i : Int) ∧ d.colindex % C.bfLen = h
    · rw [if_pos hmatch, if_pos (decide_eq_true ⟨hfold, hmatch⟩), Option.map_some, int32_add_one,
        Nat.cast_succ]
    · rw [if_neg hmatch, if_neg (by simp [hfold, hmatch]), Nat.add_zero]
  · rw [if_neg hfold, if_neg (by simp [hfold]), Nat.add_zero, hn]

/-- `BloomFilter::replace` picks the first way with the smallest count. -/
theorem replace_spec (junk blkIdx : Int) (useOvl : Bool) {tags : List Tag} (hne : tags ≠ [])
    (bf : BloomFilter) : ∃ k, ∃ hk : k < tags.length,
      bf.replace C junk blkIdx useOvl tags = tags[k] ∧
        (∀ t ∈ tags, bf.count C junk blkIdx useOvl tags[k].col ≤
          bf.count C junk blkIdx useOvl t.col) ∧
        ∀ j (hj : j < k), bf.count C junk blkIdx useOvl tags[k].col <
          bf.count C junk blkIdx useOvl tags[j].col := by
  have hlt := minElement_lt (l := tags.map fun t => bf.count C junk blkIdx useOvl t.col)
    (by rwa [Ne, List.map_eq_nil_iff])
  obtain ⟨hmin, hfirst⟩ := minElement_spec hlt rfl
  have hk := hlt
  rw [List.length_map] at hk
  refine ⟨_, hk, ?_, ?_, ?_⟩
  · rw [replace, List.getD_eq_getElem?_getD, List.getElem?_eq_getElem hk, Option.getD_some]
  · intro t ht
    have h := hmin _ (List.mem_map_of_mem ht)
    rwa [List.getElem_map] at h
  · intro j hj
    have h := hfirst j hj
    rwa [List.getElem_map, List.getElem_map] at h

end BloomFilter

namespace HybridBuffer

variable (C : HybridConfig)

/-- The item that a call receives. -/
def Call.item? : Call → Option RowItem
  | .receiveItem d => some d
  | _ => none

/-- The items received so far. -/
def received (cs : List Call) : List RowItem := cs.filterMap Call.item?

/-- What the scan of an item does to the filters. -/
def scan (d : RowItem) (bf : BloomFilter) : BloomFilter :=
  if d.preWFold = 0 then bf.firstCycleAccess C d.rowindex d.colindex else bf

variable {C}

theorem requestOnce_bf (d : RowItem) (hb : HybridBuffer) : (hb.requestOnce d).bf = hb.bf := by
  unfold requestOnce
  split <;> rfl

/-- Only a received item changes the filters. -/
theorem call_bf (halgo : C.algo = .bf) (hb : HybridBuffer) (c : Call) :
    (hb.call C c).bf = c.item?.elim hb.bf fun d => scan C d hb.bf := by
  cases c with
  | receiveItem d =>
    have hpush : (hb.push C d).bf = scan C d hb.bf := by
      simp only [push, scan, halgo, true_and]
    change (hb.receiveItem C d).bf = scan C d hb.bf
    unfold receiveItem
    split
    · exact hpush
    · rw [requestOnce_bf, hpush]
  | canTransfer =>
    change (hb.checkTransfer C).bf = hb.bf
    unfold checkTransfer
    split
    · split
      · rfl
      · exact requestOnce_bf _ hb
    · rfl
  | transferAData => rfl
  | reply address junk =>
    change (hb.reply C junk address).bf = hb.bf
    unfold reply
    split <;> rfl

/-- One more item in the counts. -/
theorem countP_received_concat (p : RowItem → Bool) (cs : List Call) (c : Call) :
    (received (cs ++ [c])).countP p =
      (received cs).countP p + c.item?.elim 0 fun d => if p d then 1 else 0 := by
  rw [received, List.filterMap_append, List.countP_append]
  cases hc : c.item? with
  | none => simp [hc, received]
  | some d => simp [hc, received]

/-- Every counter is the number of items it counts, as an `int`. -/
theorem calls_entry (halgo : C.algo = .bf) (cs : List Call) {i h : Nat}
    (hi : i < C.bloomFilterNum) (hh : h < C.bfLen) :
    BloomFilter.entry (calls C cs).bf.bfList i h =
        some (int32 ((received cs).countP (BloomFilter.counts C C.bfIdx i h))) ∧
      BloomFilter.entry (calls C cs).bf.olBfList i h =
        some (int32 ((received cs).countP (BloomFilter.counts C C.ovlBFIdx i h))) := by
  induction cs using List.reverseRecOn with
  | nil =>
    have hzero : int32 ((([] : List RowItem).countP fun _ => true : Nat) : Int) = 0 := by decide
    exact ⟨(BloomFilter.entry_init hi hh).trans (congrArg some hzero.symm),
      (BloomFilter.entry_init hi hh).trans (congrArg some hzero.symm)⟩
  | append_singleton cs c ih =>
    have hcalls : (calls C (cs ++ [c])).bf = c.item?.elim (calls C cs).bf fun d =>
        scan C d (calls C cs).bf := by
      rw [calls, Transition.run_concat, call_bf halgo]
      rfl
    rw [hcalls, countP_received_concat, countP_received_concat]
    cases c.item? with
    | none => exact ih
    | some d =>
      have hscan := And.intro (BloomFilter.entry_scan (C := C) C.bfIdx d ih.1)
        (BloomFilter.entry_scan (C := C) C.ovlBFIdx d ih.2)
      rw [Option.elim_some, scan]
      split
      · rename_i hfold
        rw [if_pos hfold, if_pos hfold] at hscan
        exact hscan
      · rename_i hfold
        rw [if_neg hfold, if_neg hfold] at hscan
        exact hscan

variable (C)

/-- What the counts and the victims are to be after a list of calls. -/
structure CountsReferences (cs : List Call) : Prop where
  /-- Both filters of a scanned item are found, and the second one may be missing. -/
  inRange : ∀ d ∈ received cs, ∃ i < C.bloomFilterNum, C.bfIdx[d.rowindex]? = some (i : Int) ∧
    (C.ovlBFIdx[d.rowindex]? = some (-1) ∨
      ∃ j < C.bloomFilterNum, C.ovlBFIdx[d.rowindex]? = some (j : Int))
  bfList : ∀ i < C.bloomFilterNum, ∀ h < C.bfLen, BloomFilter.entry (calls C cs).bf.bfList i h =
    some ((received cs).countP (BloomFilter.counts C C.bfIdx i h) : Int)
  olBfList : ∀ i < C.bloomFilterNum, ∀ h < C.bfLen,
    BloomFilter.entry (calls C cs).bf.olBfList i h =
      some ((received cs).countP (BloomFilter.counts C C.ovlBFIdx i h) : Int)
  /-- The count used for a column in the cache is not below the items of that column. -/
  not_below : ∀ idx, ∀ t ∈ (calls C cs).cache.tags idx, ∀ d, t.holds d = true →
    ∀ i < C.bloomFilterNum, ∀ junk,
      ((received cs).countP (BloomFilter.refers C.bfIdx i d.colindex) : Int) ≤
          (calls C cs).bf.count C junk i false t.col ∧
        ((received cs).countP (BloomFilter.refers C.ovlBFIdx i d.colindex) : Int) ≤
          (calls C cs).bf.count C junk i true t.col
  /-- The victim is the first way with the smallest count. -/
  victim : ∀ tags, tags.length = C.wayN → ∀ i < C.bloomFilterNum, ∀ useOvl junk,
    ∃ k, ∃ hk : k < tags.length,
      (calls C cs).bf.replace C junk i useOvl tags = tags[k] ∧
        (∀ t ∈ tags, (calls C cs).bf.count C junk i useOvl tags[k].col ≤
          (calls C cs).bf.count C junk i useOvl t.col) ∧
        ∀ j (hj : j < k), (calls C cs).bf.count C junk i useOvl tags[k].col <
          (calls C cs).bf.count C junk i useOvl tags[j].col

/-- No counter is asked to count more items than an `int` can. -/
def CountersFit (cs : List Call) : Prop :=
  ∀ i < C.bloomFilterNum, ∀ h < C.bfLen,
    (received cs).countP (BloomFilter.counts C C.bfIdx i h) < 2147483648 ∧
      (received cs).countP (BloomFilter.counts C C.ovlBFIdx i h) < 2147483648

variable {C}

/-- An `int` is the number it was counted to only below `2 ^ 31`. -/
theorem int32_eq_iff {n : Nat} : int32 n = n ↔ n < 2147483648 := by
  rw [int32]
  omega

/-- The count that is read for a column in the cache. -/
theorem count_eq (junk : Int) {i : Nat} (useOvl : Bool) {bf : BloomFilter} {t : Tag} {d : ERData}
    (hholds : t.holds d = true) {n : Int}
    (hn : BloomFilter.entry (if useOvl then bf.olBfList else bf.bfList) i
      (d.colindex % C.bfLen) = some n) : bf.count C junk i useOvl t.col = n := by
  rw [Tag.holds, Bool.and_eq_true, decide_eq_true_eq] at hholds
  rw [BloomFilter.count, if_pos (Int.natCast_nonneg i), hholds.1, Int.toNat_natCast]
  exact congrArg (Option.getD · junk) hn

/-- A counter that is exact has not overflowed. -/
theorem CountsReferences.fit (halgo : C.algo = .bf) {cs : List Call}
    (hcounts : CountsReferences C cs) : CountersFit C cs := by
  intro i hi h hh
  obtain ⟨hbf, hovlBf⟩ := calls_entry halgo cs hi hh
  rw [hcounts.bfList i hi h hh, Option.some_inj] at hbf
  rw [hcounts.olBfList i hi h hh, Option.some_inj] at hovlBf
  exact ⟨int32_eq_iff.mp hbf.symm, int32_eq_iff.mp hovlBf.symm⟩

/-- The counts are exact, and with them what is concluded from them, exactly if no counter
overflows. -/
theorem countsReferences_iff (C : HybridConfig) (halgo : C.algo = .bf)
    (haH : C.aH < 2147483648) (hovl : C.bfOverlap ≤ 100) (cs : List Call)
    (hrows : ∀ d ∈ received cs, d.rowindex < C.aH) :
    CountsReferences C cs ↔ CountersFit C cs := by
  constructor
  · exact CountsReferences.fit halgo
  · intro hfit
    have hbf : ∀ i < C.bloomFilterNum, ∀ h < C.bfLen,
        BloomFilter.entry (calls C cs).bf.bfList i h =
          some ((received cs).countP (BloomFilter.counts C C.bfIdx i h) : Int) := by
      intro i hi h hh
      rw [(calls_entry halgo cs hi hh).1, int32_of_lt (hfit i hi h hh).1]
    have hovlBf : ∀ i < C.bloomFilterNum, ∀ h < C.bfLen,
        BloomFilter.entry (calls C cs).bf.olBfList i h =
          some ((received cs).countP (BloomFilter.counts C C.ovlBFIdx i h) : Int) := by
      intro i hi h hh
      rw [(calls_entry halgo cs hi hh).2, int32_of_lt (hfit i hi h hh).2]
    constructor
    case inRange =>
      intro d hd
      have hrow := hrows d hd
      have hfilter := List.getElem?_eq_getElem
        (hrow.trans_eq (HybridConfig.length_bfIdx_eq (C := C)).symm)
      have hovlFilter := List.getElem?_eq_getElem
        (hrow.trans_eq (HybridConfig.length_ovlBFIdx_eq haH hovl).symm)
      obtain ⟨i, hi, heq⟩ := HybridConfig.bf_valid_of_mem (List.mem_of_getElem? hfilter)
      rw [heq] at hfilter
      refine ⟨i, hi, hfilter, ?_⟩
      obtain heq | ⟨j, hj, heq⟩ :=
        HybridConfig.ovl_valid_of_mem haH hovl (List.mem_of_getElem? hovlFilter)
      · rw [heq] at hovlFilter
        exact Or.inl hovlFilter
      · rw [heq] at hovlFilter
        exact Or.inr ⟨j, hj, hovlFilter⟩
    case bfList => exact hbf
    case olBfList => exact hovlBf
    case not_below =>
      intro idx t _ d hholds i hi junk
      have hhash := Nat.mod_lt d.colindex C.bfLen_pos
      rw [count_eq junk false hholds (hbf i hi _ hhash),
        count_eq junk true hholds (hovlBf i hi _ hhash)]
      exact ⟨Int.ofNat_le.mpr (BloomFilter.countP_refers_le _ _ _ _),
        Int.ofNat_le.mpr (BloomFilter.countP_refers_le _ _ _ _)⟩
    case victim =>
      intro tags hlen i _ useOvl junk
      refine BloomFilter.replace_spec junk i useOvl ?_ _
      rintro rfl
      exact absurd hlen (Nat.ne_of_lt C.wayN_pos)

/-- The item of row `row`, column `col` and fold 0. -/
def foldZero (row col : Nat) : RowItem := ⟨⟨col, 64 * col, 0⟩, row, 0, 0, false⟩

/-- Four rows and two filters; columns 1 and 5 have the same hash. -/
theorem countsReferences_fourRows :
    CountsReferences (.filters 4 2 50 Nat.two_pos)
      [.receiveItem (foldZero 0 1), .receiveItem (foldZero 1 5), .receiveItem (foldZero 3 1)] := by
  refine (countsReferences_iff _ rfl (by decide) (by decide) _ (by decide)).mpr ?_
  unfold CountersFit
  decide

/-- One item received `n` times. -/
theorem received_replicate (n : Nat) (d : RowItem) :
    received (List.replicate n (.receiveItem d)) = List.replicate n d := by
  rw [received, List.filterMap_replicate]
  rfl

/-- One edge received `2 ^ 31` times: its counter is negative. -/
theorem counter_overflow_not_countsReferences :
    ¬ CountsReferences (.filters 1 1 0 Nat.one_pos)
      (List.replicate 2147483648 (.receiveItem (foldZero 0 1))) := by
  intro h
  have hfit := (CountsReferences.fit rfl h 0 Nat.one_pos 1 (by decide)).1
  rw [received_replicate, List.countP_replicate, if_pos (by decide)] at hfit
  exact absurd hfit (Nat.lt_irrefl _)

end HybridBuffer

end GcnSim
