import GcnSim.Reader.FoldTags

/-!
# A sweep over a block of folds

A row of one column more than a block of folds takes leads the edge reader from the last fold
of the first block to the first fold of the second one. If a line of the tags reaches over the
end of the block, the two items have one tag and two addresses.
-/

namespace GcnSim

namespace FoldConfig

variable (C : FoldConfig)

/-- The second block of folds can be reached: there are columns, the items of a block can be
counted in an `int`, and the first two blocks are in range. -/
def SecondBlock : Prop :=
  0 < C.xH ∧ 0 < C.aColSize ∧ C.aColSize * C.unitWRead < 2147483648 ∧ C.BlockInRange 1

/-- A row of one column more than a block takes, all of them column 0. -/
def sweepOps (transfers : Nat) : List FoldOp :=
  [.chunk (List.replicate (C.aColSize + 1) 0), .vertex (C.aColSize + 1)] ++
    List.replicate transfers .transfer

variable {C}

theorem SecondBlock.blockInRange_zero (h : C.SecondBlock) : C.BlockInRange 0 := by
  obtain ⟨hfold, hint, hbytes⟩ := h.2.2.2
  refine ⟨?_, ?_, le_trans (Nat.mul_le_mul_right _ (Nat.mul_le_mul_left _ ?_)) hbytes⟩ <;> omega

/-- The items of a block can be counted. -/
theorem SecondBlock.total_eq (h : C.SecondBlock) :
    C.aColSize * C.unitWRead % u64Size = C.aColSize * C.unitWRead :=
  Nat.mod_eq_of_lt (h.2.2.1.trans (by decide))

end FoldConfig

namespace FoldReader

variable {C : FoldConfig} {q k : Nat} {r : FoldReader}

/-- The reader is at fold `k` of column `q` of the row. -/
structure Sweep (C : FoldConfig) (q k : Nat) (r : FoldReader) : Prop where
  place : r.At C 0 k
  ev : r.ev = List.replicate (if k = 0 then q else q + 1) 0
  eq : r.core.eq = List.replicate (C.aColSize + 1 - if k = 0 then q else q + 1) 0
  archive : r.colNumArchive = C.aColSize + 1
  remain : r.core.remainColNum = C.aColSize + 1 - q
  count : r.transferCnt = (q * C.unitWRead + k : Nat)
  qEmpty : r.core.port.qEmpty = false
  canReceive : r.core.canReceive = false

/-- The second block starts at the last column of the row. -/
structure Second (C : FoldConfig) (r : FoldReader) : Prop where
  place : r.At C 1 0
  ev : r.ev = List.replicate C.aColSize 0
  eq : r.core.eq = [0]
  archive : r.colNumArchive = C.aColSize + 1
  remain : r.core.remainColNum = 1
  qEmpty : r.core.port.qEmpty = false
  canReceive : r.core.canReceive = false

/-- The reader behind the first lines of `TransferData`, at column `q` of the row. -/
def fetched (C : FoldConfig) (q : Nat) (r : FoldReader) : FoldReader :=
  { r with
    transferCnt := int32 (r.transferCnt + 1)
    core := { r.core with eq := List.replicate (C.aColSize - q) 0 }
    ev := List.replicate (q + 1) 0 }

/-- If the column of the place is in `ev`, `TransferData` hands out its item. -/
theorem transferData_eq (hfetch : fetch C { r with transferCnt := int32 (r.transferCnt + 1) } =
      some (fetched C q r)) (harchive : r.colNumArchive = C.aColSize + 1)
    (hremain : r.core.remainColNum = C.aColSize + 1 - q) (hq : q ≤ C.aColSize) :
    r.transferData C = some ((fetched C q r).item C 0,
      (fetched C q r).finish C (r.startWFold C) (r.limitWFold C)) := by
  have hcol : (fetched C q r).ev[u64Sub (fetched C q r).colNumArchive
      (fetched C q r).core.remainColNum]? = some 0 := by
    change (List.replicate (q + 1) 0)[u64Sub r.colNumArchive r.core.remainColNum]? = some 0
    rw [harchive, hremain, u64Sub_of_le (by omega), List.getElem?_replicate, if_pos (by omega)]
  simp only [transferData, hfetch, hcol]

theorem Sweep.fetch (h : r.Sweep C q k) (hq : q ≤ C.aColSize) :
    FoldReader.fetch C { r with transferCnt := int32 (r.transferCnt + 1) } =
      some (fetched C q r) := by
  have hfold : r.preWFold % C.unitWRead = (k : Nat) := by
    rw [h.place.fold, Nat.zero_mul, Nat.zero_add, ← Int.natCast_mod,
      Nat.mod_eq_of_lt h.place.place_lt]
  have hev := h.ev
  have heq := h.eq
  unfold FoldReader.fetch fetched
  simp only [hfold]
  split at hev
  next hzero =>
    rw [if_pos hzero, Nat.succ_sub hq, List.replicate_succ] at heq
    simp only [hzero, Nat.cast_zero, if_true, heq, hev, List.replicate_succ']
  next hzero =>
    rw [if_neg hzero, Nat.add_sub_add_right] at heq
    rw [if_neg (by exact_mod_cast hzero), ← heq, ← hev]

theorem advance_of_ne {start limit : Int} (h : int32 (r.preWFold + 1) ≠ limit) :
    r.advance C start limit = { r with preWFold := int32 (r.preWFold + 1) } := by
  unfold FoldReader.advance
  simp only [h, if_false, ite_self]

theorem advance_of_eq {start limit : Int} (h : int32 (r.preWFold + 1) = limit)
    (hremain : r.core.remainColNum ≠ 1) : r.advance C start limit = { r with
      core := { r.core with remainColNum := u64Sub r.core.remainColNum 1 }
      preWFold := start } := by
  unfold FoldReader.advance
  simp only [h, hremain, if_false, if_true]

theorem checkEmpty_of_ne {start : Int} (h : r.core.eq ≠ []) : r.checkEmpty start = r :=
  if_neg fun hempty => h hempty.2

theorem nextRepeat_of_ne (h : u64OfInt r.transferCnt ≠ C.aColSize * C.unitWRead % u64Size) :
    r.nextRepeat C = r :=
  if_neg h

theorem nextRepeat_of_eq (h : u64OfInt r.transferCnt = C.aColSize * C.unitWRead % u64Size) :
    r.nextRepeat C = { r with
      preRepeat := int32 (r.preRepeat + 1)
      preWFold := int32 (int32 (r.preRepeat + 1) * C.unitWRead)
      preWFoldStart := int32 (int32 (r.preRepeat + 1) * C.unitWRead)
      transferCnt := 0 } :=
  if_pos h

/-- The reader behind a fold of column `q` of the row that is not the last one. -/
def columnStay (C : FoldConfig) (q : Nat) (r : FoldReader) : FoldReader :=
  { (fetched C q r).reopen C with preWFold := int32 (r.preWFold + 1) }

/-- The reader behind the last fold of column `q` of the row. -/
def columnEnd (C : FoldConfig) (q : Nat) (r : FoldReader) : FoldReader :=
  { (fetched C q r).reopen C with
    core := { ((fetched C q r).reopen C).core with remainColNum := C.aColSize - q }
    preWFold := 0 }

theorem fetched_eq_ne_nil (r : FoldReader) (hq : q < C.aColSize) :
    (fetched C q r).core.eq ≠ [] := by
  change List.replicate (C.aColSize - q) 0 ≠ []
  rw [Ne, List.replicate_eq_nil_iff]
  omega

section Sweep

variable (h : r.Sweep C q k) (hq : q < C.aColSize) (hsecond : C.SecondBlock)

include h hsecond

theorem Sweep.limit : r.limitWFold C = C.unitWRead := by
  have hlt := hsecond.2.2.2.1
  rw [h.place.limitWFold hsecond.blockInRange_zero, Nat.min_eq_left (by omega), Nat.zero_mul,
    Nat.zero_add]

theorem Sweep.start : r.startWFold C = 0 := by
  rw [h.place.startWFold hsecond.blockInRange_zero, Nat.zero_mul, Nat.cast_zero]

theorem Sweep.next : int32 (r.preWFold + 1) = (k + 1 : Nat) := by
  have hk := h.place.place_lt
  have hint := hsecond.2.2.2.2.1
  rw [h.place.fold, Nat.zero_mul, Nat.zero_add, ← Nat.cast_succ]
  exact int32_of_lt (by omega)

include hq

theorem Sweep.count_succ : (fetched C q r).transferCnt = (q * C.unitWRead + (k + 1) : Nat) := by
  have hk := h.place.place_lt
  have hle : (q + 1) * C.unitWRead ≤ C.aColSize * C.unitWRead := Nat.mul_le_mul_right _ hq
  have hint := hsecond.2.2.1
  rw [Nat.succ_mul] at hle
  change int32 (r.transferCnt + 1) = _
  rw [h.count, ← Nat.cast_succ]
  exact int32_of_lt (by omega)

/-- Behind a fold that is not the last one of the block comes the next fold of the column. -/
theorem Sweep.nextFold (hk : k + 1 < C.unitWRead) :
    ((fetched C q r).finish C (r.startWFold C) (r.limitWFold C)).Sweep C q (k + 1) := by
  have hle : (q + 1) * C.unitWRead ≤ C.aColSize * C.unitWRead := Nat.mul_le_mul_right _ hq
  have hlast : int32 (r.preWFold + 1) ≠ r.limitWFold C := by
    rw [h.next hsecond, h.limit hsecond]
    exact_mod_cast hk.ne
  have hcount : u64OfInt (fetched C q r).transferCnt ≠ C.aColSize * C.unitWRead % u64Size := by
    rw [h.count_succ hq hsecond, u64OfInt_natCast, hsecond.total_eq]
    rw [Nat.succ_mul] at hle
    omega
  have hadvance : ((fetched C q r).reopen C).advance C (r.startWFold C) (r.limitWFold C) =
      columnStay C q r :=
    advance_of_ne hlast
  rw [FoldReader.finish, hadvance,
    checkEmpty_of_ne (r := columnStay C q r) (fetched_eq_ne_nil r hq),
    nextRepeat_of_ne (r := columnStay C q r) hcount]
  refine ⟨⟨h.place.preRepeat, h.place.start, ?_, hk, ?_⟩, ?_, ?_, h.archive, h.remain,
    h.count_succ hq hsecond, ?_, h.canReceive⟩
  · rw [Nat.zero_mul, Nat.zero_add]
    exact h.next hsecond
  · have hlt := hsecond.2.2.2.1
    omega
  · rw [if_neg (Nat.succ_ne_zero k)]
    rfl
  · rw [if_neg (Nat.succ_ne_zero k), Nat.add_sub_add_right]
    rfl
  · exact (ReaderPort.reopen_qEmpty _ _).trans h.qEmpty

/-- The counters behind the last fold of a column. -/
theorem Sweep.finish_last (hk : k + 1 = C.unitWRead) :
    (fetched C q r).finish C (r.startWFold C) (r.limitWFold C) =
      nextRepeat C (columnEnd C q r) := by
  have hlast : int32 (r.preWFold + 1) = r.limitWFold C := by
    rw [h.next hsecond, h.limit hsecond, hk]
  have hremain : r.core.remainColNum ≠ 1 := by
    rw [h.remain]
    omega
  have hsub : u64Sub r.core.remainColNum 1 = C.aColSize - q := by
    rw [h.remain, u64Sub_of_le (by omega)]
    omega
  have hadvance : ((fetched C q r).reopen C).advance C (r.startWFold C) (r.limitWFold C) =
      columnEnd C q r := by
    rw [advance_of_eq (r := (fetched C q r).reopen C) hlast hremain, h.start hsecond, columnEnd,
      ← hsub]
    rfl
  rw [FoldReader.finish, hadvance,
    checkEmpty_of_ne (r := columnEnd C q r) (fetched_eq_ne_nil r hq)]

/-- Behind the last fold of a column comes the next column, as long as the block is not full. -/
theorem Sweep.nextColumn (hk : k + 1 = C.unitWRead) (hnext : q + 1 < C.aColSize) :
    ((fetched C q r).finish C (r.startWFold C) (r.limitWFold C)).Sweep C (q + 1) 0 := by
  have hpos := C.unitWRead_pos
  have hcount : u64OfInt (fetched C q r).transferCnt ≠ C.aColSize * C.unitWRead % u64Size := by
    rw [h.count_succ hq hsecond, u64OfInt_natCast, hsecond.total_eq, hk, ← Nat.succ_mul]
    exact (Nat.mul_lt_mul_of_pos_right hnext hpos).ne
  rw [h.finish_last hq hsecond hk, nextRepeat_of_ne (r := columnEnd C q r) hcount]
  refine ⟨⟨h.place.preRepeat, h.place.start, ?_, hpos, fun hlt => hlt⟩, rfl, ?_, h.archive, ?_,
    ?_, ?_, h.canReceive⟩
  · rw [Nat.zero_mul]
    rfl
  · rw [if_pos rfl, Nat.add_sub_add_right]
    rfl
  · exact (Nat.add_sub_add_right _ _ _).symm
  · rw [Nat.succ_mul, Nat.add_zero]
    exact (h.count_succ hq hsecond).trans (by rw [hk])
  · exact (ReaderPort.reopen_qEmpty _ _).trans h.qEmpty

/-- Behind the last fold of the last column of a full block comes the second block. -/
theorem Sweep.nextBlock (hk : k + 1 = C.unitWRead) (hlast : q + 1 = C.aColSize) :
    ((fetched C q r).finish C (r.startWFold C) (r.limitWFold C)).Second C := by
  have hpos := C.unitWRead_pos
  have hint := hsecond.2.2.2.2.1
  have hcount : u64OfInt (fetched C q r).transferCnt = C.aColSize * C.unitWRead % u64Size := by
    rw [h.count_succ hq hsecond, u64OfInt_natCast, hsecond.total_eq, hk, ← Nat.succ_mul,
      Nat.succ_eq_add_one, hlast]
  have hrepeat : int32 (r.preRepeat + 1) = (1 : Nat) := by
    rw [h.place.preRepeat]
    rfl
  have hstart : int32 ((1 : Nat) * C.unitWRead) = (1 * C.unitWRead : Nat) := by
    rw [← Nat.cast_mul]
    exact int32_of_lt (by omega)
  have hone : C.aColSize - q = 1 := by omega
  rw [h.finish_last hq hsecond hk, nextRepeat_of_eq (r := columnEnd C q r) hcount]
  refine ⟨⟨hrepeat, ?_, ?_, hpos, fun hlt => hlt⟩, ?_, ?_, h.archive, hone, ?_, h.canReceive⟩
  · change int32 (int32 (r.preRepeat + 1) * C.unitWRead) = _
    rw [hrepeat, hstart]
  · change int32 (int32 (r.preRepeat + 1) * C.unitWRead) = _
    rw [hrepeat, hstart, Nat.add_zero]
  · change List.replicate (q + 1) 0 = _
    rw [hlast]
  · change List.replicate (C.aColSize - q) 0 = _
    rw [hone]
    rfl
  · exact (ReaderPort.reopen_qEmpty _ _).trans h.qEmpty

end Sweep

theorem Second.fetch (h : r.Second C) :
    FoldReader.fetch C { r with transferCnt := int32 (r.transferCnt + 1) } =
      some (fetched C C.aColSize r) := by
  have hfold : r.preWFold % C.unitWRead = 0 := by
    rw [h.place.fold, Nat.one_mul, Nat.add_zero, Int.emod_self]
  unfold FoldReader.fetch fetched
  simp only [hfold, if_true, h.eq, h.ev, List.replicate_succ', Nat.sub_self, List.replicate_zero]

/-- The item handed out behind the first lines of `TransferData`. -/
theorem At.fetched (h : r.At C block place) (hrange : C.BlockInRange block) (q : Nat) :
    ((FoldReader.fetched C q r).item C 0).OfPlace C block place := by
  have hfetched : (FoldReader.fetched C q r).At C block place := h.of_eq rfl rfl rfl
  exact hfetched.item hrange 0

end FoldReader

namespace FoldSystem

variable {C : FoldConfig}

/-- `TransferData` may be called in a block that is in range. -/
theorem admitted_of_at {s : FoldSystem} {block place : Nat} (h : s.reader.At C block place)
    (hrange : C.BlockInRange block) : C.Admitted s .transfer := by
  change C.BlockInRange (u64OfInt s.reader.preRepeat)
  rwa [h.preRepeat, u64OfInt_natCast]

theorem transfer_eq {s : FoldSystem} (hempty : s.reader.core.port.qEmpty = false)
    (hrecv : s.reader.core.canReceive = false) {d : RowItem} {r : FoldReader}
    (h : s.reader.transferData C = some (d, r)) :
    s.transfer C = { s with
      reader := r
      emitted := s.emitted ++ [d] } := by
  unfold transfer
  rw [if_pos ⟨hempty, hrecv⟩, h]

/-- The state after the row was given and some items were taken. -/
def sweep (C : FoldConfig) (transfers : Nat) : FoldSystem :=
  Transition.run (step C) (init C) (C.sweepOps transfers)

theorem sweepOps_succ (transfers : Nat) :
    C.sweepOps (transfers + 1) = C.sweepOps transfers ++ [.transfer] := by
  rw [FoldConfig.sweepOps, FoldConfig.sweepOps, List.replicate_succ' (n := transfers),
    List.append_assoc]

theorem sweep_succ (transfers : Nat) : sweep C (transfers + 1) = (sweep C transfers).transfer C := by
  rw [sweep, sweepOps_succ, Transition.run_concat]
  rfl

/-- The row starts at its first column. -/
theorem sweep_zero (hsecond : C.SecondBlock) : (sweep C 0).reader.Sweep C 0 0 := by
  have hsize : C.aColSize ≤ C.aColSize * C.unitWRead :=
    Nat.le_mul_of_pos_right _ C.unitWRead_pos
  have hint := hsecond.2.2.1
  have hvertex : C.aColSize + 1 < sentinel := by
    unfold sentinel
    omega
  have hremain : u64Sub (C.aColSize + 1) 0 = C.aColSize + 1 := u64Sub_of_le (Nat.zero_le _)
  have hreader : (sweep C 0).reader = FoldReader.receiveVertex C (C.aColSize + 1)
      { FoldReader.init C with
        core := (EdgeReader.init C.toParams).receiveData (List.replicate (C.aColSize + 1) 0) } :=
    rfl
  have hzero : (EdgeReader.init C.toParams).curV = 0 := rfl
  rw [hreader]
  simp only [FoldReader.receiveVertex, EdgeReader.receiveVertex, EdgeReader.receiveData, hvertex,
    if_true, hzero, Nat.not_lt_zero, if_false, hremain, Nat.succ_ne_zero]
  refine ⟨FoldReader.init_at.of_eq rfl rfl rfl, rfl, rfl, rfl, rfl, ?_, rfl, rfl⟩
  rw [Nat.zero_mul]
  rfl

/-- While the first block is swept, the reader is at the fold of the column that the number of
items says. -/
theorem sweep_lt (hsecond : C.SecondBlock) {transfers : Nat}
    (hlt : transfers < C.aColSize * C.unitWRead) :
    Transition.Guarded (step C) C.Admitted (init C) (C.sweepOps transfers) ∧
      ∃ q k, q * C.unitWRead + k = transfers ∧ (sweep C transfers).reader.Sweep C q k := by
  induction transfers with
  | zero => exact ⟨⟨trivial, trivial, trivial⟩, 0, 0, by simp, sweep_zero hsecond⟩
  | succ transfers ih =>
    obtain ⟨hguard, q, k, hcount, hsweep⟩ := ih (by omega)
    have hq : q < C.aColSize := by
      by_contra hge
      have := Nat.mul_le_mul_right C.unitWRead (Nat.le_of_not_lt hge)
      omega
    have hadmitted := admitted_of_at hsweep.place hsecond.blockInRange_zero
    rw [sweepOps_succ, Transition.guarded_concat]
    refine ⟨⟨hguard, hadmitted⟩, ?_⟩
    rw [sweep_succ, transfer_eq hsweep.qEmpty hsweep.canReceive
      (FoldReader.transferData_eq (hsweep.fetch hq.le) hsweep.archive hsweep.remain hq.le)]
    rcases Nat.lt_or_ge (k + 1) C.unitWRead with hk | hk
    · exact ⟨q, k + 1, by omega, hsweep.nextFold hq hsecond hk⟩
    · have hlast : k + 1 = C.unitWRead := le_antisymm hsweep.place.place_lt hk
      have hnext : q + 1 < C.aColSize := by
        by_contra hge
        have := Nat.mul_le_mul_right C.unitWRead (Nat.le_of_not_lt hge)
        rw [Nat.succ_mul] at this
        omega
      refine ⟨q + 1, 0, ?_, hsweep.nextColumn hq hsecond hlast hnext⟩
      rw [Nat.succ_mul]
      omega

/-- The sweep over the first block ends with the item of its last fold and in front of the
second block. -/
theorem sweep_block (hsecond : C.SecondBlock) :
    Transition.Guarded (step C) C.Admitted (init C) (C.sweepOps (C.aColSize * C.unitWRead)) ∧
      (sweep C (C.aColSize * C.unitWRead)).reader.Second C ∧
      ∃ d ∈ (sweep C (C.aColSize * C.unitWRead)).emitted,
        d.colindex = 0 ∧ d.OfPlace C 0 (C.unitWRead - 1) := by
  have hpos := C.unitWRead_pos
  have htotal : 0 < C.aColSize * C.unitWRead := Nat.mul_pos hsecond.2.1 hpos
  obtain ⟨transfers, htransfers⟩ := Nat.exists_eq_add_one_of_ne_zero htotal.ne'
  have hlt : transfers < C.aColSize * C.unitWRead := by omega
  obtain ⟨hguard, q, k, hcount, hsweep⟩ := sweep_lt hsecond hlt
  rw [htransfers]
  have hplace : q + 1 = C.aColSize ∧ k + 1 = C.unitWRead := by
    obtain ⟨n, hn⟩ := Nat.exists_eq_add_one_of_ne_zero hsecond.2.1.ne'
    rw [hn, Nat.succ_mul] at htransfers
    have hdigits := mul_add_inj hsweep.place.place_lt (Nat.sub_lt hpos Nat.one_pos)
      (show q * C.unitWRead + k = n * C.unitWRead + (C.unitWRead - 1) by omega)
    omega
  obtain ⟨hq, hk⟩ := hplace
  have hrange := hsecond.blockInRange_zero
  have hadmitted := admitted_of_at hsweep.place hrange
  rw [sweepOps_succ, Transition.guarded_concat, sweep_succ,
    transfer_eq hsweep.qEmpty hsweep.canReceive
      (FoldReader.transferData_eq (hsweep.fetch (by omega)) hsweep.archive hsweep.remain (by omega))]
  refine ⟨⟨hguard, hadmitted⟩, hsweep.nextBlock (by omega) hsecond hk hq, _,
    List.mem_concat_self, rfl, ?_⟩
  rw [show C.unitWRead - 1 = k by omega]
  exact hsweep.place.fetched hrange q

/-- The next item is the one of the first fold of the second block. -/
theorem sweep_emitted (hsecond : C.SecondBlock) :
    Transition.Guarded (step C) C.Admitted (init C)
        (C.sweepOps (C.aColSize * C.unitWRead + 1)) ∧
      ∃ d ∈ (sweep C (C.aColSize * C.unitWRead + 1)).emitted,
        ∃ d' ∈ (sweep C (C.aColSize * C.unitWRead + 1)).emitted,
          (d.colindex = 0 ∧ d.OfPlace C 0 (C.unitWRead - 1)) ∧
            d'.colindex = 0 ∧ d'.OfPlace C 1 0 := by
  obtain ⟨hguard, hstart, d, hd, hplace⟩ := sweep_block hsecond
  have hrange := hsecond.2.2.2
  have hadmitted := admitted_of_at hstart.place hrange
  have hremain : (sweep C (C.aColSize * C.unitWRead)).reader.core.remainColNum =
      C.aColSize + 1 - C.aColSize := by
    rw [hstart.remain, Nat.add_sub_cancel_left]
  rw [sweepOps_succ, Transition.guarded_concat, sweep_succ,
    transfer_eq hstart.qEmpty hstart.canReceive
      (FoldReader.transferData_eq hstart.fetch hstart.archive hremain le_rfl)]
  exact ⟨⟨hguard, hadmitted⟩, d, List.mem_append_left _ hd, _, List.mem_concat_self, hplace, rfl,
    hstart.place.fetched hrange _⟩

end FoldSystem

/-- If a line of the tags reaches over the end of the first block, the last item of the first
block and the first item of the second block have one tag and two addresses. -/
theorem FoldConfig.SecondBlock.linesFit {C : FoldConfig} (hsecond : C.SecondBlock)
    (hagree : C.TagsAgree) : C.LinesFit := by
  refine or_iff_not_imp_left.mpr fun hdvd => ?_
  exfalso
  obtain ⟨hguard, d, hd, d', hd', ⟨hcol, hplace⟩, hcol', hplace'⟩ :=
    FoldSystem.sweep_emitted hsecond
  have hx := hsecond.1
  have hpos := C.unitWRead_pos
  have hagrees := Transition.always_run (hagree _ hguard) d hd d' hd' (by omega) (by omega)
  have htag : d.preWFold = d'.preWFold := by
    rw [hplace.tag, hplace'.tag, Nat.zero_mul, Nat.zero_add, Nat.one_mul, Nat.add_zero,
      Nat.cast_inj]
    have hsucc := Nat.succ_div_of_not_dvd (a := C.unitWRead - 1) (b := C.cacheLineCount)
    rw [Nat.sub_add_cancel hpos] at hsucc
    exact (hsucc hdvd).symm
  have haddress := hagrees.mp ⟨hcol.trans hcol'.symm, htag⟩
  rw [hplace.address_eq_iff hplace' (by omega) (by omega)] at haddress
  exact absurd haddress.1 Nat.zero_ne_one

namespace FoldConfig

/-- Tags and addresses agree if the lines of the tags fit the blocks of folds. Wherever the
second block can be reached, they agree only then. -/
theorem tagsAgree_iff (C : FoldConfig) :
    (C.LinesFit → C.TagsAgree) ∧ (C.SecondBlock → C.TagsAgree → C.LinesFit) :=
  ⟨LinesFit.tagsAgree, SecondBlock.linesFit⟩

/-- Two rows of one column each and two folds, each a block of its own as in the
configurations, with lines of `count` entries. -/
def twoFolds (count : Nat) (hcount : 0 < count) : FoldConfig where
  aH := 2
  row := [0, 1, 2]
  col := [0, 1]
  aH_pos := Nat.two_pos
  row_length := by decide
  row_zero := by decide
  row_mono := by decide
  col_length := by decide
  cacheLineCount := count
  maxV := 2
  wW := 2
  cacheLineCount_pos := hcount
  maxV_pos := Nat.two_pos
  wW_pos := Nat.two_pos
  unitWRead := 1
  xH := 2
  xwStart := 0x4000000000000000
  cacheLineByte := 64
  aColSize := 2
  rowEnd := 2
  unitWRead_pos := Nat.one_pos
  cacheLineByte_pos := Nat.succ_pos 63

/-- The two rows in the first fold, and the first row in the second fold. -/
def secondFold : List FoldOp :=
  [.chunk [0, 1], .vertex 1, .transfer, .vertex 2, .transfer, .chunk [0, 1], .vertex 1, .transfer]

theorem tagsAgree_oneEntryLines :
    let C := twoFolds 1 Nat.one_pos
    Transition.Guarded (FoldSystem.step C) C.Admitted (FoldSystem.init C) secondFold ∧
      (Transition.run (FoldSystem.step C) (FoldSystem.init C) secondFold).emitted.length = 3 ∧
      Transition.Always (FoldSystem.step C) (FoldSystem.Agrees C) (FoldSystem.init C)
        secondFold := by
  intro C
  have hfit : C.LinesFit := Or.inl (one_dvd _)
  have hguard : Transition.Guarded (FoldSystem.step C) C.Admitted (FoldSystem.init C)
      secondFold := by decide +kernel
  exact ⟨hguard, by decide +kernel, (tagsAgree_iff C).1 hfit secondFold hguard⟩

/-- With lines of eight entries column 0 has one tag in both folds, but two addresses. -/
theorem twoFolds_not_agrees :
    let C := twoFolds 8 (Nat.succ_pos 7)
    Transition.Guarded (FoldSystem.step C) C.Admitted (FoldSystem.init C) secondFold ∧
      ¬ FoldSystem.Agrees C
        (Transition.run (FoldSystem.step C) (FoldSystem.init C) secondFold) := by
  unfold FoldSystem.Agrees
  decide +kernel

end FoldConfig

end GcnSim
