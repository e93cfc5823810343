import GcnSim.Cache.Hybrid
import GcnSim.Lib.Blocks

/-!
# The vertices of the bloom filters

The constructor of `BloomFilter` tells for every vertex which filter counts its columns,
which overlapping filter does, and whether the overlapping filter is asked for a victim.
The three tables are built by separate loops. They cover the vertices exactly, and no
vertex asks an overlapping filter that it does not have; but only the filters take up the
remainder of `a_h`, one vertex each, so the overlapping filters fall behind their blocks.
-/

namespace GcnSim

namespace HybridConfig

variable (C : HybridConfig)

/-- `blockVertexN`. -/
def blockVertexN : Nat := C.aH / C.bloomFilterNum

/-- The vertices that are left over. -/
def remainder : Nat := C.aH % C.bloomFilterNum

/-- The vertices of a block in front of its overlapping filter, `ovlStartIdx - 1`. -/
def ovlOffset : Nat := C.blockVertexN * (100 - C.bfOverlap) / 100

/-- The filter index and the flag that `GlobalBuffer::ReceiveData` gives to
`BloomFilter::replace` for a row. -/
def replaceArgs (junk : HybridJunk) (row : Nat) : Int × Bool :=
  if C.bfOverlap = 0 ∨ C.useOvlBF.getD row junk.bit = false then
    (C.bfIdx.getD row junk.word, false)
  else (C.ovlBFIdx.getD row junk.word, true)

/-- The numbers of vertices of the overlapping filters. -/
def ovlCounts : List Nat :=
  List.replicate (C.bloomFilterNum - 1) C.blockVertexN ++
    [C.blockVertexN + C.remainder - C.ovlOffset]

/-- The flags `useOvlBF` of a block of `n` vertices. -/
def ovlFlags (n : Nat) : List Bool :=
  List.replicate C.ovlOffset false ++ List.replicate (n - C.ovlOffset) true

variable {C}

section Spread

variable {total num : Nat}

theorem length_spread : (spread total num).length = num := by
  rw [spread, List.length_map, List.length_range]

/-- The first blocks are one larger. -/
theorem getD_spread {i : Nat} (hi : i < num) :
    (spread total num).getD i 0 = total / num + if i < total % num then 1 else 0 := by
  have hmod : total - num * (total / num) = total % num := by
    have h := Nat.div_add_mod total num
    omega
  rw [List.getD_eq_getElem?_getD, spread, List.getElem?_map, List.getElem?_range hi, hmod]
  rfl

/-- A block starts after the blocks before it, of which the first are one larger. -/
theorem offset_spread {i : Nat} (hi : i ≤ num) :
    Blocks.offset (spread total num) i = i * (total / num) + min i (total % num) := by
  induction i with
  | zero => simp
  | succ i ih =>
    have hlt : i < (spread total num).length := by
      rw [length_spread]
      omega
    rw [Blocks.offset_succ hlt, ih (by omega), getD_spread (by omega), Nat.succ_mul]
    split <;> omega

theorem sum_spread (hnum : 0 < num) : (spread total num).sum = total := by
  have h : Blocks.offset (spread total num) num = _ := offset_spread le_rfl
  have hmod := Nat.mod_lt total hnum
  have hsplit := Nat.div_add_mod total num
  rw [Blocks.offset, List.take_of_length_le length_spread.le, Nat.min_eq_right hmod.le] at h
  omega

/-- A block has the rounded-down or the rounded-up share of the vertices. -/
theorem getD_spread_eq (hnum : 0 < num) {i : Nat} (hi : i < num) :
    (spread total num).getD i 0 = total / num ∨
      (spread total num).getD i 0 = ceilDiv total num := by
  rw [getD_spread hi]
  split
  · rename_i hlt
    have hdvd : ¬ num ∣ total := by
      intro h
      rw [Nat.mod_eq_zero_of_dvd h] at hlt
      omega
    rw [ceilDiv_eq hnum, if_neg hdvd]
    exact Or.inr rfl
  · exact Or.inl rfl

end Spread

theorem ovlOffset_le : C.ovlOffset ≤ C.blockVertexN := by
  refine Nat.div_le_of_le_mul ?_
  rw [Nat.mul_comm 100]
  exact Nat.mul_le_mul_left _ (Nat.sub_le 100 C.bfOverlap)

theorem blockVertexN_le : C.blockVertexN ≤ C.aH := Nat.div_le_self _ _

theorem remainder_lt : C.remainder < C.bloomFilterNum := Nat.mod_lt _ C.bloomFilterNum_pos

theorem aH_eq : C.aH = C.bloomFilterNum * C.blockVertexN + C.remainder :=
  (Nat.div_add_mod C.aH C.bloomFilterNum).symm

/-- The part of a block in front of its overlapping filter fits in an `int`, since `a_h` is
read with `stoi`. -/
theorem ovlSkip_eq (haH : C.aH < 2147483648) (hovl : C.bfOverlap ≤ 100) :
    C.ovlSkip = C.ovlOffset := by
  have hle := ovlOffset_le (C := C)
  have hblock := blockVertexN_le (C := C)
  have hprod : C.blockVertexN * (100 - C.bfOverlap) ≤ C.blockVertexN * 100 :=
    Nat.mul_le_mul_left _ (Nat.sub_le 100 _)
  have hword : C.blockVertexN * (100 - C.bfOverlap) < u64Size := by
    rw [u64Size]
    omega
  have hstart : C.ovlStartIdx = intOfU64 (C.ovlOffset + 1) := by
    rw [ovlStartIdx, u64Sub_of_le hovl]
    change intOfU64 (C.blockVertexN * (100 - C.bfOverlap) % u64Size / 100 + 1) = _
    rw [Nat.mod_eq_of_lt hword]
    rfl
  rw [ovlSkip, hstart, intOfU64, int32]
  split <;> omega

theorem ovlBlkIdxVector_eq (haH : C.aH < 2147483648) (hovl : C.bfOverlap ≤ 100) :
    C.ovlBlkIdxVector.map Int.toNat = C.ovlCounts := by
  have hle := ovlOffset_le (C := C)
  have hpos := C.bloomFilterNum_pos
  have hlast : (C.aH - (C.bloomFilterNum - 1) * C.blockVertexN - C.ovlSkip : Int) =
      (C.blockVertexN + C.remainder - C.ovlOffset : Nat) := by
    rw [ovlSkip_eq haH hovl, aH_eq, Int.ofNat_sub (by omega)]
    push_cast
    ring
  have hfit : C.blockVertexN + C.remainder - C.ovlOffset < 2147483648 := by
    have hsplit := aH_eq (C := C)
    have hblock : C.blockVertexN ≤ C.bloomFilterNum * C.blockVertexN :=
      Nat.le_mul_of_pos_left _ hpos
    omega
  rw [ovlBlkIdxVector, ovlCounts, List.map_append, List.map_replicate, List.map_singleton]
  change List.replicate _ _ ++ [Int.toNat (int32 (C.aH - (C.bloomFilterNum - 1) * C.blockVertexN -
    C.ovlSkip))] = _
  rw [hlast, int32_of_lt hfit, Int.toNat_natCast]
  rfl

/-- The tables are the block numbers of the vertices. -/
theorem flatMap_replicate_eq (counts : List Nat) :
    (counts.zipIdx.flatMap fun b => List.replicate b.1 (b.2 : Int)) =
      (Blocks.labels counts).map Nat.cast := by
  rw [Blocks.labels, Blocks.labelsFrom, List.map_flatMap]
  simp only [List.map_replicate]

theorem bfIdx_eq : C.bfIdx = (Blocks.labels (spread C.aH C.bloomFilterNum)).map Nat.cast :=
  flatMap_replicate_eq _

theorem ovlBFIdx_eq (haH : C.aH < 2147483648) (hovl : C.bfOverlap ≤ 100) :
    C.ovlBFIdx = List.replicate C.ovlOffset (-1) ++
      (Blocks.labels C.ovlCounts).map Nat.cast := by
  rw [ovlBFIdx, ovlSkip_eq haH hovl, Int.toNat_natCast, ← ovlBlkIdxVector_eq haH hovl,
    ← flatMap_replicate_eq, List.zipIdx_map, List.flatMap_map]
  rfl

theorem length_ovlCounts : C.ovlCounts.length = C.bloomFilterNum := by
  have hpos := C.bloomFilterNum_pos
  rw [ovlCounts, List.length_append, List.length_replicate, List.length_singleton]
  omega

/-- The overlapping filters are of `blockVertexN` vertices each. -/
theorem offset_ovlCounts {i : Nat} (hi : i < C.bloomFilterNum) :
    Blocks.offset C.ovlCounts i = i * C.blockVertexN := by
  rw [Blocks.offset, ovlCounts, List.take_append_of_le_length (by simp; omega),
    List.take_replicate, List.sum_replicate_nat, Nat.min_eq_left (by omega)]

theorem getD_ovlCounts {i : Nat} (hi : i < C.bloomFilterNum) :
    C.ovlCounts.getD i 0 = if i = C.bloomFilterNum - 1
      then C.blockVertexN + C.remainder - C.ovlOffset else C.blockVertexN := by
  rw [ovlCounts, List.getD_eq_getElem?_getD, List.getElem?_append, List.length_replicate]
  split
  · rename_i h
    rw [List.getElem?_replicate_of_lt h, if_neg (by omega), Option.getD_some]
  · rename_i h
    rw [show i - (C.bloomFilterNum - 1) = 0 by omega, if_pos (by omega)]
    rfl

theorem sum_ovlCounts : C.ovlCounts.sum + C.ovlOffset = C.aH := by
  have hle := ovlOffset_le (C := C)
  have hpos := C.bloomFilterNum_pos
  have haH := aH_eq (C := C)
  obtain ⟨n, hn⟩ : ∃ n, C.bloomFilterNum = n + 1 := ⟨C.bloomFilterNum - 1, by omega⟩
  rw [hn, Nat.succ_mul] at haH
  rw [ovlCounts, List.sum_append, List.sum_replicate_nat, List.sum_singleton, hn,
    Nat.add_sub_cancel]
  omega

/-- The flags are put together block by block. -/
theorem useOvlBF_eq (haH : C.aH < 2147483648) (hovl : C.bfOverlap ≤ 100) :
    C.useOvlBF = ((spread C.aH C.bloomFilterNum).map C.ovlFlags).flatten := by
  have hrest : ∀ n : Nat, ((n : Int) - (C.ovlOffset : Int)).toNat = n - C.ovlOffset := by
    omega
  rw [useOvlBF, ovlSkip_eq haH hovl, Int.toNat_natCast, List.flatMap_def]
  simp only [hrest]
  rfl

/-- A block has a flag for every vertex: the overlapping filter starts inside the block. -/
theorem length_ovlFlags : ∀ n ∈ spread C.aH C.bloomFilterNum, (C.ovlFlags n).length = n := by
  intro n hn
  obtain ⟨k, -, rfl⟩ := List.mem_map.mp hn
  have hle : C.ovlOffset ≤ C.aH / C.bloomFilterNum := ovlOffset_le
  rw [ovlFlags, List.length_append, List.length_replicate, List.length_replicate]
  omega

/-- Every vertex lies in a block. -/
theorem exists_vertex_block {v : Nat} (hv : v < C.aH) : ∃ i < C.bloomFilterNum, ∃ t,
    t < (spread C.aH C.bloomFilterNum).getD i 0 ∧
      v = i * C.blockVertexN + min i C.remainder + t := by
  have hsum : (spread C.aH C.bloomFilterNum).sum = C.aH := sum_spread C.bloomFilterNum_pos
  rw [← hsum] at hv
  obtain ⟨i, hi, hstart, hend⟩ := Blocks.exists_block hv
  rw [length_spread] at hi
  rw [offset_spread hi.le] at hstart hend
  refine ⟨i, hi, v - (i * C.blockVertexN + min i C.remainder), ?_, ?_⟩
  · change v < i * C.blockVertexN + min i C.remainder + _ at hend
    change i * C.blockVertexN + min i C.remainder ≤ v at hstart
    omega
  · exact (Nat.add_sub_cancel' hstart).symm

/-- The vertices of filter `i` are those of block `i`. -/
theorem getElem?_bfIdx {i v : Nat} (hi : i < C.bloomFilterNum) :
    C.bfIdx[v]? = some (i : Int) ↔ i * C.blockVertexN + min i C.remainder ≤ v ∧
      v < i * C.blockVertexN + min i C.remainder + (spread C.aH C.bloomFilterNum).getD i 0 := by
  have hlabel := Blocks.getElem?_labels (spread C.aH C.bloomFilterNum) v i
  rw [length_spread, offset_spread hi.le, and_iff_right hi] at hlabel
  rw [bfIdx_eq, List.getElem?_map, Option.map_eq_some_iff]
  simp only [Nat.cast_inj, exists_eq_right]
  exact hlabel

/-- The vertices of overlapping filter `i`. -/
theorem getElem?_ovlBFIdx (haH : C.aH < 2147483648) (hovl : C.bfOverlap ≤ 100) {i v : Nat}
    (hi : i < C.bloomFilterNum) (hv : C.ovlOffset ≤ v) :
    C.ovlBFIdx[v]? = some (i : Int) ↔ C.ovlOffset + i * C.blockVertexN ≤ v ∧
      v < C.ovlOffset + i * C.blockVertexN + C.ovlCounts.getD i 0 := by
  have hlabel := Blocks.getElem?_labels C.ovlCounts (v - C.ovlOffset) i
  rw [length_ovlCounts, offset_ovlCounts hi, and_iff_right hi] at hlabel
  rw [ovlBFIdx_eq haH hovl, List.getElem?_append_right (by rwa [List.length_replicate]),
    List.length_replicate, List.getElem?_map, Option.map_eq_some_iff]
  simp only [Nat.cast_inj, exists_eq_right]
  rw [hlabel]
  omega

/-- Vertex `t` of a block asks the overlapping filter unless it is in front of it. -/
theorem getElem?_useOvlBF (haH : C.aH < 2147483648) (hovl : C.bfOverlap ≤ 100) {i t : Nat}
    (hi : i < C.bloomFilterNum) (ht : t < (spread C.aH C.bloomFilterNum).getD i 0) :
    C.useOvlBF[i * C.blockVertexN + min i C.remainder + t]? = some (decide (C.ovlOffset ≤ t)) := by
  have hoffset : Blocks.offset (spread C.aH C.bloomFilterNum) i = _ := offset_spread hi.le
  rw [useOvlBF_eq haH hovl]
  change _[i * (C.aH / C.bloomFilterNum) + min i (C.aH % C.bloomFilterNum) + t]? = _
  rw [← hoffset, Blocks.getElem?_flatten_map length_ovlFlags (by rwa [length_spread]) ht,
    ovlFlags, List.getElem?_append, List.length_replicate]
  split
  · rename_i hlt
    rw [List.getElem?_replicate_of_lt hlt, decide_eq_false (by omega)]
  · rename_i hge
    rw [List.getElem?_replicate_of_lt (by omega), decide_eq_true (by omega)]

/-- What the three tables are to be. -/
structure CoversVertices (C : HybridConfig) : Prop where
  length_bfIdx : C.bfIdx.length = C.aH
  length_ovlBFIdx : C.ovlBFIdx.length = C.aH
  length_useOvlBF : C.useOvlBF.length = C.aH
  nondecreasing : C.bfIdx.Pairwise (· ≤ ·)
  valid : ∀ f ∈ C.bfIdx, ∃ i < C.bloomFilterNum, f = (i : Int)
  /-- A filter has a run of vertices, as many as the rounded share of a filter. -/
  consecutive : ∀ i < C.bloomFilterNum, ∃ start n,
    (n = C.aH / C.bloomFilterNum ∨ n = ceilDiv C.aH C.bloomFilterNum) ∧
      ∀ v, C.bfIdx[v]? = some (i : Int) ↔ start ≤ v ∧ v < start + n
  ovl_valid : ∀ f ∈ C.ovlBFIdx, f = -1 ∨ ∃ i < C.bloomFilterNum, f = (i : Int)
  /-- A vertex that asks an overlapping filter has one. -/
  use_ovl : ∀ v : Nat, C.useOvlBF[v]? = some true → C.ovlBFIdx[v]? ≠ some (-1)
  /-- The buffer gives the index of a filter to `BloomFilter::replace`. -/
  replace_valid : C.algo = .bf → ∀ row < C.aH, ∀ junk, ∃ i < C.bloomFilterNum, ∃ useOvl,
    C.replaceArgs junk row = ((i : Int), useOvl) ∧ ∀ tags (hb : HybridBuffer),
      hb.victim C junk row tags = hb.bf.replace C junk.word i useOvl tags

theorem ovl_valid_of_mem (haH : C.aH < 2147483648) (hovl : C.bfOverlap ≤ 100) {f : Int}
    (hf : f ∈ C.ovlBFIdx) : f = -1 ∨ ∃ i < C.bloomFilterNum, f = (i : Int) := by
  rw [ovlBFIdx_eq haH hovl, List.mem_append] at hf
  obtain hf | hf := hf
  · exact Or.inl (List.mem_replicate.mp hf).2
  · obtain ⟨i, hi, rfl⟩ := List.mem_map.mp hf
    obtain ⟨x, hx⟩ := List.mem_iff_getElem?.mp hi
    have hlt := ((Blocks.getElem?_labels _ _ _).mp hx).1
    rw [length_ovlCounts] at hlt
    exact Or.inr ⟨i, hlt, rfl⟩

theorem bf_valid_of_mem {f : Int} (hf : f ∈ C.bfIdx) : ∃ i < C.bloomFilterNum, f = (i : Int) := by
  rw [bfIdx_eq] at hf
  obtain ⟨i, hi, rfl⟩ := List.mem_map.mp hf
  obtain ⟨x, hx⟩ := List.mem_iff_getElem?.mp hi
  have hlt := ((Blocks.getElem?_labels _ _ _).mp hx).1
  rw [length_spread] at hlt
  exact ⟨i, hlt, rfl⟩

theorem length_useOvlBF_eq (haH : C.aH < 2147483648) (hovl : C.bfOverlap ≤ 100) :
    C.useOvlBF.length = C.aH := by
  rw [useOvlBF_eq haH hovl, Blocks.length_flatten_map length_ovlFlags,
    sum_spread C.bloomFilterNum_pos]

theorem length_bfIdx_eq : C.bfIdx.length = C.aH := by
  rw [bfIdx_eq, List.length_map, Blocks.length_labels, sum_spread C.bloomFilterNum_pos]

theorem length_ovlBFIdx_eq (haH : C.aH < 2147483648) (hovl : C.bfOverlap ≤ 100) :
    C.ovlBFIdx.length = C.aH := by
  have hsum := sum_ovlCounts (C := C)
  rw [ovlBFIdx_eq haH hovl, List.length_append, List.length_replicate, List.length_map,
    Blocks.length_labels]
  omega

/-- The block of a vertex whose flag is on, and its place behind the start of the
overlapping filter. -/
theorem block_of_useOvlBF (haH : C.aH < 2147483648) (hovl : C.bfOverlap ≤ 100) {v : Nat}
    (hv : C.useOvlBF[v]? = some true) : ∃ i < C.bloomFilterNum, ∃ t, C.ovlOffset ≤ t ∧
      t < (spread C.aH C.bloomFilterNum).getD i 0 ∧
        v = i * C.blockVertexN + min i C.remainder + t := by
  have hlt : v < C.aH := by
    rw [← length_useOvlBF_eq haH hovl]
    exact (List.getElem?_eq_some_iff.mp hv).1
  obtain ⟨i, hi, t, ht, rfl⟩ := exists_vertex_block hlt
  rw [getElem?_useOvlBF haH hovl hi ht, Option.some_inj, decide_eq_true_eq] at hv
  exact ⟨i, hi, t, hv, ht, rfl⟩

theorem ovlBFIdx_ne_of_useOvlBF (haH : C.aH < 2147483648) (hovl : C.bfOverlap ≤ 100) {v : Nat}
    (hv : C.useOvlBF[v]? = some true) : C.ovlBFIdx[v]? ≠ some (-1) := by
  obtain ⟨i, hi, t, hle, ht, hvt⟩ := block_of_useOvlBF haH hovl hv
  rw [ovlBFIdx_eq haH hovl, List.getElem?_append_right (by rw [List.length_replicate]; omega)]
  intro hminus
  obtain ⟨n, -, hn⟩ := List.mem_map.mp (List.mem_of_getElem? hminus)
  exact absurd hn (by omega)

/-- Every row is given a filter index that is not `-1`. -/
theorem replaceArgs_valid (haH : C.aH < 2147483648) (hovl : C.bfOverlap ≤ 100) {row : Nat}
    (hrow : row < C.aH) (junk : HybridJunk) :
    ∃ i < C.bloomFilterNum, (C.replaceArgs junk row).1 = (i : Int) := by
  have hbf := List.getElem?_eq_getElem (hrow.trans_eq length_bfIdx_eq.symm)
  have hovlBf := List.getElem?_eq_getElem (hrow.trans_eq (length_ovlBFIdx_eq haH hovl).symm)
  have hflag := List.getElem?_eq_getElem (hrow.trans_eq (length_useOvlBF_eq haH hovl).symm)
  rw [replaceArgs, List.getD_eq_getElem?_getD, List.getD_eq_getElem?_getD,
    List.getD_eq_getElem?_getD, hbf, hovlBf, hflag]
  simp only [Option.getD_some]
  split
  · exact bf_valid_of_mem (List.getElem_mem _)
  · rename_i hflagOn
    obtain hminus | hvalid := ovl_valid_of_mem haH hovl (List.getElem_mem
      (hrow.trans_eq (length_ovlBFIdx_eq haH hovl).symm))
    · rw [not_or, Bool.not_eq_false] at hflagOn
      rw [hflagOn.2] at hflag
      rw [hminus] at hovlBf
      exact absurd hovlBf (ovlBFIdx_ne_of_useOvlBF haH hovl hflag)
    · exact hvalid

end HybridConfig

/-- A line of another fold than 0 takes the way that `BloomFilter::replace` picks for the
filter of its row. -/
theorem HybridBuffer.victim_eq_replace {C : HybridConfig} (halgo : C.algo = .bf)
    (junk : HybridJunk) (row : Nat) (tags : List Tag) (hb : HybridBuffer) :
    hb.victim C junk row tags = hb.bf.replace C junk.word (C.replaceArgs junk row).1
      (C.replaceArgs junk row).2 tags := by
  simp only [victim, halgo, HybridConfig.replaceArgs]
  split <;> rfl

namespace HybridConfig

/-- The tables of the filters cover the vertices, whatever the number of vertices, the number
of filters and the overlap. -/
theorem coversVertices (C : HybridConfig) (haH : C.aH < 2147483648)
    (hovl : C.bfOverlap ≤ 100) : C.CoversVertices where
  length_bfIdx := length_bfIdx_eq
  length_ovlBFIdx := length_ovlBFIdx_eq haH hovl
  length_useOvlBF := length_useOvlBF_eq haH hovl
  nondecreasing := by
    rw [bfIdx_eq, List.pairwise_map]
    exact (Blocks.pairwise_labels _).imp Int.ofNat_le.mpr
  valid _ hf := bf_valid_of_mem hf
  consecutive i hi := ⟨_, _, getD_spread_eq C.bloomFilterNum_pos hi, fun _ => getElem?_bfIdx hi⟩
  ovl_valid _ hf := ovl_valid_of_mem haH hovl hf
  use_ovl _ hv := ovlBFIdx_ne_of_useOvlBF haH hovl hv
  replace_valid halgo row hrow junk := by
    obtain ⟨i, hi, hargs⟩ := replaceArgs_valid haH hovl hrow junk
    refine ⟨i, hi, (C.replaceArgs junk row).2, Prod.ext hargs rfl, fun tags hb => ?_⟩
    rw [hb.victim_eq_replace halgo junk row tags, hargs]

/-- Two ways, with the numbers of vertices and of filters and the overlap given. -/
def filters (aH bloomFilterNum bfOverlap : Nat) (hpos : 0 < bloomFilterNum) : HybridConfig where
  algo := .bf
  setN := 1
  wayN := 2
  aH := aH
  bloomFilterNum := bloomFilterNum
  bfLen := 4
  bfOverlap := bfOverlap
  movMedBlockNum := 1
  setN_pos := Nat.one_pos
  wayN_pos := Nat.two_pos
  bloomFilterNum_pos := hpos
  bfLen_pos := Nat.succ_pos 3
  movMedBlockNum_pos := Nat.one_pos

theorem coversVertices_sevenVertices : (filters 7 2 50 Nat.two_pos).CoversVertices :=
  coversVertices _ (by decide) (by decide)

/-- The overlapping filter of a block is the one that is asked in the tail of the block. -/
def OvlAligned (C : HybridConfig) : Prop :=
  ∀ v : Nat, C.useOvlBF[v]? = some true → C.ovlBFIdx[v]? = C.bfIdx[v]?

variable {C : HybridConfig}

/-- The tail of every block lies in its overlapping filter if the remainder is not larger
than the part of a block in front of it. -/
theorem ovlAligned_of_le (haH : C.aH < 2147483648) (hovl : C.bfOverlap ≤ 100)
    (hle : C.remainder ≤ C.ovlOffset) : C.OvlAligned := by
  intro v hv
  obtain ⟨i, hi, t, hstart, ht, hvt⟩ := block_of_useOvlBF haH hovl hv
  have hbf : C.bfIdx[v]? = some (i : Int) :=
    (getElem?_bfIdx hi).mpr ⟨by omega, by omega⟩
  rw [hbf, getElem?_ovlBFIdx haH hovl hi (by omega), getD_ovlCounts hi]
  rw [getD_spread hi] at ht
  change t < C.blockVertexN + (if i < C.remainder then 1 else 0) at ht
  have hsmall := ovlOffset_le (C := C)
  refine ⟨by omega, ?_⟩
  split <;> split at ht <;> omega

/-- The last vertex of the last larger block belongs to the next overlapping filter if the
remainder is larger. -/
theorem not_ovlAligned_of_lt (haH : C.aH < 2147483648) (hovl : C.bfOverlap ≤ 100)
    (hlt : C.ovlOffset < C.remainder) : ¬ C.OvlAligned := by
  intro h
  have hrem := remainder_lt (C := C)
  have hsmall := ovlOffset_le (C := C)
  have hi : C.remainder - 1 < C.bloomFilterNum := by omega
  have ht : C.blockVertexN < (spread C.aH C.bloomFilterNum).getD (C.remainder - 1) 0 := by
    rw [getD_spread hi]
    change _ < C.blockVertexN + (if C.remainder - 1 < C.remainder then 1 else 0)
    rw [if_pos (by omega)]
    exact Nat.lt_succ_self _
  have hflag := getElem?_useOvlBF haH hovl hi ht
  rw [decide_eq_true hsmall] at hflag
  have hbf := (getElem?_bfIdx (C := C) hi).mpr ⟨Nat.le_add_right _ C.blockVertexN,
    Nat.add_lt_add_left ht _⟩
  rw [← h _ hflag, getElem?_ovlBFIdx haH hovl hi (by omega), getD_ovlCounts hi,
    if_neg (by omega)] at hbf
  omega

/-- The overlapping filters are aligned with their blocks exactly if the vertices that are
left over are not more than the vertices of a block in front of its overlapping filter. -/
theorem ovlAligned_iff (C : HybridConfig) (haH : C.aH < 2147483648) (hovl : C.bfOverlap ≤ 100) :
    C.OvlAligned ↔ C.aH % C.bloomFilterNum ≤
      C.aH / C.bloomFilterNum * (100 - C.bfOverlap) / 100 := by
  constructor
  · intro h
    by_contra hlt
    exact not_ovlAligned_of_lt haH hovl (Nat.lt_of_not_le hlt) h
  · exact ovlAligned_of_le haH hovl

theorem ovlAligned_nineVertices : (filters 9 2 50 Nat.two_pos).OvlAligned :=
  (ovlAligned_iff _ (by decide) (by decide)).mpr (by decide)

/-- Eleven vertices in four blocks with an overlap of half a block: vertex 8, the last one of
block 2, is given the overlapping filter 3. -/
theorem elevenVertices_not_ovlAligned :
    (filters 11 4 50 (Nat.succ_pos 3)).bfIdx[8]? = some 2 ∧
      (filters 11 4 50 (Nat.succ_pos 3)).ovlBFIdx[8]? = some 3 ∧
      (filters 11 4 50 (Nat.succ_pos 3)).useOvlBF[8]? = some true ∧
      ¬ (filters 11 4 50 (Nat.succ_pos 3)).OvlAligned := by
  refine ⟨by decide, by decide, by decide, ?_⟩
  intro h
  exact absurd (h 8 (by decide)) (by decide)

end HybridConfig

end GcnSim
