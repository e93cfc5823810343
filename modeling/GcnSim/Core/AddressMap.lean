import GcnSim.Core.Dram

/-!
# The address map

The configurations put the data of the simulator in regions `2 ^ 60` bytes apart, and
`Distributer` gives every unit an offset in each region, `2 ^ 52` bytes apart. A reply of the
memory comes back with its address only: `ReturnDataType` and `ReadCompleteCallback` find the
region from it, and `ReturnID` the unit. `ReturnID` keeps the lowest 56 bits, which hold a
unit number below 16, while a region has room for 256 units.
-/

namespace GcnSim

/-- The start addresses of the regions. -/
structure AddressMap where
  /-- `X_START`. -/
  xStart : Nat
  /-- `A_ROW_START`. -/
  aRowStart : Nat
  /-- `A_COL_START`. -/
  aColStart : Nat
  /-- `WEIGHT_START`. -/
  weightStart : Nat
  /-- `XW_START`. -/
  xwStart : Nat
  /-- `AXW_START`. -/
  axwStart : Nat
  deriving DecidableEq, Repr

/-- `enum Type`. -/
inductive DataType where
  | x | aRow | aCol
  deriving DecidableEq, Repr

/-- The addresses of the completed reads. -/
structure CompletedReads where
  fReadComplete : Bool
  wReadComplete : Bool
  fAddress : List Nat
  wAddress : List Nat
  deriving DecidableEq, Repr

namespace AddressMap

/-- The addresses of the configurations. -/
def shipped : AddressMap where
  xStart := 0x0000000000000000
  aRowStart := 0x1000000000000000
  aColStart := 0x2000000000000000
  weightStart := 0x3000000000000000
  xwStart := 0x4000000000000000
  axwStart := 0x5000000000000000

/-- `a_row_offset[i]`, `a_col_offset[i]` and `axw_offset[i]`. -/
def unitOffset (i : Nat) : Nat := 0x0010000000000000 * i % u64Size

/-- `req_address` of a reader after `k` requests. -/
def reqAddress (start offset cacheLineByte : Nat) : Nat → Nat
  | 0 => u64Add start offset
  | k + 1 => u64Add (reqAddress start offset cacheLineByte k) cacheLineByte

/-- `Distributer::ReturnID`. -/
def returnID (address : Nat) : Nat := (address &&& 0x00ffffffffffffff) / 0x0010000000000000

variable (M : AddressMap)

/-- `DataController::ReturnDataType`; behind the columns nothing is returned. -/
def returnDataType (address : Nat) : Option DataType :=
  if M.xStart ≤ address ∧ address < M.aRowStart then some .x
  else if M.aRowStart ≤ address ∧ address < M.aColStart then some .aRow
  else if M.aColStart ≤ address ∧ address < M.weightStart then some .aCol
  else none

/-- `DRAMInterface::ReadCompleteCallback`. -/
def readCompleteCallback (address : Nat) (r : CompletedReads) : CompletedReads :=
  if address < M.weightStart then
    { r with
      fReadComplete := true
      fAddress := r.fAddress ++ [address] }
  else
    { r with
      wReadComplete := true
      wAddress := r.wAddress ++ [address] }

/-- The address that unit `i` requests line `k` of its rows with. -/
def rowAddress (cacheLineByte i k : Nat) : Nat :=
  reqAddress M.aRowStart (unitOffset i) cacheLineByte k

/-- The address that unit `i` requests line `k` of its columns with. -/
def colAddress (cacheLineByte i k : Nat) : Nat :=
  reqAddress M.aColStart (unitOffset i) cacheLineByte k

/-- The reply with this address goes to unit `i`, with its type, and not as a weight. -/
structure DecodesTo (address i : Nat) (t : DataType) : Prop where
  unit : returnID address = i
  type : M.returnDataType address = some t
  feature : ∀ r, M.readCompleteCallback address r =
    { r with
      fReadComplete := true
      fAddress := r.fAddress ++ [address] }

/-- The replies of all lines of all units are decoded as they were requested. -/
def Decodes (totAcc cacheLineByte : Nat) : Prop :=
  ∀ i < totAcc, ∀ k, k * cacheLineByte < 0x0010000000000000 →
    M.DecodesTo (M.rowAddress cacheLineByte i k) i .aRow ∧
      M.DecodesTo (M.colAddress cacheLineByte i k) i .aCol

/-- The offsets of the units fit in a region. -/
def UnitsFit (totAcc : Nat) : Prop := totAcc * 0x0010000000000000 ≤ 0x1000000000000000

variable {M}

/-- The mask keeps the lowest 56 bits. -/
theorem returnID_eq (address : Nat) :
    returnID address = address % 72057594037927936 / 4503599627370496 := by
  have hmask : address &&& 0x00ffffffffffffff = address % 2 ^ 56 :=
    Nat.and_two_pow_sub_one_eq_mod address 56
  rw [returnID, hmask]
  rfl

/-- A line of a unit lies where it should, if it does not leave the place of the unit. -/
theorem reqAddress_eq {start i cacheLineByte k : Nat} (hstart : start ≤ 0x5000000000000000)
    (hi : i < 256) (hk : k * cacheLineByte < 0x0010000000000000) :
    reqAddress start (unitOffset i) cacheLineByte k =
      start + 0x0010000000000000 * i + k * cacheLineByte := by
  have hoffset : unitOffset i = 0x0010000000000000 * i := by
    rw [unitOffset, u64Size]
    omega
  induction k with
  | zero =>
    rw [reqAddress, hoffset, u64Add, u64Size, if_pos (by omega), Nat.zero_mul, Nat.add_zero]
  | succ k ih =>
    rw [Nat.succ_mul] at hk
    have hline := ih (by omega)
    rw [reqAddress, hline, u64Add, u64Size, if_pos (by omega), Nat.succ_mul k,
      ← Nat.add_assoc]

/-- A line of rows or columns of unit `i` is read as one of unit `i % 16`. -/
theorem returnID_line {start i m : Nat}
    (hstart : start = 0x1000000000000000 ∨ start = 0x2000000000000000)
    (hm : m < 0x0010000000000000) :
    returnID (start + 0x0010000000000000 * i + m) = i % 16 := by
  rw [returnID_eq]
  omega

/-- The region of a line is found again for every unit that has a place in it. -/
theorem decodesTo_line {start i m : Nat} {t : DataType}
    (hstart : start = shipped.aRowStart ∧ t = .aRow ∨ start = shipped.aColStart ∧ t = .aCol)
    (hi : i < 256) (hm : m < 0x0010000000000000) :
    shipped.DecodesTo (start + 0x0010000000000000 * i + m) i t ↔ i < 16 := by
  have hunit := returnID_line (i := i) (hstart.imp And.left And.left) hm
  constructor
  · intro h
    have heq := h.unit
    rw [hunit] at heq
    omega
  · intro h16
    constructor
    case unit =>
      rw [hunit]
      exact Nat.mod_eq_of_lt h16
    case type =>
      obtain ⟨rfl, rfl⟩ | ⟨rfl, rfl⟩ := hstart
      · rw [returnDataType, if_neg (by simp only [shipped]; omega),
          if_pos (by simp only [shipped]; omega)]
      · rw [returnDataType, if_neg (by simp only [shipped]; omega),
          if_neg (by simp only [shipped]; omega), if_pos (by simp only [shipped]; omega)]
    case feature =>
      intro r
      have hbelow : start + 0x0010000000000000 * i + m < shipped.weightStart := by
        obtain ⟨rfl, rfl⟩ | ⟨rfl, rfl⟩ := hstart <;> simp only [shipped] <;> omega
      rw [readCompleteCallback, if_pos hbelow]

/-- The replies of all units are decoded as they were requested exactly if there are at most
sixteen units. -/
theorem decodes_iff (totAcc cacheLineByte : Nat) (hfit : UnitsFit totAcc) :
    shipped.Decodes totAcc cacheLineByte ↔ totAcc ≤ 16 := by
  rw [UnitsFit] at hfit
  constructor
  · intro h
    by_contra hlt
    have hrow := (h 16 (by omega) 0 (by omega)).1
    rw [rowAddress, reqAddress_eq (by decide) (by decide) (by omega),
      decodesTo_line (Or.inl ⟨rfl, rfl⟩) (by decide) (by omega)] at hrow
    omega
  · intro h16 i hi k hk
    constructor
    · rw [rowAddress, reqAddress_eq (by decide) (by omega) hk,
        decodesTo_line (Or.inl ⟨rfl, rfl⟩) (by omega) hk]
      omega
    · rw [colAddress, reqAddress_eq (by decide) (by omega) hk,
        decodesTo_line (Or.inr ⟨rfl, rfl⟩) (by omega) hk]
      omega

theorem decodes_sixteenUnits : UnitsFit 16 ∧ shipped.Decodes 16 64 :=
  ⟨by unfold UnitsFit; decide, (decodes_iff 16 64 (by unfold UnitsFit; decide)).mpr le_rfl⟩

/-- Of seventeen units the rows of the last one are answered to the first. -/
theorem seventeenUnits_not_decoded :
    UnitsFit 17 ∧ returnID (shipped.rowAddress 64 16 0) = 0 ∧ ¬ shipped.Decodes 17 64 := by
  refine ⟨by unfold UnitsFit; decide, by decide, fun h => ?_⟩
  exact absurd (h 16 (by decide) 0 (by decide)).1.unit (by decide)

/-- The start of a region of the A*XW loop. -/
def regionStart : Region → Nat
  | .aRow => shipped.aRowStart
  | .aCol => shipped.aColStart
  | .xw => shipped.xwStart
  | .axw => shipped.axwStart

/-- The type of the data of a region. -/
def regionType : Region → Option DataType
  | .aRow => some .aRow
  | .aCol => some .aCol
  | .xw | .axw => none

/-- A line of a region as an address of the first unit. -/
def encode (cacheLineByte : Nat) (a : Address) : Nat :=
  regionStart a.region + a.line * cacheLineByte

/-- The tests of the source on addresses are tests on the region of a line. -/
theorem encode_spec {cacheLineByte : Nat} {a : Address}
    (hline : a.line * cacheLineByte < 0x1000000000000000) :
    (encode cacheLineByte a < shipped.weightStart ↔ a.region.belowWeight = true) ∧
      (shipped.axwStart ≤ encode cacheLineByte a ↔ a.region = .axw) ∧
      shipped.returnDataType (encode cacheLineByte a) = regionType a.region := by
  obtain ⟨region, line⟩ := a
  change line * cacheLineByte < _ at hline
  refine ⟨?_, ?_, ?_⟩
  · cases region <;> simp [encode, regionStart, Region.belowWeight, shipped] <;> omega
  · cases region <;> simp [encode, regionStart, shipped] <;> omega
  · rw [returnDataType]
    cases region with
    | aRow =>
      rw [if_neg (by simp only [encode, regionStart, shipped]; omega),
        if_pos (by simp only [encode, regionStart, shipped]; omega)]
      rfl
    | aCol =>
      rw [if_neg (by simp only [encode, regionStart, shipped]; omega),
        if_neg (by simp only [encode, regionStart, shipped]; omega),
        if_pos (by simp only [encode, regionStart, shipped]; omega)]
      rfl
    | xw =>
      rw [if_neg (by simp only [encode, regionStart, shipped]; omega),
        if_neg (by simp only [encode, regionStart, shipped]; omega),
        if_neg (by simp only [encode, regionStart, shipped]; omega)]
      rfl
    | axw =>
      rw [if_neg (by simp only [encode, regionStart, shipped]; omega),
        if_neg (by simp only [encode, regionStart, shipped]; omega),
        if_neg (by simp only [encode, regionStart, shipped]; omega)]
      rfl

/-- The address that the first unit requests a line with. -/
def lineAddress (cacheLineByte : Nat) (a : Address) : Nat :=
  reqAddress (regionStart a.region) (unitOffset 0) cacheLineByte a.line

/-- The lines of a region are requested one after another from its start on. -/
theorem lineAddress_eq_encode {cacheLineByte : Nat} {a : Address}
    (hline : a.line * cacheLineByte < 0x0010000000000000) :
    lineAddress cacheLineByte a = encode cacheLineByte a := by
  have hstart : regionStart a.region ≤ 0x5000000000000000 := by
    cases a.region <;> decide
  rw [lineAddress, reqAddress_eq hstart (by decide) hline, encode, Nat.mul_zero, Nat.add_zero]

/-- The replies to the first unit come back to it. -/
theorem returnID_encode {cacheLineByte : Nat} {a : Address}
    (hline : a.line * cacheLineByte < 0x0010000000000000) :
    returnID (encode cacheLineByte a) = 0 := by
  obtain ⟨region, line⟩ := a
  change line * cacheLineByte < _ at hline
  rw [returnID_eq]
  cases region <;> simp only [encode, regionStart, shipped] <;> omega

end AddressMap

end GcnSim
