import GcnSim.Dramsim.Shipped
import GcnSim.Lib.BitFields
import Mathlib.Data.Nat.Log

/-!
# The layout of an address

`SetAddressMapping` reads the order of the six fields of an address from a string of twelve
characters, the highest field first, and stores where each field begins and how wide it is.
`AddressMapping` takes an address apart with them.

Addresses are natural numbers here and have 64 bits in the source. All requests of a device can
be passed if `shift_bits` and the widths of the fields are at most 64 bits together, as the 37
bits of the shipped DDR4 memory, and the masks are right if no field has more than 30 bits.
-/

namespace GcnSim.Dramsim

/-- `LogBase2`. -/
def logBase2 (powerOfTwo : Nat) : Nat :=
  if 1 < powerOfTwo then logBase2 (powerOfTwo / 2) + 1 else 0
termination_by powerOfTwo

theorem logBase2_eq_log2 (n : Nat) : logBase2 n = n.log2 := by
  induction n using logBase2.induct with
  | case1 n h ih => rw [logBase2, if_pos h, ih, n.log2_def, if_pos (Nat.succ_le_of_lt h)]
  | case2 n h => rw [logBase2, if_neg h, n.log2_def, if_neg (by omega)]

/-- The fields of an address. -/
inductive Field where
  | ch | ra | bg | ba | ro | co
  deriving DecidableEq, Repr

namespace Field

def all : List Field := [.ch, .ra, .bg, .ba, .ro, .co]

/-- The key of a field in `field_widths`. -/
def token : Field → List Char
  | ch => ['c', 'h']
  | ra => ['r', 'a']
  | bg => ['b', 'g']
  | ba => ['b', 'a']
  | ro => ['r', 'o']
  | co => ['c', 'o']

/-- `field_widths.find`. -/
def find? (token : List Char) : Option Field := all.find? fun f => decide (f.token = token)

theorem mem_all (f : Field) : f ∈ all := by cases f <;> decide

@[simp] theorem find?_token (f : Field) : find? f.token = some f := by cases f <;> rfl

theorem token_injective : Function.Injective token := by
  intro f g h
  have hfind := congrArg find? h
  rw [find?_token, find?_token] at hfind
  exact Option.some.inj hfind

theorem token_of_find? {token : List Char} {f : Field} (h : find? token = some f) :
    f.token = token := by
  have hfound := List.find?_some h
  exact of_decide_eq_true hfound

/-- Six fields with all of them among them are the fields in some order. -/
theorem nodup_of_forall_mem {fs : List Field} (hlength : fs.length ≤ 6) (hall : ∀ f, f ∈ fs) :
    fs.Nodup := by
  have hsub : List.Subperm all fs := List.subperm_of_subset (by decide) fun f _ => hall f
  exact (hsub.perm_of_length_le hlength).nodup_iff.mp (by decide)

theorem length_of_nodup {fs : List Field} (hnodup : fs.Nodup) (hall : ∀ f, f ∈ fs) :
    fs.length = 6 := by
  have hsub : List.Subperm all fs := List.subperm_of_subset (by decide) fun f _ => hall f
  have hsub' : List.Subperm fs all := List.subperm_of_subset hnodup fun f _ => mem_all f
  exact Nat.le_antisymm hsub'.length_le hsub.length_le

/-- The string that names the fields, for the lowest field first. -/
def name (fs : List Field) : List Char := fs.reverse.flatMap token

end Field

/-- The parameters of `Config` that `SetAddressMapping` reads. -/
structure Geometry where
  busWidth : Nat
  bl : Nat
  channels : Nat
  ranks : Nat
  bankgroups : Nat
  banksPerGroup : Nat
  rows : Nat
  columns : Nat
  /-- A burst lies in a row, so that no field has a negative width. -/
  bl_le : bl ≤ columns
  deriving DecidableEq, Repr

/-- The pairs of characters that `substr` cuts off. -/
def tokens : List Char → List (List Char)
  | a :: b :: cs => [a, b] :: tokens cs
  | [_] => []
  | [] => []

/-- The loop that gives the fields their positions, from the last one on. `none` is
`AbruptExit`. -/
def placeFields (width : Field → Nat) :
    List (List Char) → Nat → (Field → Option Nat) → Option (Field → Option Nat)
  | [], _, fieldPos => some fieldPos
  | token :: rest, pos, fieldPos =>
    match Field.find? token with
    | none => none
    | some f => placeFields width rest (pos + width f) (Function.update fieldPos f (some pos))

namespace Geometry

variable (g : Geometry)

/-- `field_widths`. -/
def fieldWidth : Field → Nat
  | .ch => logBase2 g.channels
  | .ra => logBase2 g.ranks
  | .bg => logBase2 g.bankgroups
  | .ba => logBase2 g.banksPerGroup
  | .ro => logBase2 g.rows
  | .co => logBase2 g.columns - logBase2 g.bl

/-- `request_size_bytes`. -/
def requestSizeBytes : Nat := g.busWidth / 8 * g.bl

/-- `SetAddressMapping`. `none` is the end of the process, by `AbruptExit` or by `at`. -/
def setAddressMapping (addressMapping : List Char) : Option Mapping :=
  if addressMapping.length ≠ 12 then none
  else do
    let fieldPos ← placeFields g.fieldWidth (tokens addressMapping).reverse 0 fun _ => none
    let chPos ← fieldPos .ch
    let raPos ← fieldPos .ra
    let bgPos ← fieldPos .bg
    let baPos ← fieldPos .ba
    let roPos ← fieldPos .ro
    let coPos ← fieldPos .co
    return {
      shiftBits := logBase2 g.requestSizeBytes
      chPos, raPos, bgPos, baPos, roPos, coPos
      chMask := (1 <<< g.fieldWidth .ch) - 1
      raMask := (1 <<< g.fieldWidth .ra) - 1
      bgMask := (1 <<< g.fieldWidth .bg) - 1
      baMask := (1 <<< g.fieldWidth .ba) - 1
      roMask := (1 <<< g.fieldWidth .ro) - 1
      coMask := (1 <<< g.fieldWidth .co) - 1 }

/-- The mapping with the fields in the given order, the lowest first. -/
def layout (fs : List Field) : Mapping where
  shiftBits := logBase2 g.requestSizeBytes
  chPos := BitFields.position g.fieldWidth .ch fs
  raPos := BitFields.position g.fieldWidth .ra fs
  bgPos := BitFields.position g.fieldWidth .bg fs
  baPos := BitFields.position g.fieldWidth .ba fs
  roPos := BitFields.position g.fieldWidth .ro fs
  coPos := BitFields.position g.fieldWidth .co fs
  chMask := (1 <<< g.fieldWidth .ch) - 1
  raMask := (1 <<< g.fieldWidth .ra) - 1
  bgMask := (1 <<< g.fieldWidth .bg) - 1
  baMask := (1 <<< g.fieldWidth .ba) - 1
  roMask := (1 <<< g.fieldWidth .ro) - 1
  coMask := (1 <<< g.fieldWidth .co) - 1

end Geometry

section Tokens

theorem length_tokens (cs : List Char) : (tokens cs).length = cs.length / 2 := by
  induction cs using tokens.induct with
  | case1 a b cs ih =>
    rw [tokens, List.length_cons, ih, List.length_cons, List.length_cons]
    omega
  | case2 a => simp [tokens]
  | case3 => rfl

theorem flatten_tokens {cs : List Char} (h : cs.length % 2 = 0) : (tokens cs).flatten = cs := by
  induction cs using tokens.induct with
  | case1 a b cs ih =>
    rw [List.length_cons, List.length_cons] at h
    rw [tokens, List.flatten_cons, ih (by omega)]
    rfl
  | case2 a => cases h
  | case3 => rfl

theorem tokens_flatMap (fs : List Field) :
    tokens (fs.flatMap Field.token) = fs.map Field.token := by
  induction fs with
  | nil => rfl
  | cons f fs ih =>
    rw [List.flatMap_cons, List.map_cons, ← ih]
    cases f <;> rfl

theorem length_flatMap_token (fs : List Field) :
    (fs.flatMap Field.token).length = 2 * fs.length := by
  induction fs with
  | nil => rfl
  | cons f fs ih =>
    rw [List.flatMap_cons, List.length_append, ih, List.length_cons]
    cases f <;> (simp only [Field.token, List.length_cons, List.length_nil]; omega)

end Tokens

section Place

variable {width : Field → Nat}

/-- The loop finds the fields of the tokens, and a field that occurs once gets the sum of the
widths below it. -/
theorem placeFields_spec {tokens : List (List Char)} {pos : Nat} {m m' : Field → Option Nat}
    (h : placeFields width tokens pos m = some m') :
    ∃ fs : List Field, tokens = fs.map Field.token ∧ (∀ f, f ∉ fs → m' f = m f) ∧
      (fs.Nodup → ∀ f ∈ fs, m' f = some (pos + BitFields.position width f fs)) := by
  induction tokens generalizing pos m with
  | nil =>
    obtain rfl := Option.some.inj h
    exact ⟨[], rfl, fun _ _ => rfl, fun _ f hf => (List.not_mem_nil hf).elim⟩
  | cons token tokens ih =>
    rw [placeFields] at h
    cases hfind : Field.find? token with
    | none =>
      rw [hfind] at h
      cases h
    | some g =>
      rw [hfind] at h
      obtain ⟨fs, rfl, hkept, hplaced⟩ := ih h
      refine ⟨g :: fs, ?_, fun f hf => ?_, fun hnodup f hf => ?_⟩
      · rw [List.map_cons, Field.token_of_find? hfind]
      · rw [List.mem_cons, not_or] at hf
        rw [hkept f hf.2, Function.update_of_ne hf.1]
      · obtain ⟨hg, hnodup⟩ := List.nodup_cons.mp hnodup
        by_cases hgf : g = f
        · subst hgf
          rw [hkept g hg, Function.update_self, BitFields.position_cons_self, Nat.add_zero]
        · have hmem : f ∈ fs := (List.mem_cons.mp hf).resolve_left fun he => hgf he.symm
          rw [hplaced hnodup f hmem, BitFields.position_cons_of_ne hgf, Nat.add_assoc]

/-- The loop places the tokens of fields. -/
theorem placeFields_tokens (fs : List Field) (pos : Nat) (m : Field → Option Nat) :
    ∃ m', placeFields width (fs.map Field.token) pos m = some m' := by
  induction fs generalizing pos m with
  | nil => exact ⟨m, rfl⟩
  | cons f fs ih =>
    rw [List.map_cons, placeFields, Field.find?_token]
    exact ih _ _

end Place

namespace Geometry

variable (g : Geometry)

/-- An accepted string names every field, and the fields lie where it says. -/
theorem layout_of_setAddressMapping {s : List Char} {m : Mapping}
    (h : g.setAddressMapping s = some m) :
    ∃ fs : List Field, fs.Nodup ∧ (∀ f, f ∈ fs) ∧ s = Field.name fs ∧ m = g.layout fs := by
  rw [setAddressMapping] at h
  split at h
  · cases h
  · rename_i hlength
    have hlength : s.length = 12 := not_not.mp hlength
    simp only [Option.bind_eq_bind, Option.bind_eq_some_iff, Option.pure_def,
      Option.some.injEq] at h
    obtain ⟨fieldPos, hplace, ch, hch, ra, hra, bg, hbg, ba, hba, ro, hro, co, hco, rfl⟩ := h
    obtain ⟨fs, htokens, hkept, hplaced⟩ := placeFields_spec hplace
    have hsome : ∀ f, ∃ p, fieldPos f = some p := by
      intro f
      cases f
      exacts [⟨ch, hch⟩, ⟨ra, hra⟩, ⟨bg, hbg⟩, ⟨ba, hba⟩, ⟨ro, hro⟩, ⟨co, hco⟩]
    -- A field without a token has no position, and `at` ends the process.
    have hall : ∀ f, f ∈ fs := by
      intro f
      by_contra hf
      obtain ⟨p, hp⟩ := hsome f
      rw [hkept f hf] at hp
      cases hp
    have hcount := congrArg List.length htokens
    rw [List.length_reverse, length_tokens, List.length_map, hlength] at hcount
    have hnodup := Field.nodup_of_forall_mem hcount.symm.le hall
    refine ⟨fs, hnodup, hall, ?_, ?_⟩
    · rw [Field.name, List.flatMap_def, List.map_reverse, ← htokens, List.reverse_reverse,
        flatten_tokens (by rw [hlength])]
    · have hpos : ∀ {f p}, fieldPos f = some p → p = BitFields.position g.fieldWidth f fs := by
        intro f p hp
        rw [hplaced hnodup f (hall f), Nat.zero_add] at hp
        exact (Option.some.inj hp).symm
      rw [layout, hpos hch, hpos hra, hpos hbg, hpos hba, hpos hro, hpos hco]

/-- A string that names every field once is accepted. -/
theorem setAddressMapping_name {fs : List Field} (hnodup : fs.Nodup) (hall : ∀ f, f ∈ fs) :
    g.setAddressMapping (Field.name fs) = some (g.layout fs) := by
  have hlength : (Field.name fs).length = 12 := by
    rw [Field.name, length_flatMap_token, List.length_reverse, Field.length_of_nodup hnodup hall]
  obtain ⟨fieldPos, hplace⟩ := @placeFields_tokens g.fieldWidth fs 0 fun _ => none
  have hpos : ∀ f, fieldPos f = some (BitFields.position g.fieldWidth f fs) := by
    intro f
    obtain ⟨fs', hfs', -, hplaced⟩ := placeFields_spec hplace
    obtain rfl := List.map_injective_iff.mpr Field.token_injective hfs'
    rw [hplaced hnodup f (hall f), Nat.zero_add]
  rw [setAddressMapping, if_neg (not_not.mpr hlength), Field.name, tokens_flatMap,
    List.map_reverse, List.reverse_reverse, hplace]
  simp only [Option.bind_eq_bind, Option.bind_some, hpos]
  rfl

/-- A string is accepted exactly if it names every field, and then the fields lie where it says;
with every other string the process ends. -/
theorem setAddressMapping_eq_some_iff (s : List Char) (m : Mapping) :
    g.setAddressMapping s = some m ↔
      ∃ fs : List Field, fs.Nodup ∧ (∀ f, f ∈ fs) ∧ s = Field.name fs ∧ m = g.layout fs := by
  constructor
  · exact g.layout_of_setAddressMapping
  · rintro ⟨fs, hnodup, hall, rfl, rfl⟩
    exact g.setAddressMapping_name hnodup hall

end Geometry

/-- A coordinate by the name of its field. -/
def Address.coordinate (a : Address) : Field → Int
  | .ch => a.channel
  | .ra => a.rank
  | .bg => a.bankgroup
  | .ba => a.bank
  | .ro => a.row
  | .co => a.column

/-- The address with the given coordinates. -/
def Address.ofCoordinates (v : Field → Nat) : Address :=
  ⟨v .ch, v .ra, v .bg, v .ba, v .ro, v .co⟩

@[simp] theorem Address.coordinate_ofCoordinates (v : Field → Nat) (f : Field) :
    (Address.ofCoordinates v).coordinate f = v f := by
  cases f <;> rfl

theorem Address.ext_coordinate {a b : Address} (h : ∀ f, a.coordinate f = b.coordinate f) :
    a = b := by
  cases a
  cases b
  rw [Address.mk.injEq]
  exact ⟨h .ch, h .ra, h .bg, h .ba, h .ro, h .co⟩

namespace Geometry

variable {g : Geometry} {cfg : Config}

/-- The bits of an address above those of a request. -/
def addressBits (g : Geometry) : Nat := BitFields.bits g.fieldWidth Field.all

/-- The addresses of the device, with as many units of a kind as its field can tell apart. -/
def Cell (g : Geometry) (a : Address) : Prop :=
  ∀ f, 0 ≤ a.coordinate f ∧ a.coordinate f < 2 ^ g.fieldWidth f

theorem bits_eq_addressBits {fs : List Field} (hnodup : fs.Nodup) (hall : ∀ f, f ∈ fs) :
    BitFields.bits g.fieldWidth fs = g.addressBits := by
  have hperm : fs.Perm Field.all :=
    (List.perm_ext_iff_of_nodup hnodup (by decide)).mpr fun f =>
      ⟨fun _ => f.mem_all, fun _ => hall f⟩
  exact (hperm.map g.fieldWidth).sum_eq

theorem bijOn_ofCoordinates :
    Set.BijOn Address.ofCoordinates {v | BitFields.Fits g.fieldWidth v} {a | g.Cell a} := by
  refine ⟨fun v hv f => ?_, fun v _ w _ hvw => ?_, fun a ha => ?_⟩
  · rw [Address.coordinate_ofCoordinates]
    exact ⟨Int.natCast_nonneg _, by exact_mod_cast hv f⟩
  · ext f
    have hcoord := congrArg (Address.coordinate · f) hvw
    simp only [Address.coordinate_ofCoordinates] at hcoord
    exact_mod_cast hcoord
  · refine ⟨fun f => (a.coordinate f).toNat, fun f => ?_, Address.ext_coordinate fun f => ?_⟩
    · obtain ⟨hnonneg, hlt⟩ := ha f
      exact (Int.toNat_lt hnonneg).mpr (by exact_mod_cast hlt)
    · rw [Address.coordinate_ofCoordinates, Int.toNat_of_nonneg (ha f).1]

/-- `AddressMapping` reads the fields of the request. -/
theorem addressMapping_eq {fs : List Field} (h : cfg.mapping = g.layout fs) (hexAddr : Nat) :
    cfg.addressMapping hexAddr =
      .ofCoordinates (BitFields.field g.fieldWidth fs (hexAddr >>> cfg.mapping.shiftBits)) := by
  apply Address.ext_coordinate
  intro f
  rw [Address.coordinate_ofCoordinates, BitFields.field, ← Nat.shiftRight_eq_div_pow,
    ← Nat.and_two_pow_sub_one_eq_mod, ← Nat.one_shiftLeft, Config.addressMapping, h]
  cases f <;> rfl

/-- The addresses of one request have the same coordinates, and the requests below
`2 ^ addressBits` are the cells of the device, one for one: no two of them share a cell and none
is left over. -/
theorem addressMapping_bijOn {s : List Char} (h : g.setAddressMapping s = some cfg.mapping) :
    (∀ hexAddr, cfg.addressMapping hexAddr =
      cfg.addressMapping (hexAddr >>> cfg.mapping.shiftBits <<< cfg.mapping.shiftBits)) ∧
      Set.BijOn (fun request => cfg.addressMapping (request <<< cfg.mapping.shiftBits))
        {request | request < 2 ^ g.addressBits} {a | g.Cell a} := by
  obtain ⟨fs, hnodup, hall, -, hlayout⟩ := g.layout_of_setAddressMapping h
  constructor
  · intro hexAddr
    rw [addressMapping_eq hlayout, addressMapping_eq hlayout, Nat.shiftLeft_shiftRight]
  · have hfields := bijOn_ofCoordinates.comp
      (@BitFields.bijOn_field _ g.fieldWidth _ _ hnodup hall)
    rw [bits_eq_addressBits hnodup hall] at hfields
    refine hfields.congr fun request _ => ?_
    rw [addressMapping_eq hlayout, Nat.shiftLeft_shiftRight]
    rfl

/-- The sizes of the HBM memory. -/
def hbm2 : Geometry := ⟨128, 4, 8, 1, 4, 4, 32768, 128, by decide⟩

theorem hbm2_setAddressMapping :
    hbm2.setAddressMapping ['r', 'o', 'r', 'a', 'b', 'g', 'b', 'a', 'c', 'h', 'c', 'o'] =
      some Dramsim.hbm2.mapping := by
  refine (@setAddressMapping_name hbm2 [.co, .ch, .ba, .bg, .ra, .ro] (by decide)
    fun f => by cases f <;> decide).trans (congrArg some ?_)
  simp only [Dramsim.hbm2, hbm2, layout, BitFields.position, fieldWidth, requestSizeBytes,
    logBase2_eq_log2, reduceCtorEq, if_true, if_false]
  decide

/-- The layout of the DDR4 memory. -/
example : setAddressMapping ⟨64, 8, 1, 8, 4, 4, 131072, 1024, by decide⟩
    ['r', 'o', 'c', 'h', 'r', 'a', 'b', 'a', 'b', 'g', 'c', 'o'] = some Dramsim.ddr4.mapping := by
  refine (@setAddressMapping_name _ [.co, .bg, .ba, .ra, .ch, .ro] (by decide)
    fun f => by cases f <;> decide).trans (congrArg some ?_)
  simp only [Dramsim.ddr4, layout, BitFields.position, fieldWidth, requestSizeBytes,
    logBase2_eq_log2, reduceCtorEq, if_true, if_false]
  decide

theorem addressMapping_bijOn_hbm2 :
    (∀ hexAddr, Dramsim.hbm2.addressMapping hexAddr =
      Dramsim.hbm2.addressMapping (hexAddr >>> 6 <<< 6)) ∧
      Set.BijOn (fun request => Dramsim.hbm2.addressMapping (request <<< 6))
        {request | request < 2 ^ hbm2.addressBits} {a | hbm2.Cell a} :=
  addressMapping_bijOn hbm2_setAddressMapping

/-- The addresses of the tests in `test_config.cc`. -/
example : (Dramsim.hbm2.addressMapping 0b11111000000).column = 31 ∧
    (Dramsim.hbm2.addressMapping 0b111110111111111111).channel = 5 ∧
    (Dramsim.hbm2.addressMapping 0b1111011111111111111).bank = 2 := by decide

end Geometry

end GcnSim.Dramsim
