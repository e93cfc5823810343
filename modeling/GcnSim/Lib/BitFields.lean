import Mathlib.Data.Set.Function
import Mathlib.Data.List.Nodup
import Mathlib.Algebra.BigOperators.Group.List.Basic
import Mathlib.Tactic.Ring

/-!
# Bit fields

A number is read as a row of named fields, the lowest first. The position of a field is the sum
of the widths of the fields below it. Taking a number apart and putting it together again are
inverse to each other.
-/

namespace BitFields

variable {ι : Type*} {width v w : ι → Nat} {fs : List ι} {f g : ι} {x : Nat}

/-- The number of bits of a layout. -/
def bits (width : ι → Nat) (fs : List ι) : Nat := (fs.map width).sum

/-- The number with the given values in its fields. -/
def pack (width v : ι → Nat) : List ι → Nat
  | [] => 0
  | f :: fs => v f + 2 ^ width f * pack width v fs

/-- The values that fit in their fields. -/
def Fits (width v : ι → Nat) : Prop := ∀ f, v f < 2 ^ width f

@[simp] theorem bits_cons : bits width (f :: fs) = width f + bits width fs := by
  rw [bits, List.map_cons, List.sum_cons, bits]

theorem pack_congr (h : ∀ f ∈ fs, v f = w f) : pack width v fs = pack width w fs := by
  induction fs with
  | nil => rfl
  | cons f fs ih =>
    rw [pack, pack, h f List.mem_cons_self, ih fun g hg => h g (List.mem_cons_of_mem f hg)]

theorem pack_lt (h : Fits width v) : pack width v fs < 2 ^ bits width fs := by
  induction fs with
  | nil => exact Nat.one_pos
  | cons f fs ih =>
    rw [bits_cons, Nat.pow_add, pack]
    calc v f + 2 ^ width f * pack width v fs
        < 2 ^ width f + 2 ^ width f * pack width v fs := Nat.add_lt_add_right (h f) _
      _ = 2 ^ width f * (pack width v fs + 1) := by ring
      _ ≤ 2 ^ width f * 2 ^ bits width fs := Nat.mul_le_mul_left _ ih

variable [DecidableEq ι]

/-- The position of a field. -/
def position (width : ι → Nat) (f : ι) : List ι → Nat
  | [] => 0
  | g :: gs => if g = f then 0 else width g + position width f gs

/-- The value of a field. -/
def field (width : ι → Nat) (fs : List ι) (x : Nat) (f : ι) : Nat :=
  x / 2 ^ position width f fs % 2 ^ width f

@[simp] theorem position_cons_self : position width f (f :: fs) = 0 := if_pos rfl

theorem position_cons_of_ne (h : g ≠ f) :
    position width f (g :: fs) = width g + position width f fs := if_neg h

/-- The fields of a number fit. -/
theorem fits_field : Fits width (field width fs x) := fun _ => Nat.mod_lt _ (Nat.two_pow_pos _)

@[simp] theorem field_cons_self : field width (f :: fs) x f = x % 2 ^ width f := by
  rw [field, position_cons_self, Nat.pow_zero, Nat.div_one]

theorem field_cons_of_ne (h : g ≠ f) :
    field width (g :: fs) x f = field width fs (x / 2 ^ width g) f := by
  rw [field, position_cons_of_ne h, Nat.pow_add, ← Nat.div_div_eq_div_mul, field]

/-- A field of the number that was put together is the value it was given. -/
theorem field_pack (h : Fits width v) (hf : f ∈ fs) : field width fs (pack width v fs) f = v f := by
  induction fs with
  | nil => cases hf
  | cons g fs ih =>
    rw [pack]
    by_cases hg : g = f
    · subst hg
      rw [field_cons_self, Nat.add_mul_mod_self_left, Nat.mod_eq_of_lt (h g)]
    · have hmem : f ∈ fs := (List.mem_cons.mp hf).resolve_left fun he => hg he.symm
      rw [field_cons_of_ne hg, Nat.add_mul_div_left _ _ (Nat.two_pow_pos _),
        Nat.div_eq_of_lt (h g), Nat.zero_add, ih hmem]

/-- A number is put together from its fields. -/
theorem pack_field (hnodup : fs.Nodup) (hx : x < 2 ^ bits width fs) :
    pack width (field width fs x) fs = x := by
  induction fs generalizing x with
  | nil => exact (Nat.lt_one_iff.mp hx).symm
  | cons g fs ih =>
    have htail : pack width (field width (g :: fs) x) fs =
        pack width (field width fs (x / 2 ^ width g)) fs :=
      pack_congr fun f hf => field_cons_of_ne fun he => (List.nodup_cons.mp hnodup).1 (he ▸ hf)
    have hdiv : x / 2 ^ width g < 2 ^ bits width fs := by
      rw [bits_cons, Nat.pow_add] at hx
      exact Nat.div_lt_of_lt_mul hx
    rw [pack, field_cons_self, htail, ih hnodup.of_cons hdiv, Nat.mod_add_div]

/-- Where every field has a place of its own, the numbers below `2 ^ bits` are the values of the
fields, one for one. -/
theorem bijOn_field (hnodup : fs.Nodup) (hall : ∀ f, f ∈ fs) :
    Set.BijOn (field width fs) {x | x < 2 ^ bits width fs} {v | Fits width v} := by
  refine ⟨fun x _ => fits_field, fun x hx y hy hxy => ?_, fun v hv => ?_⟩
  · rw [← pack_field hnodup hx, ← pack_field hnodup hy, hxy]
  · refine ⟨pack width v fs, pack_lt hv, ?_⟩
    ext f
    exact field_pack hv (hall f)

end BitFields
