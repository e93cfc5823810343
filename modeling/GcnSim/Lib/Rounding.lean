import Mathlib.Data.Nat.Basic
import Mathlib.Data.Nat.Log
import Mathlib.Algebra.Order.Ring.Nat
import Mathlib.Tactic.Ring
import Mathlib.Data.Nat.Factorization.Basic

/-!
# Natural numbers in binary floating point

A natural number is representable with `p` bits if it is a number below `2 ^ p` shifted
by some bits. Rounding to the nearest such number, ties to even, is the identity exactly
on them. The exponent is not bounded: the numbers rounded here are far below the largest
finite number of the formats.
-/

namespace Rounding

/-- The number has a significand of `p` bits. -/
def Representable (p n : Nat) : Prop := ∃ m q, m < 2 ^ p ∧ n = m * 2 ^ q

/-- Round to the nearest number with a significand of `p` bits, ties to even. -/
def round (p n : Nat) : Nat :=
  if n < 2 ^ p then n
  else
    let s := n.log2 + 1 - p
    let q := n / 2 ^ s
    let r := n % 2 ^ s
    (if 2 * r < 2 ^ s ∨ 2 * r = 2 ^ s ∧ q % 2 = 0 then q else q + 1) * 2 ^ s

variable {p n : Nat}

theorem representable_of_lt (h : n < 2 ^ p) : Representable p n := ⟨n, 0, h, by simp⟩

/-- Rounding yields a representable number. -/
theorem representable_round (hp : 0 < p) (n : Nat) : Representable p (round p n) := by
  rw [round]
  split
  · rename_i h
    exact representable_of_lt h
  · rename_i h
    have hn : n ≠ 0 := by
      rintro rfl
      exact h (Nat.two_pow_pos p)
    have hlog : p ≤ n.log2 := (Nat.le_log2 hn).mpr (Nat.not_lt.mp h)
    have hq : n / 2 ^ (n.log2 + 1 - p) < 2 ^ p := by
      rw [Nat.div_lt_iff_lt_mul (Nat.two_pow_pos _), ← Nat.pow_add,
        show p + (n.log2 + 1 - p) = n.log2 + 1 by omega]
      exact Nat.lt_log2_self
    have hone : 1 < 2 ^ p := Nat.one_lt_two_pow hp.ne'
    dsimp only
    split
    · exact ⟨_, _, hq, rfl⟩
    · rcases Nat.lt_or_eq_of_le (Nat.succ_le_of_lt hq) with hlt | heq
      · exact ⟨_, _, hlt, rfl⟩
      · refine ⟨1, p + (n.log2 + 1 - p), hone, ?_⟩
        rw [← Nat.succ_eq_add_one, heq, Nat.pow_add, Nat.one_mul]

/-- Representable numbers are not changed by rounding. -/
theorem round_of_representable (h : Representable p n) : round p n = n := by
  rw [round]
  split
  · rfl
  · rename_i hlt
    obtain ⟨m, q, hm, rfl⟩ := h
    have hn : m * 2 ^ q ≠ 0 := by
      intro hzero
      rw [hzero] at hlt
      exact hlt (Nat.two_pow_pos p)
    have hlog : (m * 2 ^ q).log2 < p + q := by
      rw [Nat.log2_lt hn, Nat.pow_add]
      exact Nat.mul_lt_mul_of_pos_right hm (Nat.two_pow_pos q)
    have hdvd : 2 ^ ((m * 2 ^ q).log2 + 1 - p) ∣ m * 2 ^ q :=
      Dvd.dvd.mul_left (Nat.pow_dvd_pow 2 (by omega)) m
    dsimp only
    rw [Nat.mod_eq_zero_of_dvd hdvd, if_pos (.inl (Nat.two_pow_pos _)), Nat.div_mul_cancel hdvd]

/-- Rounding is exact on the representable numbers only. -/
theorem round_eq_self_iff (hp : 0 < p) : round p n = n ↔ Representable p n := by
  constructor
  · intro h
    rw [← h]
    exact representable_round hp n
  · exact round_of_representable

/-- A factor of a representable number is representable. -/
theorem Representable.of_mul {a b : Nat} (h : Representable p (a * b)) (hb : 0 < b) :
    Representable p a := by
  obtain ⟨m, q, hm, he⟩ := h
  rcases Nat.eq_zero_or_pos a with rfl | ha
  · exact ⟨0, 0, Nat.two_pow_pos p, by simp⟩
  · obtain ⟨k, o, hodd, rfl⟩ := Nat.exists_eq_two_pow_mul_odd ha.ne'
    have hmpos : 0 < m := by
      apply Nat.pos_of_ne_zero
      rintro rfl
      rw [Nat.zero_mul] at he
      exact (Nat.mul_pos ha hb).ne' he
    have hdvd : o ∣ m * 2 ^ q := by
      rw [← he]
      exact Dvd.dvd.mul_right (Dvd.intro_left _ rfl) b
    have hcop : Nat.Coprime o (2 ^ q) := (Nat.coprime_two_right.mpr hodd).pow_right q
    have hle : o ≤ m := Nat.le_of_dvd hmpos (hcop.dvd_of_dvd_mul_right hdvd)
    exact ⟨o, k, hle.trans_lt hm, Nat.mul_comm _ _⟩

/-- A product of three numbers that is rounded after every step is exact only if it is
representable. -/
theorem round_product_eq_iff {a w b : Nat} (hp : 0 < p) (ha : 0 < a) (hb : 0 < b) :
    round p (round p (a * round p w) * round p b) = a * w * b ↔ Representable p (a * w * b) := by
  constructor
  · intro h
    rw [← h]
    exact representable_round hp _
  · intro h
    rcases Nat.eq_zero_or_pos w with rfl | hw
    · have hzero : round p 0 = 0 := round_of_representable (representable_of_lt (Nat.two_pow_pos p))
      rw [hzero, Nat.mul_zero, hzero, Nat.zero_mul, hzero, Nat.zero_mul]
    · have haw : Representable p (a * w) := h.of_mul hb
      have hrw : Representable p w := by
        rw [Nat.mul_comm] at haw
        exact haw.of_mul ha
      have hrb : Representable p b := by
        rw [Nat.mul_comm] at h
        exact h.of_mul (Nat.mul_pos ha hw)
      rw [round_of_representable hrw, round_of_representable haw, round_of_representable hrb,
        round_of_representable h]

/-- An odd representable number fits in the significand. -/
theorem Representable.lt_of_odd (h : Representable p n) (hodd : n % 2 = 1) : n < 2 ^ p := by
  obtain ⟨m, q, hm, rfl⟩ := h
  cases q with
  | zero => simpa using hm
  | succ q =>
    rw [Nat.pow_succ, ← Nat.mul_assoc, Nat.mul_mod_left] at hodd
    cases hodd

end Rounding
