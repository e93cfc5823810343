import Mathlib.Data.List.Basic
import Mathlib.Tactic.Ring

/-!
# Machine words, queues and line counts

The simulator keeps its data in `std::queue` and `std::vector` objects and does
its bookkeeping in 64-bit words. Queues are lists with the front first. Reading
an empty queue, or a vector past its end, is undefined behaviour of the source:
here such an access yields an arbitrary word and is recorded, so that a run can
be followed past it and still be blamed for it.
-/

namespace GcnSim

/-- The containers the A*XW loop reads from. -/
inductive Access where
  | vertexReqCount | edgeReqCount | vertexReqCountCnt | edgeReqCountCnt
  | adjrowindex | adjcolindex | vq | eq | eCache | vCache
  deriving DecidableEq, Repr

/-- What an undefined read of each container returns. -/
abbrev Junk := Access → Nat

/-- `front()` followed by `pop()`: the value, the rest and the undefined accesses. -/
def popFront (a : Access) (junk : Junk) : List Nat → Nat × List Nat × List Access
  | [] => (junk a, [], [a])
  | x :: xs => (x, xs, [])

@[simp] theorem popFront_cons (a : Access) (junk : Junk) (x : Nat) (xs : List Nat) :
    popFront a junk (x :: xs) = (x, xs, []) := rfl

@[simp] theorem popFront_nil (a : Access) (junk : Junk) :
    popFront a junk [] = (junk a, [], [a]) := rfl

/-- `n` rounds of `front()` and `pop()`: the values, the rest and the undefined accesses. -/
def popMany (a : Access) (junk : Junk) (n : Nat) (q : List Nat) :
    List Nat × List Nat × List Access :=
  if n ≤ q.length then (q.take n, q.drop n, [])
  else (q ++ List.replicate (n - q.length) (junk a), [], [a])

theorem length_popMany (a : Access) (junk : Junk) (n : Nat) (q : List Nat) :
    (popMany a junk n q).1.length = n := by
  rw [popMany]
  split
  · rename_i h
    rw [List.length_take, Nat.min_eq_left h]
  · rename_i h
    rw [List.length_append, List.length_replicate]
    omega

/-- A vector read, with the undefined access of an index past the end. -/
def readAt (a : Access) (junk : Junk) (v : List Nat) (i : Nat) : Nat × List Access :=
  match v[i]? with
  | some x => (x, [])
  | none => (junk a, [a])

theorem readAt_of_lt (a : Access) (junk : Junk) {v : List Nat} {i : Nat} (h : i < v.length) :
    readAt a junk v i = (v[i], []) := by
  simp only [readAt, List.getElem?_eq_getElem h]

/-- The number of `uint64_t` values, `2 ^ 64`. -/
def u64Size : Nat := 18446744073709551616

/-- Addition of `uint64_t` words. -/
def u64Add (a b : Nat) : Nat := if a + b < u64Size then a + b else a + b - u64Size

/-- Subtraction of `uint64_t` words, wrapping below zero. -/
def u64Sub (a b : Nat) : Nat := if b ≤ a then a - b else a + u64Size - b

/-- Subtraction of a smaller word does not wrap. -/
theorem u64Sub_of_le {a b : Nat} (h : b ≤ a) : u64Sub a b = a - b := if_pos h

/-- The largest `int`. -/
def intMax : Nat := 2147483647

/-- Conversion of a `uint64_t` to `int`. -/
def intOfU64 (n : Nat) : Int :=
  if n % 4294967296 < 2147483648 then (n % 4294967296 : Nat)
  else (n % 4294967296 : Nat) - 4294967296

/-- Conversion of an `int` to `uint64_t`, as a comparison of the two does it. -/
def u64OfInt (c : Int) : Nat :=
  if 0 ≤ c then c.toNat else (c + 18446744073709551616).toNat

/-- The value of an `int` after arithmetic that may overflow, in two's complement. -/
def int32 (n : Int) : Int := (n + 2147483648) % 4294967296 - 2147483648

theorem int32_of_lt {n : Nat} (h : n < 2147483648) : int32 n = n := by
  rw [int32]
  omega

theorem int32_add_one (n : Int) : int32 (int32 n + 1) = int32 (n + 1) := by
  simp only [int32]
  omega

theorem intOfU64_of_lt {n : Nat} (h : n < 2147483648) : intOfU64 n = n := by
  rw [intOfU64, Nat.mod_eq_of_lt (by omega), if_pos h]

theorem u64OfInt_natCast (n : Nat) : u64OfInt n = n := by
  rw [u64OfInt, if_pos (Int.natCast_nonneg n), Int.toNat_natCast]

/-- The conversion of a `double` or a `float` to `uint64_t`, undefined from `2 ^ 64` on. -/
def toU64 (x : Nat) : Option Nat := if x < u64Size then some x else none

/-- `ceil((double)a / b)`, taken exactly. -/
def ceilDiv (a b : Nat) : Nat := (a + b - 1) / b

/-- The lines before line `d` of `a` entries hold fewer than `a` entries exactly when
line `d` exists. -/
theorem lt_ceilDiv_iff {a b d : Nat} (hb : 0 < b) : d < ceilDiv a b ↔ d * b < a := by
  rw [ceilDiv, Nat.lt_iff_add_one_le, Nat.le_div_iff_mul_le hb, Nat.succ_mul]
  omega

theorem ceilDiv_le_iff {a b d : Nat} (hb : 0 < b) : ceilDiv a b ≤ d ↔ a ≤ d * b := by
  have h := lt_ceilDiv_iff (a := a) (d := d) hb
  omega

/-- A last line that is not full is one more. -/
theorem ceilDiv_eq {a b : Nat} (hb : 0 < b) : ceilDiv a b = a / b + if b ∣ a then 0 else 1 := by
  have hsplit := Nat.div_add_mod a b
  have hlt := Nat.mod_lt a hb
  rw [ceilDiv]
  split
  · rename_i hdvd
    rw [Nat.mod_eq_zero_of_dvd hdvd] at hsplit
    rw [show a + b - 1 = b * (a / b) + (b - 1) by omega, Nat.mul_add_div hb,
      Nat.div_eq_of_lt (a := b - 1) (by omega)]
  · rename_i hdvd
    have hpos : a % b ≠ 0 := fun h => hdvd (Nat.dvd_of_mod_eq_zero h)
    rw [show a + b - 1 = b * (a / b) + (a % b - 1) + b by omega, Nat.add_div_right _ hb,
      Nat.mul_add_div hb, Nat.div_eq_of_lt (a := a % b - 1) (by omega)]

theorem ceilDiv_of_pos {a b : Nat} (ha : 0 < a) (hb : 0 < b) :
    ceilDiv a b = (a - 1) / b + 1 := by
  rw [ceilDiv, show a + b - 1 = a - 1 + b by omega, Nat.add_div_right _ hb]

theorem ceilDiv_pos {a b : Nat} (ha : 0 < a) (hb : 0 < b) : 0 < ceilDiv a b := by
  rw [lt_ceilDiv_iff hb]
  omega

end GcnSim
