import Mathlib.Data.List.Basic
import Mathlib.Logic.Function.Basic

/-!
# Tables and loops over their keys

An array is kept as a function from its indices. A loop that visits some of the indices, each
once, changes exactly the entries it visits; a loop whose body may fail succeeds exactly when
the body succeeds on every entry.
-/

namespace Table

variable {K V ε : Type*}

/-- One entry of the table no longer meets a test, and the others are as before. -/
theorem countP_clear {ks : List K} {f g : K → Bool} {j : K} (hnodup : ks.Nodup) (hj : j ∈ ks)
    (hf : f j = true) (hg : g j = false) (h : ∀ k ∈ ks, k ≠ j → g k = f k) :
    ks.countP g + 1 = ks.countP f := by
  induction ks with
  | nil => cases hj
  | cons k ks ih =>
    rw [List.nodup_cons] at hnodup
    rcases List.mem_cons.mp hj with rfl | hmem
    · have hsame : ks.countP g = ks.countP f := by
        apply List.countP_congr
        intro i hi
        rw [h i (List.mem_cons_of_mem j hi) (ne_of_mem_of_not_mem hi hnodup.1)]
      rw [List.countP_cons_of_pos hf, List.countP_cons_of_neg (by rw [hg]; decide), hsame]
    · have hk : g k = f k := h k List.mem_cons_self (ne_of_mem_of_not_mem hmem hnodup.1).symm
      have hrest := ih hnodup.2 hmem fun i hi => h i (List.mem_cons_of_mem k hi)
      rw [List.countP_cons, List.countP_cons, hk, ← hrest]
      omega

variable [DecidableEq K]

/-- `for k in ks { t[k] = f(t[k]) }`, for keys that the loop visits once. -/
def forEach (ks : List K) (f : V → V) (t : K → V) : K → V :=
  fun k => if k ∈ ks then f (t k) else t k

/-- The same loop with a body that may fail. -/
def forEachM (f : V → Except ε V) : List K → (K → V) → Except ε (K → V)
  | [], t => .ok t
  | k :: ks, t =>
    match f (t k) with
    | .ok v => forEachM f ks (Function.update t k v)
    | .error e => .error e

theorem forEach_of_notMem {ks : List K} {f : V → V} {t : K → V} {k : K} (h : k ∉ ks) :
    forEach ks f t k = t k := if_neg h

theorem forEach_of_mem {ks : List K} {f : V → V} {t : K → V} {k : K} (h : k ∈ ks) :
    forEach ks f t k = f (t k) := if_pos h

/-- The first round of a loop. -/
theorem forEach_cons {f : V → V} {j : K} {ks : List K} {t : K → V} (hj : j ∉ ks) :
    forEach (j :: ks) f t = forEach ks f (Function.update t j (f (t j))) := by
  funext k
  by_cases hjk : k = j
  · subst hjk
    rw [forEach_of_mem List.mem_cons_self, forEach_of_notMem hj, Function.update_self]
  · by_cases hk : k ∈ ks
    · rw [forEach_of_mem (List.mem_cons_of_mem j hk), forEach_of_mem hk,
        Function.update_of_ne hjk]
    · rw [forEach_of_notMem hk, forEach_of_notMem, Function.update_of_ne hjk]
      rw [List.mem_cons, not_or]
      exact ⟨hjk, hk⟩

/-- The loop is the fold of its rounds. -/
theorem forEach_eq_foldl {ks : List K} {f : V → V} {t : K → V} (hnodup : ks.Nodup) :
    forEach ks f t = ks.foldl (fun t k => Function.update t k (f (t k))) t := by
  induction ks generalizing t with
  | nil => rfl
  | cons j ks ih =>
    rw [List.nodup_cons] at hnodup
    rw [forEach_cons hnodup.1, ih hnodup.2, List.foldl_cons]

/-- A loop that may fail, on entries where the body succeeds. -/
theorem forEachM_eq_ok {ks : List K} {f : V → Except ε V} {g : V → V} {t : K → V}
    (hnodup : ks.Nodup) (h : ∀ k ∈ ks, f (t k) = .ok (g (t k))) :
    forEachM f ks t = .ok (forEach ks g t) := by
  induction ks generalizing t with
  | nil => rfl
  | cons j ks ih =>
    rw [List.nodup_cons] at hnodup
    rw [List.forall_mem_cons] at h
    rw [forEachM, h.1, forEach_cons hnodup.1]
    refine ih hnodup.2 fun k hk => ?_
    have hne : k ≠ j := fun hkj => hnodup.1 (hkj ▸ hk)
    rw [Function.update_of_ne hne]
    exact h.2 k hk

end Table
