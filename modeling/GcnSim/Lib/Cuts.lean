import Mathlib.Data.List.Chain
import Mathlib.Data.List.Basic

/-!
# Cuts of a sorted list with a minimal gap

A sequence of cuts picks members of a list such that every cut lies at least a
given gap after the one before. Cutting greedily, always at the first member that
is far enough away, is as good as any other way to cut: if some sequence of cuts
ends below a bound, so does the greedy one.
-/

namespace Cuts

/-- There are `n` cuts in `xs`, each at least `gap` after the one before, starting from
`a` and ending below `bound`. -/
def Exists (gap : Nat) (xs : List Nat) (a n bound : Nat) : Prop :=
  ∃ cuts : List Nat, cuts.length = n ∧ (∀ v ∈ cuts, v ∈ xs) ∧
    List.IsChain (fun u v => u + gap ≤ v) (a :: cuts) ∧ cuts.getLastD a < bound

theorem exists_zero (gap : Nat) (xs : List Nat) (a bound : Nat) :
    Exists gap xs a 0 bound ↔ a < bound := by
  constructor
  · rintro ⟨cuts, hlen, -, -, hlast⟩
    rwa [List.length_eq_zero_iff.mp hlen] at hlast
  · intro h
    exact ⟨[], rfl, by simp, List.isChain_singleton a, h⟩

/-- Cuts never go down. -/
theorem le_getLastD {gap a : Nat} {cuts : List Nat}
    (h : List.IsChain (fun u v => u + gap ≤ v) (a :: cuts)) : a ≤ cuts.getLastD a := by
  induction cuts generalizing a with
  | nil => exact le_rfl
  | cons c cuts ih =>
    rw [List.isChain_cons_cons] at h
    rw [List.getLastD_cons]
    have hle := ih h.2
    omega

/-- Without a member between the gap and the bound there is no cut. -/
theorem not_exists_succ {gap : Nat} {xs : List Nat} {a n bound : Nat}
    (h : ∀ v ∈ xs, a + gap ≤ v → bound ≤ v) : ¬ Exists gap xs a (n + 1) bound := by
  rintro ⟨cuts, hlen, hmem, hchain, hlast⟩
  cases cuts with
  | nil => cases hlen
  | cons c cuts =>
    rw [List.isChain_cons_cons] at hchain
    rw [List.getLastD_cons] at hlast
    have hle := le_getLastD hchain.2
    have hbound := h c (hmem c (by simp)) hchain.1
    omega

/-- The first cut may be the greedy one. -/
theorem exists_succ_iff {gap : Nat} (hgap : 0 < gap) {ys zs : List Nat} {a v n bound : Nat}
    (hsorted : (ys ++ v :: zs).Pairwise (· ≤ ·)) (hys : ∀ y ∈ ys, y < a + gap)
    (hv : a + gap ≤ v) :
    Exists gap (ys ++ v :: zs) a (n + 1) bound ↔ Exists gap zs v n bound := by
  constructor
  · rintro ⟨cuts, hlen, hmem, hchain, hlast⟩
    cases cuts with
    | nil => cases hlen
    | cons c cuts =>
      rw [List.isChain_cons_cons] at hchain
      obtain ⟨hc, hchain⟩ := hchain
      have hvc : v ≤ c := by
        rcases List.mem_append.mp (hmem c (by simp)) with hy | hz
        · have := hys c hy
          omega
        · rcases List.mem_cons.mp hz with rfl | hz
          · exact le_rfl
          · exact (List.pairwise_cons.mp (List.pairwise_append.mp hsorted).2.1).1 c hz
      cases cuts with
      | nil =>
        simp only [List.length_cons, List.length_nil] at hlen
        obtain rfl : n = 0 := by omega
        rw [exists_zero]
        exact hvc.trans_lt hlast
      | cons c' cuts =>
        rw [List.isChain_cons_cons] at hchain
        obtain ⟨hc', htail⟩ := hchain
        refine ⟨c' :: cuts, by simpa using hlen, ?_, ?_, hlast⟩
        · intro u hu
          have hcu : c' ≤ u := by
            rcases List.mem_cons.mp hu with rfl | hu
            · exact le_rfl
            · have htrans : List.IsChain (· ≤ ·) (c' :: cuts) :=
                htail.imp fun x y hxy => by omega
              exact (List.pairwise_cons.mp (List.isChain_iff_pairwise.mp htrans)).1 u hu
          rcases List.mem_append.mp (hmem u (List.mem_cons_of_mem _ hu)) with hy | hz
          · have := hys u hy
            omega
          · rcases List.mem_cons.mp hz with rfl | hz
            · omega
            · exact hz
        · exact List.isChain_cons_cons.mpr ⟨by omega, htail⟩
  · rintro ⟨cuts, hlen, hmem, hchain, hlast⟩
    refine ⟨v :: cuts, by rw [List.length_cons, hlen], ?_, ?_, ?_⟩
    · intro u hu
      rcases List.mem_cons.mp hu with rfl | hu
      · simp
      · exact List.mem_append_right _ (List.mem_cons_of_mem _ (hmem u hu))
    · exact List.isChain_cons_cons.mpr ⟨hv, hchain⟩
    · rwa [List.getLastD_cons]

end Cuts
