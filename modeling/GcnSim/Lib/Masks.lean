import Mathlib.Data.List.Basic

/-!
# Erasing positions of lists

A mask says for each position of a list whether it is kept; positions past the end of the
mask are. Lists from which the positions of the same mask are erased stay position by
position what they were.
-/

namespace Masks

variable {α β : Type*}

/-- The entries of a list at the positions that the mask keeps. -/
def pick : List Bool → List α → List α
  | [], xs => xs
  | _ :: _, [] => []
  | true :: mask, x :: xs => x :: pick mask xs
  | false :: mask, _ :: xs => pick mask xs

theorem pick_map (f : α → β) (mask : List Bool) (xs : List α) :
    pick mask (xs.map f) = (pick mask xs).map f := by
  induction mask, xs using pick.induct with
  | case1 xs => rfl
  | case2 b mask => rfl
  | case3 mask x xs ih => rw [List.map_cons, pick, pick, List.map_cons, ih]
  | case4 mask x xs ih => rw [List.map_cons, pick, pick, ih]

/-- From lists of the same length the same number of entries is kept. -/
theorem length_pick_eq (mask : List Bool) {xs : List α} {ys : List β}
    (h : xs.length = ys.length) : (pick mask xs).length = (pick mask ys).length := by
  have hunit : xs.map (fun _ => ()) = ys.map (fun _ => ()) := by
    rw [List.map_const', List.map_const', h]
  have hpick := congrArg (fun l => (pick mask l).length) hunit
  simpa only [pick_map, List.length_map] using hpick

theorem pick_sublist (mask : List Bool) (xs : List α) : (pick mask xs).Sublist xs := by
  induction mask, xs using pick.induct with
  | case1 xs => exact List.Sublist.refl xs
  | case2 b mask => exact List.Sublist.refl []
  | case3 mask x xs ih => exact ih.cons_cons x
  | case4 mask x xs ih => exact ih.cons x

end Masks
