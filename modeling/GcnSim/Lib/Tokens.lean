import Mathlib.Data.List.Basic

/-!
# Tokens of a text

A text is cut at a separator. As with `getline`, the text after the last separator is a
token only if it is not empty.
-/

namespace Tokens

variable {α : Type*} [DecidableEq α] {sep : α}

/-- The tokens of a text, where `cur` is the token read so far. -/
def split (sep : α) : List α → List α → List (List α)
  | cur, [] => if cur = [] then [] else [cur]
  | cur, c :: cs => if c = sep then cur :: split sep [] cs else split sep (cur ++ [c]) cs

/-- A word without separator goes on the current token. -/
theorem split_append {word : List α} (h : sep ∉ word) (cur rest : List α) :
    split sep cur (word ++ rest) = split sep (cur ++ word) rest := by
  induction word generalizing cur with
  | nil => simp
  | cons c word ih =>
    rw [List.mem_cons, not_or] at h
    rw [List.cons_append, split, if_neg (Ne.symm h.1), ih h.2, List.append_assoc,
      List.singleton_append]

/-- Words that each end with a separator are the tokens. -/
theorem split_terminated {words : List (List α)} (h : ∀ w ∈ words, sep ∉ w) (rest : List α) :
    split sep [] (words.flatMap (· ++ [sep]) ++ rest) = words ++ split sep [] rest := by
  induction words with
  | nil => rfl
  | cons w words ih =>
    rw [List.forall_mem_cons] at h
    rw [List.flatMap_cons, List.append_assoc, List.append_assoc, split_append h.1,
      List.nil_append, List.singleton_append, split, if_pos rfl, ih h.2, List.cons_append]

/-- A last word needs no separator. -/
theorem split_last {word : List α} (h : sep ∉ word) (hne : word ≠ []) :
    split sep [] word = [word] := by
  have hsplit := split_append h [] []
  rw [List.append_nil, List.nil_append] at hsplit
  rw [hsplit, split, if_neg hne]

end Tokens
