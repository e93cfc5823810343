import Mathlib.Data.List.Basic

/-!
# While loops

A loop is given by the body of one round, which goes on from a new state or leaves
with a result. A run has a number of rounds it may take; `Returns` says that some
number is enough. The rules are the unfolding of one round, that the result is the
only one, and total correctness by an invariant and a measure, which also says how
many rounds are enough.
-/

namespace While

variable {σ ρ : Type*}

/-- The loop with at most `rounds` rounds. -/
def exec (body : σ → σ ⊕ ρ) : Nat → σ → Option ρ
  | 0, _ => none
  | rounds + 1, s =>
    match body s with
    | .inl s' => exec body rounds s'
    | .inr r => some r

/-- The loop ends with `r`. -/
def Returns (body : σ → σ ⊕ ρ) (s : σ) (r : ρ) : Prop := ∃ rounds, exec body rounds s = some r

variable {body : σ → σ ⊕ ρ} {s s' : σ} {r r' : ρ}

theorem exec_succ_of_inl (h : body s = .inl s') (rounds : Nat) :
    exec body (rounds + 1) s = exec body rounds s' := by
  rw [exec, h]

theorem exec_succ_of_inr (h : body s = .inr r) (rounds : Nat) :
    exec body (rounds + 1) s = some r := by
  rw [exec, h]

/-- More rounds than enough make no difference. -/
theorem exec_mono {n m : Nat} (h : exec body n s = some r) (hle : n ≤ m) :
    exec body m s = some r := by
  induction n generalizing s m with
  | zero => cases h
  | succ n ih =>
    obtain ⟨m, rfl⟩ := Nat.exists_eq_add_of_le hle
    rw [Nat.add_right_comm]
    cases hbody : body s with
    | inl s' =>
      rw [exec_succ_of_inl hbody] at h ⊢
      exact ih h (Nat.le_add_right n m)
    | inr x =>
      rw [exec_succ_of_inr hbody] at h ⊢
      exact h

theorem Returns.unique (h : Returns body s r) (h' : Returns body s r') : r = r' := by
  obtain ⟨n, hn⟩ := h
  obtain ⟨m, hm⟩ := h'
  have hn' := exec_mono hn (Nat.le_max_left n m)
  rw [exec_mono hm (Nat.le_max_right n m)] at hn'
  exact (Option.some.inj hn').symm

/-- A round that goes on. -/
theorem returns_of_inl (h : body s = .inl s') : Returns body s r ↔ Returns body s' r := by
  constructor
  · rintro ⟨_ | rounds, hr⟩
    · cases hr
    · exact ⟨rounds, by rwa [exec_succ_of_inl h] at hr⟩
  · rintro ⟨rounds, hr⟩
    exact ⟨rounds + 1, by rwa [exec_succ_of_inl h]⟩

/-- A round that leaves the loop. -/
theorem returns_of_inr (h : body s = .inr r) : Returns body s r :=
  ⟨1, exec_succ_of_inr h 0⟩

/-- A loop whose rounds keep an invariant and lower a measure ends, within as many rounds as
the measure says, and its result meets what the invariant says of a last round. -/
theorem exec_of_measure {I : σ → Prop} {Q : ρ → Prop} (μ : σ → Nat)
    (hnext : ∀ s s', I s → body s = .inl s' → I s' ∧ μ s' < μ s)
    (hdone : ∀ s r, I s → body s = .inr r → Q r) (hs : I s) :
    ∃ r, exec body (μ s + 1) s = some r ∧ Q r := by
  have hrounds : ∀ n s, I s → μ s < n → ∃ r, exec body n s = some r ∧ Q r := by
    intro n
    induction n with
    | zero => exact fun s _ hlt => absurd hlt (Nat.not_lt_zero _)
    | succ n ih =>
      intro s hs hlt
      cases hbody : body s with
      | inl s' =>
        obtain ⟨hs', hlt'⟩ := hnext s s' hs hbody
        rw [exec_succ_of_inl hbody]
        exact ih s' hs' (by omega)
      | inr x => exact ⟨x, exec_succ_of_inr hbody n, hdone s x hs hbody⟩
  exact hrounds (μ s + 1) s hs (Nat.lt_succ_self _)

end While
