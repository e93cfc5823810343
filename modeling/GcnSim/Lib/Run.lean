import Mathlib.Data.List.Basic

/-!
# Runs of a deterministic step function

A system reads one input per step. A run is a fold of the step function over
the inputs; whatever the environment decides is part of the input. The rules
below turn a fact about one step into a fact about every run, also for runs
whose steps all meet a guard on the state they start from.
-/

namespace Transition

variable {σ ι : Type*}

/-- The state after a list of inputs. -/
def run (step : σ → ι → σ) (s : σ) (inputs : List ι) : σ := inputs.foldl step s

@[simp] theorem run_nil (step : σ → ι → σ) (s : σ) : run step s [] = s := rfl

@[simp] theorem run_cons (step : σ → ι → σ) (s : σ) (i : ι) (inputs : List ι) :
    run step s (i :: inputs) = run step (step s i) inputs := rfl

theorem run_append (step : σ → ι → σ) (s : σ) (inputs inputs' : List ι) :
    run step s (inputs ++ inputs') = run step (run step s inputs) inputs' := by
  simp [run]

theorem run_concat (step : σ → ι → σ) (s : σ) (inputs : List ι) (i : ι) :
    run step s (inputs ++ [i]) = step (run step s inputs) i := by
  simp [run]

/-- A step-invariant that holds at the start holds after every run. -/
theorem run_invariant {step : σ → ι → σ} {I : σ → Prop}
    (hstep : ∀ s i, I s → I (step s i)) {s : σ} (hs : I s) (inputs : List ι) :
    I (run step s inputs) := by
  induction inputs generalizing s with
  | nil => exact hs
  | cons i inputs ih => exact ih (hstep s i hs)

/-- An invariant of the steps with admitted inputs holds after every run on such inputs. -/
theorem run_invariant_of_forall {step : σ → ι → σ} {P : ι → Prop} {I : σ → Prop}
    (hstep : ∀ s i, P i → I s → I (step s i)) {s : σ} (hs : I s) {inputs : List ι}
    (hinputs : ∀ i ∈ inputs, P i) : I (run step s inputs) := by
  induction inputs generalizing s with
  | nil => exact hs
  | cons i inputs ih =>
    rw [List.forall_mem_cons] at hinputs
    exact ih (hstep s i hinputs.1 hs) hinputs.2

/-- Every step of the run starts in a state, with an input, that meets the guard. -/
def Guarded (step : σ → ι → σ) (G : σ → ι → Prop) : σ → List ι → Prop
  | _, [] => True
  | s, i :: inputs => G s i ∧ Guarded step G (step s i) inputs

instance Guarded.decidable (step : σ → ι → σ) (G : σ → ι → Prop) [∀ s i, Decidable (G s i)] :
    (s : σ) → (inputs : List ι) → Decidable (Guarded step G s inputs)
  | _, [] => isTrue trivial
  | s, i :: inputs =>
    have := Guarded.decidable step G (step s i) inputs
    inferInstanceAs (Decidable (G s i ∧ Guarded step G (step s i) inputs))

theorem guarded_concat {step : σ → ι → σ} {G : σ → ι → Prop} {s : σ} {inputs : List ι} {i : ι} :
    Guarded step G s (inputs ++ [i]) ↔ Guarded step G s inputs ∧ G (run step s inputs) i := by
  induction inputs generalizing s with
  | nil => simp [Guarded]
  | cons j inputs ih => rw [List.cons_append, Guarded, Guarded, ih, run_cons, and_assoc]

theorem guarded_append {step : σ → ι → σ} {G : σ → ι → Prop} {s : σ} {inputs inputs' : List ι} :
    Guarded step G s (inputs ++ inputs') ↔
      Guarded step G s inputs ∧ Guarded step G (run step s inputs) inputs' := by
  induction inputs generalizing s with
  | nil => simp [Guarded]
  | cons j inputs ih => rw [List.cons_append, Guarded, Guarded, ih, run_cons, and_assoc]

/-- A run is guarded if every input of it meets the guard in the state it is read in. -/
theorem guarded_iff_getElem? {step : σ → ι → σ} {G : σ → ι → Prop} {s : σ} {inputs : List ι} :
    Guarded step G s inputs ↔ ∀ k i, inputs[k]? = some i → G (run step s (inputs.take k)) i := by
  induction inputs generalizing s with
  | nil => simp [Guarded]
  | cons j inputs ih =>
    rw [Guarded, ih]
    constructor
    · rintro ⟨hfirst, hrest⟩ (_ | k) i hi
      · exact Option.some.inj hi ▸ hfirst
      · exact hrest k i hi
    · intro h
      exact ⟨h 0 j rfl, fun k i hi => h (k + 1) i hi⟩

/-- Guards that agree in the states of a run on admitted inputs admit the same runs. -/
theorem guarded_congr {step : σ → ι → σ} {G G' : σ → ι → Prop} {P : ι → Prop} {I : σ → Prop}
    (hstep : ∀ s i, P i → I s → I (step s i)) (hguard : ∀ s i, I s → (G s i ↔ G' s i)) {s : σ}
    (hs : I s) {inputs : List ι} (hinputs : ∀ i ∈ inputs, P i) :
    Guarded step G s inputs ↔ Guarded step G' s inputs := by
  induction inputs generalizing s with
  | nil => exact Iff.rfl
  | cons i inputs ih =>
    rw [List.forall_mem_cons] at hinputs
    rw [Guarded, Guarded, hguard s i hs, ih (hstep s i hinputs.1 hs) hinputs.2]

/-- A guard that reads a part of the state may be asked of the run of that part. -/
theorem guarded_hom {τ : Type*} {step : σ → ι → σ} {step' : τ → ι → τ} {f : σ → τ}
    (hstep : ∀ s i, f (step s i) = step' (f s) i) {G : τ → ι → Prop} {s : σ} {inputs : List ι} :
    Guarded step (fun s i => G (f s) i) s inputs ↔ Guarded step' G (f s) inputs := by
  induction inputs generalizing s with
  | nil => exact Iff.rfl
  | cons i inputs ih => rw [Guarded, Guarded, ih, hstep]

/-- An invariant of the steps that meet the guard holds after every guarded run. -/
theorem run_invariant_of_guarded {step : σ → ι → σ} {G : σ → ι → Prop} {I : σ → Prop}
    (hstep : ∀ s i, G s i → I s → I (step s i)) {s : σ} (hs : I s) {inputs : List ι}
    (hguard : Guarded step G s inputs) : I (run step s inputs) := by
  induction inputs generalizing s with
  | nil => exact hs
  | cons i inputs ih => exact ih (hstep s i hguard.1 hs) hguard.2

/-- A run all of whose states meet the guard with any input is guarded. -/
theorem guarded_of_invariant {step : σ → ι → σ} {G : σ → ι → Prop} {I : σ → Prop}
    (hstep : ∀ s i, I s → I (step s i)) (hguard : ∀ s i, I s → G s i) {s : σ} (hs : I s)
    (inputs : List ι) : Guarded step G s inputs := by
  induction inputs generalizing s with
  | nil => trivial
  | cons i inputs ih => exact ⟨hguard s i hs, ih (hstep s i hs)⟩

/-- If every step keeps `B` exactly when it meets the guard, then a run keeps `B` exactly
when it is guarded. The invariant `I` may be used at every step. -/
theorem run_iff_guarded {step : σ → ι → σ} {G : σ → ι → Prop} {I B : σ → Prop}
    (hinv : ∀ s i, I s → I (step s i)) (hstep : ∀ s i, I s → (B (step s i) ↔ B s ∧ G s i))
    {s : σ} (hs : I s) (inputs : List ι) :
    B (run step s inputs) ↔ B s ∧ Guarded step G s inputs := by
  induction inputs generalizing s with
  | nil => simp [Guarded]
  | cons i inputs ih =>
    rw [run_cons, ih (hinv s i hs), hstep s i hs, Guarded, and_assoc]

/-- The property holds in every state of the run. -/
def Always (step : σ → ι → σ) (P : σ → Prop) (s : σ) (inputs : List ι) : Prop :=
  ∀ k, P (run step s (inputs.take k))

theorem always_nil {step : σ → ι → σ} {P : σ → Prop} {s : σ} : Always step P s [] ↔ P s := by
  simp [Always]

theorem always_cons {step : σ → ι → σ} {P : σ → Prop} {s : σ} {i : ι} {inputs : List ι} :
    Always step P s (i :: inputs) ↔ P s ∧ Always step P (step s i) inputs := by
  constructor
  · intro h
    exact ⟨h 0, fun k => h (k + 1)⟩
  · rintro ⟨h0, h⟩ (_ | k)
    · exact h0
    · exact h k

theorem always_append {step : σ → ι → σ} {P : σ → Prop} {s : σ} {inputs inputs' : List ι} :
    Always step P s (inputs ++ inputs') ↔
      Always step P s inputs ∧ Always step P (run step s inputs) inputs' := by
  induction inputs generalizing s with
  | nil =>
    rw [List.nil_append, always_nil, run_nil]
    exact ⟨fun h => ⟨h 0, h⟩, And.right⟩
  | cons i inputs ih => rw [List.cons_append, always_cons, always_cons, ih, run_cons, and_assoc]

/-- The last state of a run that always has the property has it. -/
theorem always_run {step : σ → ι → σ} {P : σ → Prop} {s : σ} {inputs : List ι}
    (h : Always step P s inputs) : P (run step s inputs) := by
  have hlast := h inputs.length
  rwa [List.take_length] at hlast

/-- A guarded run is in a state of the invariant all the time. -/
theorem always_of_guarded {step : σ → ι → σ} {G : σ → ι → Prop} {I : σ → Prop}
    (hstep : ∀ s i, G s i → I s → I (step s i)) {s : σ} (hs : I s) {inputs : List ι}
    (hguard : Guarded step G s inputs) : Always step I s inputs := by
  induction inputs generalizing s with
  | nil => exact always_nil.mpr hs
  | cons i inputs ih => exact always_cons.mpr ⟨hs, ih (hstep s i hguard.1 hs) hguard.2⟩

/-- If two states in a row with the property show that the step between them met the guard,
then a run that always has the property is guarded. -/
theorem guarded_of_always {step : σ → ι → σ} {G : σ → ι → Prop} {I P : σ → Prop}
    (hinv : ∀ s i, I s → G s i → I (step s i))
    (hstep : ∀ s i, I s → P s → P (step s i) → G s i) {s : σ} (hs : I s) {inputs : List ι}
    (h : Always step P s inputs) : Guarded step G s inputs := by
  induction inputs generalizing s with
  | nil => trivial
  | cons i inputs ih =>
    rw [always_cons] at h
    have hguard := hstep s i hs h.1 (h.2 0)
    exact ⟨hguard, ih (hinv s i hs hguard) h.2⟩

/-- Let `B` never come back once it is lost, and let `P` be lost with it. Then `P` holds in
every state of a run exactly when `B` holds at its end. -/
theorem always_iff {step : σ → ι → σ} {I P B : σ → Prop} (hinv : ∀ s i, I s → I (step s i))
    (hback : ∀ s i, I s → B (step s i) → B s) (henough : ∀ s, I s → B s → P s)
    (hfirst : ∀ s i, I s → B s → P (step s i) → B (step s i)) {s : σ} (hs : I s) (hB : B s)
    (inputs : List ι) : Always step P s inputs ↔ B (run step s inputs) := by
  induction inputs generalizing s with
  | nil => exact iff_of_true (always_nil.mpr (henough s hs hB)) hB
  | cons i inputs ih =>
    rw [always_cons, run_cons, and_iff_right (henough s hs hB)]
    by_cases hnext : B (step s i)
    · exact ih (hinv s i hs) hnext
    · refine iff_of_false ?_ ?_
      · exact fun h => hnext (hfirst s i hs hB (h 0))
      · intro hend
        have hlost : ¬ B (run step (step s i) inputs) ∧ I (run step (step s i) inputs) :=
          run_invariant (I := fun s => ¬ B s ∧ I s)
            (fun s i h => ⟨fun hB => h.1 (hback s i h.2 hB), hinv s i h.2⟩)
            ⟨hnext, hinv s i hs⟩ inputs
        exact hlost.1 hend

section Failing

variable {ε : Type*}

/-- The state after a list of inputs, for a step that may fail. -/
def runM (step : σ → ι → Except ε σ) : σ → List ι → Except ε σ
  | s, [] => .ok s
  | s, i :: inputs =>
    match step s i with
    | .ok s' => runM step s' inputs
    | .error e => .error e

theorem runM_append (step : σ → ι → Except ε σ) (s : σ) (inputs inputs' : List ι) :
    runM step s (inputs ++ inputs') =
      match runM step s inputs with
      | .ok s' => runM step s' inputs'
      | .error e => .error e := by
  induction inputs generalizing s with
  | nil => rfl
  | cons i inputs ih =>
    rw [List.cons_append, runM, runM]
    cases step s i with
    | ok s' => exact ih s'
    | error e => rfl

/-- If every step from a state of the invariant succeeds and keeps it, then so does every
run. -/
theorem runM_invariant {step : σ → ι → Except ε σ} {I : σ → Prop}
    (hstep : ∀ s i, I s → ∃ s', step s i = .ok s' ∧ I s') {s : σ} (hs : I s) (inputs : List ι) :
    ∃ s', runM step s inputs = .ok s' ∧ I s' := by
  induction inputs generalizing s with
  | nil => exact ⟨s, rfl, hs⟩
  | cons i inputs ih =>
    obtain ⟨s', hs', hI⟩ := hstep s i hs
    rw [runM, hs']
    exact ih hI

end Failing

end Transition
