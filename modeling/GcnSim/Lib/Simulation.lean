import Mathlib.Data.List.Forall2

/-!
# Simulation with an environment

Two machines read inputs and give outputs. A step of the concrete machine may fail. An input of
the abstract machine is an input of the concrete one together with what the environment decides
in that step. If every concrete step is an abstract one for some decision, then every concrete
run is an abstract run with the same outputs.
-/

namespace Transition

variable {σ τ ι κ ω ε : Type*}

/-- The outputs of a run and the state after it. -/
def emit (step : τ → κ → ω × τ) : τ → List κ → List ω × τ
  | t, [] => ([], t)
  | t, k :: ks =>
    let r := emit step (step t k).2 ks
    ((step t k).1 :: r.1, r.2)

/-- The same for a step that may fail. -/
def emitM (step : σ → ι → Except ε (ω × σ)) : σ → List ι → Except ε (List ω × σ)
  | s, [] => .ok ([], s)
  | s, i :: inputs =>
    match step s i with
    | .error e => .error e
    | .ok (o, s') =>
      match emitM step s' inputs with
      | .error e => .error e
      | .ok (os, s'') => .ok (o :: os, s'')

/-- From related states every concrete step with an admitted input succeeds and is an abstract
step, for some decision of the environment. -/
def Simulates (step : σ → ι → Except ε (ω × σ)) (step' : τ → κ → ω × τ) (Admitted : ι → Prop)
    (Extends : κ → ι → Prop) (R : σ → τ → Prop) : Prop :=
  ∀ s t i, Admitted i → R s t → ∃ o s' k, step s i = .ok (o, s') ∧ Extends k i ∧
    (step' t k).1 = o ∧ R s' (step' t k).2

variable {step : σ → ι → Except ε (ω × σ)} {step' : τ → κ → ω × τ} {Admitted : ι → Prop}
  {Extends : κ → ι → Prop} {R : σ → τ → Prop}

/-- A concrete run is an abstract run with the same outputs. -/
theorem Simulates.run (h : Simulates step step' Admitted Extends R) {s : σ} {t : τ}
    (hst : R s t) {inputs : List ι} (hinputs : ∀ i ∈ inputs, Admitted i) :
    ∃ os s' ks, emitM step s inputs = .ok (os, s') ∧ List.Forall₂ Extends ks inputs ∧
      (emit step' t ks).1 = os ∧ R s' (emit step' t ks).2 := by
  induction inputs generalizing s t with
  | nil => exact ⟨[], s, [], rfl, .nil, rfl, hst⟩
  | cons i inputs ih =>
    rw [List.forall_mem_cons] at hinputs
    obtain ⟨o, s', k, hstep, hk, ho, hR⟩ := h s t i hinputs.1 hst
    obtain ⟨os, s'', ks, hrun, hks, hos, hR'⟩ := ih hR hinputs.2
    refine ⟨o :: os, s'', k :: ks, ?_, .cons hk hks, ?_, hR'⟩
    · rw [emitM, hstep]
      dsimp only
      rw [hrun]
    · rw [emit, ho, hos]

end Transition
