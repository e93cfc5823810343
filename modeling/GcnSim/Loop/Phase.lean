import GcnSim.Loop.Invariant

/-!
# Phase and safety of the A*XW loop

Two consequences of the loop invariant. Whenever the edge reader waits for a row,
the two readers agree on the pass and on the row. And the only undefined accesses
of a run are those that follow the hand-over of the last row of the last replay,
after which both readers pop the counts of a block that is not there.
-/

namespace GcnSim

open Params

namespace State

variable {P : Params}

/-- In every state in which the edge reader can receive a row, the readers agree on the
pass, on the row and on the row before the block. -/
theorem readers_agree (P : Params) (hrun : P.RunOk) (envs : List Env)
    (hcan : (run P envs).er.canReceive = true) :
    (run P envs).vr.xRepeat = (run P envs).er.xRepeat ∧
      (run P envs).vr.preRow = (run P envs).er.preRow ∧
      (run P envs).vr.preRowArchive = (run P envs).er.preRowArchive := by
  obtain ⟨b, d, d', her, -, hvr, hp, hr⟩ := (run_inv hrun envs).phase.waiting hcan
  exact ⟨hp, hr, hvr.archive.trans her.archive.symm⟩

/-- Two blocks of two rows with one edge each, passed over three times. -/
def twoBlocks : Params where
  aH := 4
  row := [0, 1, 2, 3, 4]
  col := [10, 11, 12, 13]
  aH_pos := by decide
  row_length := by decide
  row_zero := by decide
  row_mono := by decide
  col_length := by decide
  cacheLineCount := 8
  maxV := 2
  wW := 3
  cacheLineCount_pos := by decide
  maxV_pos := Nat.two_pos
  wW_pos := Nat.succ_pos 2

/-- A memory that accepts and completes everything within the iteration. -/
def fastMemory : Env := ⟨100, [0, 0, 0, 0], false, fun _ => 0⟩

theorem readers_agree_twoBlocks : twoBlocks.RunOk ∧
    (run twoBlocks (List.replicate 5 fastMemory)).er.canReceive = true ∧
    (run twoBlocks (List.replicate 5 fastMemory)).vr.xRepeat =
      (run twoBlocks (List.replicate 5 fastMemory)).er.xRepeat := by
  have hrun : twoBlocks.RunOk := by decide +kernel
  have hcan : (run twoBlocks (List.replicate 5 fastMemory)).er.canReceive = true := by
    decide +kernel
  exact ⟨hrun, hcan, (readers_agree twoBlocks hrun _ hcan).1⟩

/-- A block whose last row has no edges. -/
def emptyLastRow : Params := { twoBlocks with
  aH := 2
  row := [0, 1, 1]
  col := [10]
  aH_pos := Nat.two_pos
  row_length := by decide
  row_zero := by decide
  row_mono := by decide
  col_length := by decide }

/-- The vertex reader starts the second pass; the edge reader does not notice the end of
the first. -/
theorem emptyLastRow_disagree :
    (run emptyLastRow (List.replicate 5 fastMemory)).er.canReceive = true ∧
      (run emptyLastRow (List.replicate 5 fastMemory)).vr.xRepeat = 1 ∧
      (run emptyLastRow (List.replicate 5 fastMemory)).er.xRepeat = 0 := by
  decide +kernel

section Faults

/-- The iteration hands over the last row of the last replay of the last block. -/
def HandsOverLast (P : Params) (s : State) (env : Env) : Prop :=
  s.ended = false ∧ (s.beforeHandOver P env.junk).canHandOver = true ∧
    0 < (s.beforeHandOver P env.junk).vr.xRepeat ∧
    (s.beforeHandOver P env.junk).vr.xRepeat = P.wFold - 1 ∧
    (s.beforeHandOver P env.junk).vr.preRow + 1 = P.aH

/-- The edge reader pops past the counts only after the vertex reader did. -/
theorem Inv.faults_iff {s : State} (h : s.Inv P) : s.faults = [] ↔ s.vr.faults = [] := by
  rcases h.phase with ⟨b, d, her, -⟩ | ⟨-, hvr⟩
  · simp [faults, her.faults, h.feeds]
  · have hne := mt hvr.faults_eq_nil_iff.mp (Nat.lt_irrefl _)
    simp [faults, hne]

theorem beforeHandOver_vr_faults (s : State) (junk : Junk) :
    (s.beforeHandOver P junk).vr.faults = s.vr.faults := by
  have hdram : s.dramTurn.2.vr.faults = s.vr.faults := by
    unfold dramTurn
    split
    · rfl
    · split <;> rfl
  have hreply : ∀ (a : Option Address) (t : State),
      (t.replyTurn P junk a).vr.faults = t.vr.faults := by
    intro a t
    unfold replyTurn
    split <;> rfl
  change (s.dramTurn.2.replyTurn P junk s.dramTurn.1).vr.faults = _
  rw [hreply, hdram]

/-- The vertex reader pops past its counts exactly when it hands over the last row. -/
theorem handOver_vr_faults {s : State} (h : s.Inv P) (junk : Junk) :
    (s.handOver P junk).vr.faults = [] ↔ s.vr.faults = [] ∧
      ¬ (s.canHandOver = true ∧ 0 < s.vr.xRepeat ∧ s.vr.xRepeat = P.wFold - 1 ∧
        s.vr.preRow + 1 = P.aH) := by
  unfold handOver
  by_cases hended : s.canHandOver = true
  · have hcan : s.er.canReceive = true := by
      simp only [canHandOver, Bool.and_eq_true] at hended
      exact hended.1.1
    obtain ⟨b, d, d', -, -, hvr, -, -⟩ := h.phase.waiting hcan
    have hb := hvr.reached.1
    have hle := P.blockEnd_le b
    simp only [hended, hvr.faults, true_and, if_true]
    rcases hvr.transferData junk with ⟨hx, hwait⟩ | ⟨vr', ts, -, heq, hcase⟩
    · rw [hwait]
      exact iff_of_true hvr.faults fun hc => by omega
    · rw [heq]
      rcases hcase with ⟨hlt, hpos⟩ | ⟨hend, hpos⟩
      · exact iff_of_true (hpos.faults_eq_nil_iff.mpr hb) fun hc => by omega
      · have hlast := blockEnd_eq_aH_iff hb
        rw [hpos.faults_eq_nil_iff, nextPass]
        by_cases hx : 0 < s.vr.xRepeat ∧ s.vr.xRepeat = P.wW - 1
        · rw [if_pos hx]
          change b + 1 < P.blockCount ↔ _
          constructor
          · rintro hlt ⟨-, -, hrow⟩
            have := hlast.mp (by omega)
            omega
          · intro hc
            have hne : b + 1 ≠ P.blockCount := fun he =>
              hc ⟨hx.1, hx.2, by rw [hend]; exact hlast.mpr he⟩
            omega
        · rw [if_neg hx]
          exact iff_of_true hb fun hc => hx ⟨hc.1, hc.2.1⟩
  · simp only [hended, Bool.false_eq_true, if_false, false_and, not_false_eq_true, and_true]

/-- An iteration makes an undefined access only at the last hand-over. -/
theorem step_faults (hrun : P.RunOk) {s : State} (h : s.Inv P) (env : Env) :
    (s.step P env).faults = [] ↔ s.faults = [] ∧ ¬ s.HandsOverLast P env := by
  rw [(step_inv hrun s env h).faults_iff, h.faults_iff]
  unfold step HandsOverLast
  by_cases hended : s.ended = true
  · simp [hended]
  · have hbefore := beforeHandOver_inv hrun h env.junk
    have hfaults := handOver_vr_faults hbefore env.junk
    rw [beforeHandOver_vr_faults] at hfaults
    simp only [Bool.not_eq_true] at hended
    simp only [hended, Bool.false_eq_true, if_false, true_and]
    exact hfaults

/-- A run makes no undefined access exactly as long as no iteration hands over the last
row of the last replay. -/
theorem faults_eq_nil_iff_guarded (P : Params) (hrun : P.RunOk) (envs : List Env) :
    (run P envs).faults = [] ↔
      Transition.Guarded (step P) (fun s env => ¬ s.HandsOverLast P env) (init P) envs := by
  have hinit : (init P).faults = [] :=
    (init_inv hrun).faults_iff.mpr (VertexAt.init P).faults
  have hall := Transition.run_iff_guarded (B := fun s => s.faults = []) (step_inv hrun)
    (fun s env h => step_faults hrun h env) (init_inv hrun) envs
  exact hall.trans (and_iff_right hinit)

theorem faults_eq_nil_iff_twoBlocks : twoBlocks.RunOk ∧
    ((run twoBlocks (List.replicate 5 fastMemory)).faults = [] ↔
      Transition.Guarded (step twoBlocks) (fun s env => ¬ s.HandsOverLast twoBlocks env)
        (init twoBlocks) (List.replicate 5 fastMemory)) := by
  have hrun : twoBlocks.RunOk := by decide +kernel
  exact ⟨hrun, faults_eq_nil_iff_guarded twoBlocks hrun _⟩

/-- Both readers pop the counts of a third block. -/
theorem twoBlocks_faults : (run twoBlocks (List.replicate 17 fastMemory)).faults =
    [.vertexReqCount, .edgeReqCount] := by
  decide +kernel

end Faults

end State

end GcnSim
