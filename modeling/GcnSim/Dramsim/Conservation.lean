import GcnSim.Dramsim.Session
import GcnSim.Dramsim.Shipped

/-!
# No transaction is lost or duplicated

What the controller has accepted of a kind and address is what it has returned, what lies in
its return queue, and the reads that are still pending. No run of a safe configuration ends
the process.
-/

namespace GcnSim.Dramsim

open Relation

namespace Session

open Controller

/-- The ledger of a session. A write is in the return queue as soon as it is accepted. -/
structure Books (s : Session) : Prop where
  reads : ∀ t ∈ s.controller.pendingRdQ, t.isWrite = false
  ledger : ∀ w a, s.accepted.count (a, w) = s.returned.countP (isFor w a) +
    s.controller.returnQueue.countP (isFor w a) + s.controller.pendingRdQ.countP (isFor w a)

theorem books_init : Books init where
  reads := fun _ h => (List.not_mem_nil h).elim
  ledger := fun _ _ => rfl

variable {cfg : Config} {timing : Timing} {s : Session}

/-- A transaction has one kind and address. -/
theorem countP_isFor_singleton (a a' added done : Nat) (w w' : Bool) :
    [(⟨a, added, done, w⟩ : Transaction)].countP (isFor w' a') =
      if w = w' ∧ a = a' then 1 else 0 := by
  rw [List.countP_singleton]
  simp only [isFor_iff]

theorem Books.add (hb : Books s) (a : Nat) (w : Bool) :
    Books { s with
      controller := s.controller.addTransaction cfg a w
      accepted := s.accepted ++ [(a, w)] } := by
  have hcount : ∀ w' a', (s.accepted ++ [(a, w)]).count (a', w') =
      s.accepted.count (a', w') + if w = w' ∧ a = a' then 1 else 0 := by
    intro w' a'
    rw [List.count_append, List.count_singleton]
    simp only [beq_iff_eq, Prod.mk.injEq, and_comm]
  rcases @addTransaction_cases cfg s.controller a w with
    ⟨-, h⟩ | ⟨-, rfl, -, h⟩ | ⟨-, -, unified, read, write, -, -, h⟩
  · rw [h]
    refine ⟨hb.reads, fun w' a' => ?_⟩
    dsimp only
    rw [hcount, hb.ledger w' a', List.countP_append, countP_isFor_singleton]
    omega
  · rw [h]
    refine ⟨?_, fun w' a' => ?_⟩
    · intro t ht
      rcases List.mem_append.mp ht with ht | ht
      · exact hb.reads t ht
      · rw [List.mem_singleton.mp ht]
    · dsimp only
      rw [hcount, hb.ledger w' a', List.countP_append, countP_isFor_singleton]
      omega
  · rw [h]
    refine ⟨?_, fun w' a' => ?_⟩
    · intro t ht
      rcases List.mem_append.mp ht with ht | ht
      · exact hb.reads t ht
      · cases w
        · rw [List.mem_singleton.mp ht]
        · cases ht
    · dsimp only
      rw [hcount, hb.ledger w' a', List.countP_append, List.countP_append]
      cases w <;> simp only [if_true, if_false, Bool.false_eq_true, countP_isFor_singleton,
        List.countP_nil] <;> omega

theorem Books.return (hb : Books s) (clk : Nat) :
    Books { s with
      controller := (s.controller.returnDoneTrans clk).2
      returned := s.returned ++ (s.controller.returnDoneTrans clk).1.toList } := by
  refine ⟨hb.reads, fun w a => ?_⟩
  rw [hb.ledger w a]
  simp only [returnDoneTrans, List.countP_append]
  cases hfind : s.controller.returnQueue.find? fun t => decide (t.completeCycle ≤ clk) with
  | none =>
    rw [List.eraseP_of_forall_not]
    · rfl
    · exact List.find?_eq_none.mp hfind
  | some t =>
    have hcount := FirstMatch.countP_eraseP hfind (isFor w a)
    simp only [Option.toList_some, List.countP_singleton]
    omega

/-- `IssueCommand` moves reads from the pending ones to the return queue. -/
theorem Books.setController (hb : Books s) {c : Controller}
    (hreads : ∀ t ∈ c.pendingRdQ, t ∈ s.controller.pendingRdQ)
    (hsum : ∀ w a, c.returnQueue.countP (isFor w a) + c.pendingRdQ.countP (isFor w a) =
      s.controller.returnQueue.countP (isFor w a) +
        s.controller.pendingRdQ.countP (isFor w a)) :
    Books { s with controller := c } where
  reads := fun t ht => hb.reads t (hreads t ht)
  ledger := by
    intro w a
    have hc := hsum w a
    have hold := hb.ledger w a
    dsimp only
    omega

theorem completed_pendingRdQ (c : Controller) (cmd : Command) :
    (∀ t ∈ (c.completed cfg cmd).pendingRdQ, t ∈ c.pendingRdQ) ∧
      ∀ w a, (c.completed cfg cmd).returnQueue.countP (isFor w a) +
        (c.completed cfg cmd).pendingRdQ.countP (isFor w a) =
        c.returnQueue.countP (isFor w a) + c.pendingRdQ.countP (isFor w a) := by
  rw [completed]
  split
  · refine ⟨fun t ht => (List.mem_filter.mp ht).1, fun w a => ?_⟩
    have hsplit : c.pendingRdQ.countP (isFor w a) =
        (c.pendingRdQ.filter (atAddr cmd.hexAddr)).countP (isFor w a) +
          (c.pendingRdQ.filter fun t => !atAddr cmd.hexAddr t).countP (isFor w a) :=
      (List.countP_append.symm.trans
        ((List.filter_append_perm (atAddr cmd.hexAddr) c.pendingRdQ).countP_eq _)).symm
    dsimp only
    rw [List.countP_append, List.countP_map, hsplit]
    have hmap : (isFor w a ∘ fun t : Transaction =>
        { t with completeCycle := addDelay c.clk cfg.readDelay }) = isFor w a := rfl
    rw [hmap]
    omega
  · split <;> exact ⟨fun _ ht => ht, fun _ _ => rfl⟩

/-- Every move keeps the ledger. -/
theorem Books.move (hb : Books s) {c' : Controller}
    (h : Move cfg timing s.controller c') : Books { s with controller := c' } := by
  cases h with
  | issueRefresh =>
    exact hb.setController (completed_pendingRdQ _ _).1 (completed_pendingRdQ _ _).2
  | issueQueued =>
    exact hb.setController (completed_pendingRdQ _ _).1 (completed_pendingRdQ _ _).2
  | schedule =>
    obtain ⟨unified, read, write, n, q, h, -⟩ := @scheduleTransaction_frame cfg s.controller
    rw [h]
    exact hb.setController (fun _ ht => ht) fun _ _ => rfl
  | _ => exact hb.setController (fun _ ht => ht) fun _ _ => rfl

/-- No run of a safe configuration ends the process, and the ledger balances after it. -/
theorem run_books (hsafe : cfg.Safe timing) (actions : List Action) :
    ∃ s, run cfg timing actions = .ok s ∧ Sound cfg s.controller ∧ Books s :=
  run_rule hsafe books_init (fun _ a w _ hb _ => hb.add a w) (fun _ clk _ hb => hb.return clk)
    (fun _ _ _ hb hmove => hb.move hmove) actions

/-- No call ends the process. What was accepted of a kind and address has been returned, is in
the return queue or is a pending read, and what is pending is in one queue, once. -/
theorem run_conserves_transactions (hsafe : cfg.Safe timing) (actions : List Action) :
    ∃ s, run cfg timing actions = .ok s ∧
      (∀ w a, s.accepted.count (a, w) = s.returned.countP (isFor w a) +
        s.controller.returnQueue.countP (isFor w a) +
        if w then 0 else countAddr s.controller.pendingRdQ a) ∧
      ∀ w a, s.controller.waiting.countP (isFor w a) +
        (s.controller.homeQueue cfg a).countP (servesFor w a) =
          if 0 < countAddr (s.controller.pending w) a then 1 else 0 := by
  obtain ⟨s, hrun, hsound, hb⟩ := run_books hsafe actions
  refine ⟨s, hrun, fun w a => ?_, hsound.single⟩
  rw [hb.ledger w a]
  congr 1
  cases w
  case true =>
    rw [if_pos rfl, List.countP_eq_zero]
    intro t ht
    rw [isFor_iff, hb.reads t ht]
    simp
  case false =>
    rw [if_neg (by decide), countAddr]
    apply List.countP_congr
    intro t ht
    rw [isFor_iff, hb.reads t ht, decide_eq_true_eq]
    simp

theorem run_conserves_transactions_hbm2 :
    ∃ s, run hbm2 hbm2Timing.timing [.add 64 false, .add 64 true, .clockTick, .returnDone 1] =
        .ok s ∧
      (∀ w a, s.accepted.count (a, w) = s.returned.countP (isFor w a) +
        s.controller.returnQueue.countP (isFor w a) +
        if w then 0 else countAddr s.controller.pendingRdQ a) ∧
      ∀ w a, s.controller.waiting.countP (isFor w a) +
        (s.controller.homeQueue hbm2 a).countP (servesFor w a) =
          if 0 < countAddr (s.controller.pending w) a then 1 else 0 :=
  run_conserves_transactions hbm2_safe _

end Session

end GcnSim.Dramsim
