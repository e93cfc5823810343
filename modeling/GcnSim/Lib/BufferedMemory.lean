import Mathlib.Logic.Function.Basic
import GcnSim.Lib.Run

/-!
# A memory behind a write buffer

A write is accepted into a buffer and stored later; a read is answered from the buffer or waits
until its address is loaded. The reference is a memory without delay: a read is meant to see the
last write accepted before it. Loads and stores may come in any order in which no address is
stored while a read of it waits.
-/

namespace BufferedMemory

variable {α β : Type*}

/-- What happens at the memory: the first two are requests, the others are accesses to the
cells. -/
inductive Event (α β : Type*) where
  | write (a : α) (v : β)
  | read (a : α)
  | load (a : α)
  | store (a : α)

/-- A read that has been answered. -/
structure Answer (α β : Type*) where
  address : α
  /-- The value of the reference when the read was accepted. -/
  expected : β
  got : β

/-- The memory, with the values that the waiting reads are meant to see. -/
structure State (α β : Type*) where
  current : α → β
  cells : α → β
  buffer : α → Option β
  waiting : α → List β
  answers : List (Answer α β)

/-- A memory with the given contents. -/
def init (contents : α → β) : State α β := ⟨contents, contents, fun _ => none, fun _ => [], []⟩

/-- The buffer and the cells together hold the reference. -/
structure Coherent (s : State α β) : Prop where
  buffered : ∀ a v, s.buffer a = some v → v = s.current a
  stored : ∀ a, s.buffer a = none → s.cells a = s.current a
  waiting : ∀ a, ∀ v ∈ s.waiting a, v = s.cells a
  answers : ∀ e ∈ s.answers, e.got = e.expected

theorem coherent_init (contents : α → β) : Coherent (init contents) where
  buffered := fun _ _ h => by cases h
  stored := fun _ _ => rfl
  waiting := fun _ _ h => (List.not_mem_nil h).elim
  answers := fun _ h => (List.not_mem_nil h).elim

variable [DecidableEq α]

/-- One event. -/
def step (s : State α β) : Event α β → State α β
  | .write a v => { s with
      current := Function.update s.current a v
      buffer := Function.update s.buffer a (some v) }
  | .read a =>
    match s.buffer a with
    | some v => { s with answers := s.answers ++ [⟨a, s.current a, v⟩] }
    | none => { s with waiting := Function.update s.waiting a (s.waiting a ++ [s.current a]) }
  | .load a => { s with
      waiting := Function.update s.waiting a []
      answers := s.answers ++ (s.waiting a).map fun v => ⟨a, v, s.cells a⟩ }
  | .store a =>
    match s.buffer a with
    | some v => { s with
        cells := Function.update s.cells a v
        buffer := Function.update s.buffer a none }
    | none => s

/-- No address is stored while a read of it waits. -/
def Allowed (s : State α β) : Event α β → Prop
  | .store a => s.waiting a = []
  | _ => True

variable {s : State α β}

theorem Coherent.write (h : Coherent s) (a : α) (v : β) : Coherent (step s (.write a v)) where
  buffered := by
    intro b w hw
    dsimp only [step] at hw ⊢
    by_cases hb : b = a
    · subst hb
      rw [Function.update_self] at hw ⊢
      exact (Option.some.inj hw).symm
    · rw [Function.update_of_ne hb] at hw ⊢
      exact h.buffered b w hw
  stored := by
    intro b hb
    dsimp only [step] at hb ⊢
    by_cases hba : b = a
    · rw [hba, Function.update_self] at hb
      cases hb
    · rw [Function.update_of_ne hba] at hb ⊢
      exact h.stored b hb
  waiting := h.waiting
  answers := h.answers

theorem Coherent.read (h : Coherent s) (a : α) : Coherent (step s (.read a)) := by
  rw [step]
  cases hbuffer : s.buffer a with
  | some v =>
    refine ⟨h.buffered, h.stored, h.waiting, fun e he => ?_⟩
    rcases List.mem_append.mp he with he | he
    · exact h.answers e he
    · rw [List.mem_singleton.mp he]
      exact h.buffered a v hbuffer
  | none =>
    refine ⟨h.buffered, h.stored, fun b v hv => ?_, h.answers⟩
    dsimp only at hv ⊢
    by_cases hb : b = a
    · subst hb
      rw [Function.update_self] at hv
      rcases List.mem_append.mp hv with hv | hv
      · exact h.waiting b v hv
      · rw [List.mem_singleton.mp hv, h.stored b hbuffer]
    · rw [Function.update_of_ne hb] at hv
      exact h.waiting b v hv

theorem Coherent.load (h : Coherent s) (a : α) : Coherent (step s (.load a)) where
  buffered := h.buffered
  stored := h.stored
  waiting := by
    intro b v hv
    dsimp only [step] at hv ⊢
    by_cases hb : b = a
    · rw [hb, Function.update_self] at hv
      cases hv
    · rw [Function.update_of_ne hb] at hv
      exact h.waiting b v hv
  answers := by
    intro e he
    rcases List.mem_append.mp he with he | he
    · exact h.answers e he
    · obtain ⟨v, hv, rfl⟩ := List.mem_map.mp he
      exact (h.waiting a v hv).symm

theorem Coherent.store (h : Coherent s) {a : α} (hwaiting : s.waiting a = []) :
    Coherent (step s (.store a)) := by
  rw [step]
  cases hbuffer : s.buffer a with
  | none => exact h
  | some v =>
    refine ⟨fun b w hw => ?_, fun b hb => ?_, fun b w hw => ?_, h.answers⟩
    · dsimp only at hw ⊢
      by_cases hb : b = a
      · rw [hb, Function.update_self] at hw
        cases hw
      · rw [Function.update_of_ne hb] at hw
        exact h.buffered b w hw
    · dsimp only at hb ⊢
      by_cases hba : b = a
      · subst hba
        rw [Function.update_self]
        exact h.buffered b v hbuffer
      · rw [Function.update_of_ne hba] at hb ⊢
        exact h.stored b hb
    · dsimp only at hw ⊢
      by_cases hb : b = a
      · rw [hb, hwaiting] at hw
        cases hw
      · rw [Function.update_of_ne hb]
        exact h.waiting b w hw

theorem Coherent.step (h : Coherent s) {e : Event α β} (he : Allowed s e) :
    Coherent (BufferedMemory.step s e) := by
  cases e with
  | write a v => exact h.write a v
  | read a => exact h.read a
  | load a => exact h.load a
  | store a => exact h.store he

/-- Every read of an allowed run sees the last write accepted before it. -/
theorem coherent_run (contents : α → β) {events : List (Event α β)}
    (h : Transition.Guarded BufferedMemory.step Allowed (init contents) events) :
    Coherent (Transition.run BufferedMemory.step (init contents) events) :=
  Transition.run_invariant_of_guarded (fun _ _ he hs => hs.step he) (coherent_init contents) h

end BufferedMemory
