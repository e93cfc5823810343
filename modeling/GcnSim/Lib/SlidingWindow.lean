import Mathlib.Data.List.Basic

/-!
# At most so many events in a window

A limiter keeps the expiry times of the last events. An event drops the oldest one if that has
expired, and is held back while the oldest one has not expired and the window is full. Then an
event never comes before the expiry of the one that many places earlier.
-/

namespace SlidingWindow

/-- The expiry times after an event at time `now`. -/
def push (now expiry : Nat) (window : List Nat) : List Nat :=
  (match window with
    | [] => []
    | first :: rest => if first ≤ now then rest else first :: rest) ++ [expiry]

/-- An event may happen at time `now`. -/
def Admits (capacity now : Nat) (window : List Nat) : Prop :=
  ∀ first rest, window = first :: rest → now < first → window.length < capacity

/-- The window holds the last ones of the events, given with their expiry times, and the
others have expired. -/
structure Tracks (capacity now : Nat) (events : List (Nat × Nat)) (window : List Nat) : Prop where
  split : ∃ gone kept, events = gone ++ kept ∧ window = kept.map Prod.snd ∧
    kept.length ≤ capacity ∧ ∀ e ∈ gone, e.2 ≤ now
  spaced : ∀ i e e', events[i]? = some e → events[i + capacity]? = some e' → e.2 ≤ e'.1

variable {capacity now : Nat} {events : List (Nat × Nat)} {window : List Nat}

theorem tracks_nil (capacity now : Nat) : Tracks capacity now [] [] where
  split := ⟨[], [], rfl, rfl, Nat.zero_le _, fun _ h => (List.not_mem_nil h).elim⟩
  spaced := fun i e e' h => by simp at h

/-- Time passes. -/
theorem Tracks.mono (h : Tracks capacity now events window) {later : Nat} (hle : now ≤ later) :
    Tracks capacity later events window := by
  obtain ⟨gone, kept, hevents, hwindow, hlength, hgone⟩ := h.split
  exact ⟨⟨gone, kept, hevents, hwindow, hlength, fun e he => Nat.le_trans (hgone e he) hle⟩,
    h.spaced⟩

/-- An admitted event keeps the window. -/
theorem Tracks.push (h : Tracks capacity now events window) (hpos : 0 < capacity)
    (hadmits : Admits capacity now window) (expiry : Nat) :
    Tracks capacity now (events ++ [(now, expiry)]) (push now expiry window) := by
  obtain ⟨gone, kept, rfl, rfl, hlength, hgone⟩ := h.split
  -- what leaves the window has expired, and there is room for the new event
  obtain ⟨gone', kept', hsplit, hpush, hlength', hgone'⟩ : ∃ gone' kept',
      gone ++ kept = gone' ++ kept' ∧
      SlidingWindow.push now expiry (kept.map Prod.snd) = kept'.map Prod.snd ++ [expiry] ∧
      kept'.length < capacity ∧ ∀ e ∈ gone', e.2 ≤ now := by
    cases kept with
    | nil => exact ⟨gone, [], rfl, rfl, hpos, hgone⟩
    | cons first rest =>
      by_cases hfirst : first.2 ≤ now
      · refine ⟨gone ++ [first], rest, by simp, ?_, hlength, ?_⟩
        · simp [SlidingWindow.push, hfirst]
        · intro e he
          rcases List.mem_append.mp he with he | he
          · exact hgone e he
          · rwa [List.mem_singleton.mp he]
      · refine ⟨gone, first :: rest, rfl, ?_, ?_, hgone⟩
        · simp [SlidingWindow.push, hfirst]
        · have hroom := hadmits first.2 (rest.map Prod.snd) rfl (Nat.lt_of_not_le hfirst)
          rwa [List.length_map] at hroom
  refine ⟨⟨gone', kept' ++ [(now, expiry)], ?_, ?_, ?_, hgone'⟩, ?_⟩
  · rw [hsplit, List.append_assoc]
  · rw [hpush, List.map_append]
    rfl
  · rw [List.length_append]
    exact hlength'
  · intro i e e' he he'
    have hi : i + capacity < (gone ++ kept).length + 1 := by
      have hlt := (List.getElem?_eq_some_iff.mp he').1
      rwa [List.length_append, List.length_singleton] at hlt
    rw [List.getElem?_append_left (by omega)] at he
    by_cases hlast : i + capacity < (gone ++ kept).length
    · rw [List.getElem?_append_left hlast] at he'
      exact h.spaced i e e' he he'
    · have hnew : e' = (now, expiry) := by
        rw [List.getElem?_append_right (by omega), show i + capacity - (gone ++ kept).length = 0
          by omega] at he'
        exact (Option.some.inj he').symm
      have hgoneLt : i < gone'.length := by
        rw [hsplit, List.length_append] at hi hlast
        omega
      rw [hsplit, List.getElem?_append_left hgoneLt] at he
      rw [hnew]
      exact hgone' e (List.mem_of_getElem? he)

end SlidingWindow
