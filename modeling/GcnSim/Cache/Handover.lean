import GcnSim.Cache.GlobalBuffer
import GcnSim.Lib.Run

/-!
# Items handed over by the global buffer

The driver of the buffer handles the replies of a cycle, looks up the head of the
queue, lets one more item arrive and then hands over the head if `can_transfer`
is set. The arrival of an item whose line is in the cache sets the flag for the
head, whatever the head is: an item is handed over without its line exactly in
the cycles in which a hit arrives behind a head that misses.
-/

namespace GcnSim.GlobalBuffer

variable (C : GbConfig)

/-- The replies and the arrival of a cycle. -/
structure CycleInput where
  replies : List (Nat × ReplyJunk)
  arrival : Option ERData

/-- All replies of a cycle. -/
def replies (rs : List (Nat × ReplyJunk)) (gb : GlobalBuffer) : GlobalBuffer :=
  rs.foldl (reply C) gb

/-- The arrival of a cycle, if the buffer can receive. -/
def arrive (arrival : Option ERData) (gb : GlobalBuffer) : GlobalBuffer :=
  match arrival with
  | some d => if gb.canReceive then gb.receiveItem C d else gb
  | none => gb

/-- The head of the queue is handed over if `can_transfer` is set. -/
def handOver (gb : GlobalBuffer) : GlobalBuffer :=
  if gb.canTransfer then gb.transferAData C else gb

/-- One cycle of the driver. -/
def cycle (gb : GlobalBuffer) (i : CycleInput) : GlobalBuffer :=
  (((gb.replies C i.replies).checkTransfer C).arrive C i.arrival).handOver C

/-- The buffer after a run of the driver. -/
def run (inputs : List CycleInput) : GlobalBuffer := Transition.run (cycle C) (init C) inputs

/-- An item arrives whose line is in the cache, behind a head of the queue whose line is
not. -/
def HitBehindMiss (arrival : Option ERData) (gb : GlobalBuffer) : Prop :=
  gb.canReceive = true ∧ (∃ head ∈ gb.wq.head?, gb.cache.resident C head = false) ∧
    ∃ d ∈ arrival, gb.cache.resident C d = true

/-- Every item was handed over with its line in the cache. -/
def AllResident (gb : GlobalBuffer) : Prop := ∀ e ∈ gb.popped, e.2 = true

/-- The flag of the queue is right. -/
def EmptyFlag (gb : GlobalBuffer) : Prop := gb.qEmpty = gb.wq.isEmpty

variable {C}

/-- The replies change neither the queue nor what was handed over. -/
theorem replies_frame (rs : List (Nat × ReplyJunk)) (gb : GlobalBuffer) :
    (gb.replies C rs).wq = gb.wq ∧ (gb.replies C rs).popped = gb.popped ∧
      (gb.replies C rs).qEmpty = gb.qEmpty := by
  induction rs generalizing gb with
  | nil => exact ⟨rfl, rfl, rfl⟩
  | cons r rs ih =>
    have hreply : (gb.reply C r).wq = gb.wq ∧ (gb.reply C r).popped = gb.popped ∧
        (gb.reply C r).qEmpty = gb.qEmpty := by
      unfold reply
      split <;> exact ⟨rfl, rfl, rfl⟩
    obtain ⟨hwq, hpopped, hempty⟩ := ih (gb.reply C r)
    exact ⟨hwq.trans hreply.1, hpopped.trans hreply.2.1, hempty.trans hreply.2.2⟩

/-- A request changes neither the queue nor what was handed over. -/
theorem requestOnce_frame (d : ERData) (gb : GlobalBuffer) :
    (gb.requestOnce d).wq = gb.wq ∧ (gb.requestOnce d).popped = gb.popped ∧
      (gb.requestOnce d).qEmpty = gb.qEmpty ∧
      (gb.requestOnce d).canReceive = gb.canReceive ∧
      (gb.requestOnce d).canTransfer = gb.canTransfer := by
  unfold requestOnce
  split <;> exact ⟨rfl, rfl, rfl, rfl, rfl⟩

/-- `CanTransfer` sets the flag to whether the head of the queue is in the cache. -/
theorem checkTransfer_spec {gb : GlobalBuffer} (hempty : gb.EmptyFlag) :
    (gb.checkTransfer C).cache = gb.cache ∧ (gb.checkTransfer C).wq = gb.wq ∧
      (gb.checkTransfer C).popped = gb.popped ∧ (gb.checkTransfer C).EmptyFlag ∧
      (gb.checkTransfer C).canReceive = gb.canReceive ∧
      (gb.checkTransfer C).canTransfer = gb.wq.head?.any (gb.cache.resident C ·) := by
  unfold EmptyFlag at hempty ⊢
  unfold checkTransfer
  cases hwq : gb.wq with
  | nil => simp [hempty, hwq]
  | cons d wq =>
    rw [hwq] at hempty
    simp only [hempty, List.isEmpty_cons]
    cases hres : gb.cache.resident C d with
    | true => simp [hres]
    | false =>
      obtain ⟨hwq', hpopped, hempty', hrecv, -⟩ := requestOnce_frame d gb
      simp [hres, requestOnce_cache, hwq', hpopped, hempty', hrecv, hempty, hwq]

/-- The arrival of an item sets the flag if the line of the item is in the cache. -/
theorem receiveItem_spec (d : ERData) (gb : GlobalBuffer) :
    (gb.receiveItem C d).cache.tags = gb.cache.tags ∧
      (gb.receiveItem C d).wq = gb.wq ++ [d] ∧ (gb.receiveItem C d).popped = gb.popped ∧
      (gb.receiveItem C d).qEmpty = false ∧
      (gb.receiveItem C d).canTransfer = (gb.canTransfer || gb.cache.resident C d) := by
  unfold receiveItem
  cases hway : gb.cache.way? C d with
  | some way =>
    rw [Cache.resident_of_way? hway, Bool.or_true]
    exact ⟨Cache.hit_tags d way _, rfl, rfl, rfl, rfl⟩
  | none =>
    have hres : gb.cache.resident C d = false := (Cache.way?_eq_none_iff _ d).mp hway
    obtain ⟨hwq, hpopped, hempty, -, htransfer⟩ := requestOnce_frame d (gb.push d)
    rw [hres, Bool.or_false, requestOnce_cache]
    exact ⟨rfl, hwq, hpopped, hempty, htransfer⟩

theorem allResident_concat {popped : List (ERData × Bool)} {d : ERData} {b : Bool} :
    (∀ e ∈ popped ++ [(d, b)], e.2 = true) ↔ (∀ e ∈ popped, e.2 = true) ∧ b = true := by
  simp only [List.forall_mem_append, List.forall_mem_singleton]

/-- If the head of the queue is in the cache or stays, only items with their line are handed
over. -/
theorem handOver_allResident_iff (gb : GlobalBuffer) :
    (gb.handOver C).AllResident ↔ gb.AllResident ∧
      (gb.canTransfer = true → ∀ d ∈ gb.wq.head?, gb.cache.resident C d = true) := by
  unfold handOver AllResident
  cases htransfer : gb.canTransfer with
  | false => simp
  | true =>
    unfold transferAData
    cases gb.wq with
    | nil => simp
    | cons d wq =>
      simp only [if_true, allResident_concat, List.head?_cons, Option.mem_some_iff, forall_eq',
        true_imp_iff]

theorem handOver_emptyFlag {gb : GlobalBuffer} (hempty : gb.EmptyFlag) :
    (gb.handOver C).EmptyFlag := by
  unfold EmptyFlag at hempty ⊢
  unfold handOver transferAData
  cases hwq : gb.wq with
  | nil => split <;> simp [hempty, hwq]
  | cons d wq =>
    rw [hwq] at hempty
    split <;> simp [hempty, hwq]

/-- The arrival of a cycle after `CanTransfer`: the head of the queue is handed over without
its line exactly if a hit arrives behind it. -/
theorem arrive_spec (arrival : Option ERData) {gb : GlobalBuffer} (hempty : gb.EmptyFlag)
    (htransfer : gb.canTransfer = gb.wq.head?.any (gb.cache.resident C ·)) :
    (gb.arrive C arrival).EmptyFlag ∧ (gb.arrive C arrival).popped = gb.popped ∧
      (((gb.arrive C arrival).canTransfer = true → ∀ d ∈ (gb.arrive C arrival).wq.head?,
        (gb.arrive C arrival).cache.resident C d = true) ↔ ¬ gb.HitBehindMiss C arrival) := by
  have hstays : (gb.canTransfer = true → ∀ d ∈ gb.wq.head?, gb.cache.resident C d = true) := by
    rw [htransfer]
    cases gb.wq.head? <;> simp
  unfold arrive HitBehindMiss
  cases arrival with
  | none => exact ⟨hempty, rfl, iff_of_true hstays (by simp)⟩
  | some d =>
    cases hrecv : gb.canReceive with
    | false => exact ⟨hempty, rfl, iff_of_true hstays (by simp)⟩
    | true =>
      obtain ⟨htags, hwq, hpopped, hflag, hsets⟩ := receiveItem_spec (C := C) d gb
      refine ⟨?_, hpopped, ?_⟩
      · change (gb.receiveItem C d).qEmpty = (gb.receiveItem C d).wq.isEmpty
        rw [hflag, hwq]
        simp
      · simp only [if_true, hsets, htransfer, hwq, Cache.resident_congr htags]
        cases gb.wq with
        | nil => simp
        | cons head wq =>
          cases hhead : gb.cache.resident C head <;> cases hd : gb.cache.resident C d <;>
            simp [hhead, hd]

/-- One cycle of the driver hands over an item without its line exactly if a hit arrives
behind a head that misses. -/
theorem cycle_allResident_iff {gb : GlobalBuffer} (i : CycleInput) (hempty : gb.EmptyFlag) :
    (gb.cycle C i).EmptyFlag ∧ ((gb.cycle C i).AllResident ↔
      gb.AllResident ∧ ¬ (gb.replies C i.replies).HitBehindMiss C i.arrival) := by
  obtain ⟨hwq, hpopped, hflag⟩ := replies_frame (C := C) i.replies gb
  have hempty' : (gb.replies C i.replies).EmptyFlag := by
    unfold EmptyFlag
    rw [hwq, hflag]
    exact hempty
  obtain ⟨hcache, hwqCheck, hpoppedCheck, hemptyCheck, hrecv, htransfer⟩ :=
    checkTransfer_spec (C := C) hempty'
  rw [← hwqCheck, ← hcache] at htransfer
  obtain ⟨hemptyArrive, hpoppedArrive, hiff⟩ := arrive_spec i.arrival hemptyCheck htransfer
  have hbehind : HitBehindMiss C i.arrival ((gb.replies C i.replies).checkTransfer C) ↔
      HitBehindMiss C i.arrival (gb.replies C i.replies) := by
    unfold HitBehindMiss
    rw [hcache, hwqCheck, hrecv]
  refine ⟨handOver_emptyFlag hemptyArrive, ?_⟩
  unfold cycle
  rw [handOver_allResident_iff, hiff, hbehind]
  unfold AllResident
  rw [hpoppedArrive, hpoppedCheck, hpopped]

/-- The driver hands over only items whose line is in the cache exactly in the runs in which
no hit arrives behind a head that misses. -/
theorem run_allResident_iff (inputs : List CycleInput) :
    (run C inputs).AllResident ↔ Transition.Guarded (cycle C)
      (fun gb i => ¬ (gb.replies C i.replies).HitBehindMiss C i.arrival) (init C) inputs := by
  have h := Transition.run_iff_guarded (I := EmptyFlag) (B := AllResident)
    (fun _ i hempty => (cycle_allResident_iff (C := C) i hempty).1)
    (fun _ i hempty => (cycle_allResident_iff (C := C) i hempty).2)
    (show (init C).EmptyFlag from rfl) inputs
  rw [run, h]
  exact and_iff_right (fun _ he => absurd he List.not_mem_nil)

/-- Column `7` is requested, installed and handed over; column `9` misses; column `7` arrives
behind it. -/
def hitBehindMissRun : List CycleInput :=
  [⟨[], some ⟨7, 448, 0⟩⟩, ⟨[(448, ⟨(0, 0), false⟩)], none⟩, ⟨[], some ⟨9, 576, 0⟩⟩,
    ⟨[], some ⟨7, 448, 0⟩⟩]

/-- Column `9` is handed over while its read is outstanding. -/
theorem hitBehindMiss_popped :
    ¬ (run (.twoWays .lru) hitBehindMissRun).AllResident ∧
      (run (.twoWays .lru) hitBehindMissRun).popped.getLast? = some (⟨9, 576, 0⟩, false) ∧
      (run (.twoWays .lru) hitBehindMissRun).outstanding = [576] := by
  unfold AllResident
  decide +kernel

end GcnSim.GlobalBuffer
