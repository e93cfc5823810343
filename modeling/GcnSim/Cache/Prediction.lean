import GcnSim.Cache.Tags

/-!
# Victims of RRIP and SHiP

RRIP and SHiP count the prediction values of a set up until one of them is `3`. The
values of the ways stay between `0` and `3`, so the loop ends and every reply is
written to a way of its set.
-/

namespace GcnSim

namespace Cache

variable (C : GbConfig)

/-- A set has a value for each way, none of them above `3`. -/
structure RrpvOk (c : Cache) (idx : Nat) : Prop where
  length : (c.rrpvList idx).length = C.wayN
  le_three : ∀ v ∈ c.rrpvList idx, v ≤ 3

variable {C}

theorem init_rrpvOk (idx : Nat) : (init C).RrpvOk C idx where
  length := List.length_replicate
  le_three _ hv := Nat.le_of_eq (List.eq_of_mem_replicate hv)

/-- A value of one way of one set is written. -/
theorem RrpvOk.write {c c' : Cache} (h : ∀ idx, c.RrpvOk C idx) {idx way v : Nat}
    {rrpv : List Nat} (hlen : rrpv.length = C.wayN) (hle : ∀ u ∈ rrpv, u ≤ 3) (hv : v ≤ 3)
    (heq : c'.rrpvList = Function.update c.rrpvList idx (rrpv.set way v)) (idx' : Nat) :
    c'.RrpvOk C idx' := by
  constructor
  · rw [heq]
    by_cases hidx : idx' = idx
    · rw [hidx, Function.update_self, List.length_set, hlen]
    · rw [Function.update_of_ne hidx]
      exact (h idx').length
  · rw [heq]
    by_cases hidx : idx' = idx
    · rw [hidx, Function.update_self]
      intro u hu
      obtain hmem | rfl := List.mem_or_eq_of_mem_set hu
      · exact hle u hmem
      · exact hv
    · rw [Function.update_of_ne hidx]
      exact (h idx').le_three

theorem hit_rrpvOk {c : Cache} (h : ∀ idx, c.RrpvOk C idx) (d : ERData) (way idx : Nat) :
    (c.hit C d way).RrpvOk C idx := by
  have hset := h (setIdx C d)
  unfold hit
  cases C.algo with
  | fifo => exact ⟨(h idx).length, (h idx).le_three⟩
  | lru => exact ⟨(h idx).length, (h idx).le_three⟩
  | rrip => exact RrpvOk.write h hset.length hset.le_three (Nat.zero_le 3) rfl idx
  | ship => exact RrpvOk.write h hset.length hset.le_three (Nat.zero_le 3) rfl idx

/-- RRIP and SHiP write the line of a reply to a way of its set. -/
theorem installLine_writes (hpolicy : C.algo = .rrip ∨ C.algo = .ship) {c : Cache}
    (h : ∀ idx, c.RrpvOk C idx) (junk : Int × Int) (address : Nat) (d : ERData) :
    (∃ way < C.wayN, (c.installLine C junk address d).tags =
        Function.update c.tags (setIdx C d) ((c.tags (setIdx C d)).set way d.tag)) ∧
      ∀ idx, (c.installLine C junk address d).RrpvOk C idx := by
  have hset := h (setIdx C d)
  have hmem : ∃ v ∈ c.rrpvList (setIdx C d), 3 < v + 4 := by
    have hpos : 0 < (c.rrpvList (setIdx C d)).length := hset.length ▸ C.wayN_pos
    exact ⟨_, List.getElem_mem hpos, by omega⟩
  obtain ⟨way, rrpv, hsearch, hway, hlen, hle⟩ := Rrip.search_spec 4 _ hset.le_three hmem
  rw [hset.length] at hway hlen
  unfold installLine
  obtain halgo | halgo := hpolicy
  · simp only [halgo, Rrip.replace, hsearch, Option.map_some]
    exact ⟨⟨way, hway, rfl⟩, RrpvOk.write h hlen hle (by decide) rfl⟩
  · simp only [halgo, Ship.replace, hsearch, Option.map_some]
    have hvalue (p : Prop) [Decidable p] : (if p then 3 else 2) ≤ 3 := by
      split <;> decide
    exact ⟨⟨way, hway, rfl⟩, RrpvOk.write h hlen hle (hvalue _) rfl⟩

end Cache

namespace GlobalBuffer

variable {C : GbConfig}

theorem call_rrpvOk (hpolicy : C.algo = .rrip ∨ C.algo = .ship) {gb : GlobalBuffer}
    (h : ∀ idx, gb.cache.RrpvOk C idx) (c : Call) : ∀ idx, (gb.call C c).cache.RrpvOk C idx := by
  cases c with
  | receiveItem d =>
    rw [call, receiveItem]
    split
    next way _ => exact Cache.hit_rrpvOk h d way
    next =>
      rw [requestOnce_cache]
      exact h
  | canTransfer =>
    rw [call, checkTransfer_cache]
    exact h
  | transferAData =>
    rw [call, transferAData_cache]
    exact h
  | reply address junk =>
    rw [call, reply]
    split
    next => exact (Cache.installLine_writes hpolicy h junk.victim address _).2
    next => exact h

/-- After any calls with RRIP or SHiP the loop that looks for a victim ends, and a reply is
written to a way of the set of its line. -/
theorem calls_reply_writes (hpolicy : C.algo = .rrip ∨ C.algo = .ship) (cs : List Call)
    {address : Nat} (hmem : address ∈ (calls C cs).outstanding) (junk : ReplyJunk) :
    ∃ way < C.wayN, ((calls C cs).call C (.reply address junk)).cache.tags =
      Function.update (calls C cs).cache.tags
        (Cache.setIdx C ((calls C cs).wMap address))
        (((calls C cs).cache.tags (Cache.setIdx C ((calls C cs).wMap address))).set way
          ((calls C cs).wMap address).tag) := by
  have h : ∀ idx, (calls C cs).cache.RrpvOk C idx :=
    Transition.run_invariant (I := fun gb : GlobalBuffer => ∀ idx, gb.cache.RrpvOk C idx)
      (fun _ c h => call_rrpvOk hpolicy h c) Cache.init_rrpvOk cs
  rw [call, reply, if_pos hmem]
  exact (Cache.installLine_writes hpolicy h junk.victim address _).1

/-- No column of an item that arrives reads as `-1`, the mark of an empty way. -/
def Call.Tagged : Call → Prop
  | .receiveItem d => d.tag.isEmpty = false
  | _ => True

/-- No column of an item the buffer knows of reads as `-1`. -/
structure Tagged (gb : GlobalBuffer) : Prop where
  queued : ∀ d ∈ gb.wq, d.tag.isEmpty = false
  mapped : ∀ a, (gb.wMap a).tag.isEmpty = false

theorem init_tagged : (init C).Tagged where
  queued _ hd := absurd hd (List.not_mem_nil)
  mapped _ := rfl

theorem requestOnce_tagged {gb : GlobalBuffer} (h : gb.Tagged) {d : ERData}
    (hd : d.tag.isEmpty = false) : (gb.requestOnce d).Tagged := by
  rw [requestOnce]
  split
  · exact h
  · refine ⟨h.queued, fun a => ?_⟩
    change (Function.update gb.wMap d.address d a).tag.isEmpty = false
    by_cases ha : a = d.address
    · rw [ha, Function.update_self]
      exact hd
    · rw [Function.update_of_ne ha]
      exact h.mapped a

theorem push_tagged {gb : GlobalBuffer} (h : gb.Tagged) {d : ERData}
    (hd : d.tag.isEmpty = false) : (gb.push d).Tagged := by
  refine ⟨fun e he => ?_, h.mapped⟩
  rcases List.mem_append.mp he with he | he
  · exact h.queued e he
  · exact List.mem_singleton.mp he ▸ hd

theorem call_tagged {gb : GlobalBuffer} (h : gb.Tagged) {c : Call} (hc : c.Tagged) :
    (gb.call C c).Tagged := by
  cases c with
  | receiveItem d =>
    rw [call, receiveItem]
    split
    next way _ =>
      have hpush := push_tagged h hc
      exact ⟨hpush.queued, hpush.mapped⟩
    next => exact requestOnce_tagged (push_tagged h hc) hc
  | canTransfer =>
    rw [call, checkTransfer]
    split
    next d wq _ hwq =>
      split
      next => exact ⟨h.queued, h.mapped⟩
      next =>
        have hreq := requestOnce_tagged h (h.queued d (hwq ▸ List.mem_cons_self))
        exact ⟨hreq.queued, hreq.mapped⟩
    next => exact ⟨h.queued, h.mapped⟩
  | transferAData =>
    rw [call, transferAData]
    split
    next => exact ⟨h.queued, h.mapped⟩
    next d wq hwq => exact ⟨fun e he => h.queued e (hwq ▸ List.mem_cons_of_mem d he), h.mapped⟩
  | reply address junk =>
    rw [call, reply]
    split
    next => exact ⟨h.queued, h.mapped⟩
    next => exact h

end GlobalBuffer

end GcnSim
