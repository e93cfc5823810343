import GcnSim.Cache.GlobalBuffer
import GcnSim.Lib.Run
import GcnSim.Lib.Slots

/-!
# Tags of the global buffer

The calls of the buffer may come in any order. If the address of an item determines
its line and back, no line is in two ways, every line is in the set of its column,
and a line that was requested is neither in the cache nor requested twice.
-/

namespace GcnSim

/-- The column and the fold of the item are of type `int`, its address is the one of its
line. -/
structure ERData.Addressed (addr : Nat → Int → Nat) (d : ERData) : Prop where
  colindex_lt : d.colindex < 2147483648
  fold_le : -2147483648 ≤ d.preWFold
  fold_lt : d.preWFold < 2147483648
  address_eq : d.address = addr d.colindex d.preWFold

/-- Items with the same address are of the same line. -/
def AddressInjective (addr : Nat → Int → Nat) : Prop :=
  ∀ d d' : ERData, d.Addressed addr → d'.Addressed addr → d.address = d'.address →
    d.colindex = d'.colindex ∧ d.preWFold = d'.preWFold

namespace ERData.Addressed

variable {addr : Nat → Int → Nat} {d d' : ERData}

theorem tag_eq (hd : d.Addressed addr) : d.tag = ⟨d.colindex, d.preWFold⟩ := by
  rw [tag, intOfU64_of_lt hd.colindex_lt]

theorem tag_isEmpty (hd : d.Addressed addr) : d.tag.isEmpty = false := by
  rw [hd.tag_eq, Tag.isEmpty, decide_eq_false_iff_not]
  simp only
  omega

/-- A line has one address. -/
theorem address_of_tag (hd : d.Addressed addr) (hd' : d'.Addressed addr) (h : d.tag = d'.tag) :
    d.address = d'.address := by
  rw [hd.tag_eq, hd'.tag_eq, Tag.mk.injEq, Int.natCast_inj] at h
  rw [hd.address_eq, hd'.address_eq, h.1, h.2]

theorem holds_tag (hd : d.Addressed addr) : d.tag.holds d = true := by
  simp [hd.tag_eq, Tag.holds, u64OfInt_natCast]

/-- A way with a line holds an item only if it is the line of the item. -/
theorem tag_of_holds (hd : d.Addressed addr) (hd' : d'.Addressed addr)
    (h : d'.tag.holds d = true) : d'.tag = d.tag := by
  rw [hd'.tag_eq, Tag.holds, Bool.and_eq_true, decide_eq_true_eq, decide_eq_true_eq,
    u64OfInt_natCast] at h
  rw [hd'.tag_eq, hd.tag_eq, Tag.mk.injEq, Int.natCast_inj]
  exact h

theorem not_holds_empty (hd : d.Addressed addr) : Tag.empty.holds d = false := by
  have h : u64OfInt (-1) = 18446744073709551615 := by decide
  have hlt := hd.colindex_lt
  rw [Tag.holds, Tag.empty, h, Bool.and_eq_false_iff, decide_eq_false_iff_not]
  exact Or.inl (by omega)

end ERData.Addressed

namespace Cache

variable (C : GbConfig) (addr : Nat → Int → Nat)

/-- Every way is unused or holds a line of its set, and no line is in two ways. -/
structure TagsOk (c : Cache) : Prop where
  length : ∀ idx, (c.tags idx).length = C.wayN
  placed : ∀ idx, ∀ t ∈ c.tags idx,
    t = .empty ∨ ∃ d : ERData, d.Addressed addr ∧ setIdx C d = idx ∧ d.tag = t
  distinct : ∀ idx, Slots.Distinct Tag.isEmpty (c.tags idx)

variable {C addr}

theorem init_tagsOk : (init C).TagsOk C addr where
  length _ := List.length_replicate
  placed _ _ ht := Or.inl (List.eq_of_mem_replicate ht)
  distinct _ i j t hi _ ht := by
    have hempty : t = .empty := List.eq_of_mem_replicate (List.mem_of_getElem? hi)
    subst hempty
    exact absurd ht (by decide)

/-- The books of the policy are no part of the invariant. -/
theorem TagsOk.congr {c c' : Cache} (h : c.TagsOk C addr) (htags : c'.tags = c.tags) :
    c'.TagsOk C addr := by
  constructor
  · rw [htags]
    exact h.length
  · rw [htags]
    exact h.placed
  · rw [htags]
    exact h.distinct

/-- An item is found in the cache exactly if its tag is in its set. -/
theorem TagsOk.resident_iff {c : Cache} (h : c.TagsOk C addr) {d : ERData}
    (hd : d.Addressed addr) : c.resident C d = true ↔ d.tag ∈ c.tags (setIdx C d) := by
  rw [resident, List.any_eq_true]
  constructor
  · rintro ⟨t, hmem, hholds⟩
    obtain rfl | ⟨d', hd', -, rfl⟩ := h.placed _ t hmem
    · rw [hd.not_holds_empty] at hholds
      exact absurd hholds Bool.false_ne_true
    · rw [← hd.tag_of_holds hd' hholds]
      exact hmem
  · intro hmem
    exact ⟨d.tag, hmem, hd.holds_tag⟩

/-- A line that is not in the cache may be written to any way of its set. -/
theorem TagsOk.write {c c' : Cache} (h : c.TagsOk C addr) {d : ERData} (hd : d.Addressed addr)
    (hmiss : d.tag ∉ c.tags (setIdx C d)) {way : Nat}
    (htags : c'.tags =
      Function.update c.tags (setIdx C d) ((c.tags (setIdx C d)).set way d.tag)) :
    c'.TagsOk C addr := by
  have hother {idx : Nat} (hidx : idx ≠ setIdx C d) : c'.tags idx = c.tags idx := by
    rw [htags, Function.update_of_ne hidx]
  have hself : c'.tags (setIdx C d) = (c.tags (setIdx C d)).set way d.tag := by
    rw [htags, Function.update_self]
  constructor
  · intro idx
    by_cases hidx : idx = setIdx C d
    · rw [hidx, hself, List.length_set]
      exact h.length _
    · rw [hother hidx]
      exact h.length idx
  · intro idx t ht
    by_cases hidx : idx = setIdx C d
    · subst hidx
      rw [hself] at ht
      obtain hold | rfl := List.mem_or_eq_of_mem_set ht
      · exact h.placed _ t hold
      · exact Or.inr ⟨d, hd, rfl, rfl⟩
    · rw [hother hidx] at ht
      exact h.placed idx t ht
  · intro idx
    by_cases hidx : idx = setIdx C d
    · rw [hidx, hself]
      exact (h.distinct _).set hmiss way
    · rw [hother hidx]
      exact h.distinct idx

/-- A line that is written is in the cache, the other lines are not new. -/
theorem mem_of_mem_write {c c' : Cache} {d d' : ERData} {way : Nat}
    (htags : c'.tags =
      Function.update c.tags (setIdx C d) ((c.tags (setIdx C d)).set way d.tag))
    (hne : d'.tag ≠ d.tag) (hmem : d'.tag ∈ c'.tags (setIdx C d')) :
    d'.tag ∈ c.tags (setIdx C d') := by
  rw [htags] at hmem
  by_cases hidx : setIdx C d' = setIdx C d
  · rw [hidx, Function.update_self] at hmem
    rw [hidx]
    exact (List.mem_or_eq_of_mem_set hmem).resolve_right hne
  · rwa [Function.update_of_ne hidx] at hmem

theorem installScan_tags (access : Int → Int → PolicyList → PolicyList)
    (replace : PolicyList → (Int × Int) × PolicyList) (d : ERData) (c : Cache) :
    (c.installScan C access replace d).tags = c.tags ∨
      ∃ way, (c.installScan C access replace d).tags =
        Function.update c.tags (setIdx C d) ((c.tags (setIdx C d)).set way d.tag) := by
  unfold installScan
  split
  next way _ => exact Or.inr ⟨way, rfl⟩
  next =>
    simp only
    split
    next way _ => exact Or.inr ⟨way, rfl⟩
    next => exact Or.inl rfl

/-- Every policy writes the line of a reply to a way of its set, if it writes at all. -/
theorem installLine_tags (junk : Int × Int) (address : Nat) (d : ERData) (c : Cache) :
    (c.installLine C junk address d).tags = c.tags ∨
      ∃ way, (c.installLine C junk address d).tags =
        Function.update c.tags (setIdx C d) ((c.tags (setIdx C d)).set way d.tag) := by
  unfold installLine
  cases C.algo with
  | fifo => exact installScan_tags _ _ d c
  | lru => exact installScan_tags _ _ d c
  | rrip =>
    simp only
    split
    next way _ _ => exact Or.inr ⟨way, rfl⟩
    next => exact Or.inl rfl
  | ship =>
    simp only
    split
    next way _ _ _ => exact Or.inr ⟨way, rfl⟩
    next => exact Or.inl rfl

end Cache

namespace GlobalBuffer

variable (C : GbConfig) (addr : Nat → Int → Nat)

/-- The calls of a buffer. -/
inductive Call where
  | receiveItem (d : ERData)
  | canTransfer
  | transferAData
  | reply (address : Nat) (junk : ReplyJunk)

/-- The items that arrive have the address of their line. -/
def Call.Addressed : Call → Prop
  | .receiveItem d => d.Addressed addr
  | _ => True

/-- The effect of a call. -/
def call (gb : GlobalBuffer) : Call → GlobalBuffer
  | .receiveItem d => gb.receiveItem C d
  | .canTransfer => gb.checkTransfer C
  | .transferAData => gb.transferAData C
  | .reply address junk => gb.reply C (address, junk)

/-- The buffer after a list of calls. -/
def calls (cs : List Call) : GlobalBuffer := Transition.run (call C) (init C) cs

/-- A line is under way exactly if its address is marked; it was requested once, for an item
with that address, and is not in the cache. -/
structure RequestsOk (gb : GlobalBuffer) : Prop where
  tags : gb.cache.TagsOk C addr
  queued : ∀ d ∈ gb.wq, d.Addressed addr
  counted : ∀ a, gb.outstanding.count a = if gb.wReqTable a then 1 else 0
  mapped : ∀ a, gb.wReqTable a = true → (gb.wMap a).Addressed addr ∧ (gb.wMap a).address = a ∧
    (gb.wMap a).tag ∉ gb.cache.tags (Cache.setIdx C (gb.wMap a))

variable {C addr}

theorem init_requestsOk : (init C).RequestsOk C addr where
  tags := Cache.init_tagsOk
  queued _ hd := absurd hd List.not_mem_nil
  counted _ := rfl
  mapped _ ha := absurd ha Bool.false_ne_true

/-- A line that is neither in the cache nor under way is requested. -/
theorem requestOnce_requestsOk {gb : GlobalBuffer} (h : gb.RequestsOk C addr) {d : ERData}
    (hd : d.Addressed addr) (hmiss : gb.cache.resident C d = false) :
    (gb.requestOnce d).RequestsOk C addr := by
  unfold requestOnce
  split
  next => exact h
  next hreq =>
    have hmem : d.tag ∉ gb.cache.tags (Cache.setIdx C d) := by
      rw [← h.tags.resident_iff hd, hmiss]
      exact Bool.false_ne_true
    constructor
    · exact h.tags
    · exact h.queued
    · intro a
      simp only [request, List.count_append, List.count_singleton, Function.update_apply,
        h.counted, beq_iff_eq]
      by_cases ha : a = d.address
      · subst ha
        simp [hreq]
      · simp [ha, Ne.symm ha]
    · intro a ha
      simp only [request, Function.update_apply] at ha ⊢
      by_cases hda : a = d.address
      · simp only [hda, if_true]
        exact ⟨hd, trivial, hmem⟩
      · simp only [hda, if_false] at ha ⊢
        exact h.mapped a ha

theorem push_requestsOk {gb : GlobalBuffer} (h : gb.RequestsOk C addr) {d : ERData}
    (hd : d.Addressed addr) : (gb.push d).RequestsOk C addr where
  tags := h.tags
  queued d' hd' := by
    obtain hmem | hmem := List.mem_append.mp hd'
    · exact h.queued d' hmem
    · rw [List.mem_singleton.mp hmem]
      exact hd
  counted := h.counted
  mapped := h.mapped

theorem receiveItem_requestsOk {gb : GlobalBuffer} (h : gb.RequestsOk C addr) {d : ERData}
    (hd : d.Addressed addr) : (gb.receiveItem C d).RequestsOk C addr := by
  have hpush := push_requestsOk h hd
  unfold receiveItem
  cases hway : gb.cache.way? C d with
  | none => exact requestOnce_requestsOk hpush hd ((Cache.way?_eq_none_iff gb.cache d).mp hway)
  | some way =>
    have htags := Cache.hit_tags (C := C) d way gb.cache
    constructor
    · exact h.tags.congr htags
    · exact hpush.queued
    · exact hpush.counted
    · simp only [htags]
      exact hpush.mapped

theorem checkTransfer_requestsOk {gb : GlobalBuffer} (h : gb.RequestsOk C addr) :
    (gb.checkTransfer C).RequestsOk C addr := by
  unfold checkTransfer
  split
  next d wq hempty hwq =>
    split
    next => exact { h with }
    next hmiss =>
      have hd : d.Addressed addr := h.queued d (hwq ▸ List.mem_cons_self)
      exact { requestOnce_requestsOk h hd (eq_false_of_ne_true hmiss) with }
  next => exact { h with }

theorem transferAData_requestsOk {gb : GlobalBuffer} (h : gb.RequestsOk C addr) :
    (gb.transferAData C).RequestsOk C addr := by
  unfold transferAData
  split
  next => exact { h with }
  next d wq hwq => exact
    { h with queued := fun d' hd' => h.queued d' (hwq ▸ List.mem_cons_of_mem d hd') }

/-- Outstanding reads are marked. -/
theorem RequestsOk.marked {gb : GlobalBuffer} (h : gb.RequestsOk C addr) {a : Nat}
    (hmem : a ∈ gb.outstanding) : gb.wReqTable a = true := by
  have hpos := List.count_pos_iff.mpr hmem
  rw [h.counted] at hpos
  split at hpos
  next hreq => exact hreq
  next => exact absurd hpos (Nat.lt_irrefl 0)

/-- The line of an outstanding read is written to a way of its set, or it is dropped. -/
theorem RequestsOk.install {gb : GlobalBuffer} (h : gb.RequestsOk C addr) {r : Nat}
    (hmem : r ∈ gb.outstanding) {c : Cache} (canTransfer : Bool)
    (hinstall : c.tags = gb.cache.tags ∨ ∃ way, c.tags =
      Function.update gb.cache.tags (Cache.setIdx C (gb.wMap r))
        ((gb.cache.tags (Cache.setIdx C (gb.wMap r))).set way (gb.wMap r).tag)) :
    RequestsOk C addr { gb with
      cache := c
      wReqTable := Function.update gb.wReqTable r false
      canTransfer := canTransfer
      outstanding := gb.outstanding.erase r } := by
  have hreq := h.marked hmem
  obtain ⟨hd, haddress, hmiss⟩ := h.mapped r hreq
  constructor
  · obtain heq | ⟨way, heq⟩ := hinstall
    · exact h.tags.congr heq
    · exact h.tags.write hd hmiss heq
  · exact h.queued
  · intro a
    simp only [Function.update_apply, List.count_erase, h.counted, beq_iff_eq]
    by_cases ha : a = r
    · subst ha
      simp [hreq]
    · simp [ha, Ne.symm ha]
  · intro a ha
    simp only [Function.update_apply] at ha ⊢
    by_cases har : a = r
    · simp [har] at ha
    · rw [if_neg har] at ha
      obtain ⟨hda, haa, hmissa⟩ := h.mapped a ha
      refine ⟨hda, haa, fun hmem => hmissa ?_⟩
      obtain heq | ⟨way, heq⟩ := hinstall
      · rwa [heq] at hmem
      · refine Cache.mem_of_mem_write heq (fun htag => har ?_) hmem
        rw [← haa, ← haddress, hda.address_of_tag hd htag]

/-- A reply installs a line that was not in the cache. -/
theorem reply_requestsOk {gb : GlobalBuffer} (h : gb.RequestsOk C addr)
    (r : Nat × ReplyJunk) : (gb.reply C r).RequestsOk C addr := by
  unfold reply
  split
  next hmem => exact h.install hmem _ (Cache.installLine_tags r.2.victim r.1 _ gb.cache)
  next => exact h

theorem call_requestsOk {gb : GlobalBuffer} (h : gb.RequestsOk C addr) {c : Call}
    (hc : c.Addressed addr) : (gb.call C c).RequestsOk C addr := by
  cases c with
  | receiveItem d => exact receiveItem_requestsOk h hc
  | canTransfer => exact checkTransfer_requestsOk h
  | transferAData => exact transferAData_requestsOk h
  | reply address junk => exact reply_requestsOk h (address, junk)

theorem calls_requestsOk {cs : List Call} (hcs : ∀ c ∈ cs, c.Addressed addr) :
    (calls C cs).RequestsOk C addr :=
  Transition.run_invariant_of_forall (P := Call.Addressed addr) (I := RequestsOk C addr)
    (fun _ _ hc h => call_requestsOk h hc) init_requestsOk hcs

/-- A way in use holds a line of its set. -/
theorem RequestsOk.placed {gb : GlobalBuffer} (h : gb.RequestsOk C addr) {idx : Nat} {t : Tag}
    (ht : t ∈ gb.cache.tags idx) (huse : t.isEmpty = false) :
    0 ≤ t.col ∧ t.col.toNat % C.setN = idx := by
  obtain rfl | ⟨d, hd, hidx, rfl⟩ := h.tags.placed idx t ht
  · exact absurd huse (by decide)
  · rw [hd.tag_eq]
    exact ⟨Int.natCast_nonneg _, hidx⟩

/-- The line of an address that is under way is not in the cache. -/
theorem RequestsOk.not_mem_tags {gb : GlobalBuffer} (h : gb.RequestsOk C addr)
    (hinj : AddressInjective addr) {d : ERData} (hd : d.Addressed addr)
    (hreq : gb.wReqTable d.address = true) (idx : Nat) : d.tag ∉ gb.cache.tags idx := by
  obtain ⟨hdmap, haddress, hmiss⟩ := h.mapped d.address hreq
  obtain ⟨hcol, hfold⟩ := hinj _ _ hdmap hd haddress
  have htag : (gb.wMap d.address).tag = d.tag := by rw [hdmap.tag_eq, hd.tag_eq, hcol, hfold]
  intro hmem
  have hidx : Cache.setIdx C (gb.wMap d.address) = idx := by
    have hplaced := (h.placed hmem hd.tag_isEmpty).2
    rw [hd.tag_eq, ← hcol] at hplaced
    exact hplaced
  rw [← hidx, ← htag] at hmem
  exact hmiss hmem

/-- After any calls, if the addresses of the items are an injective function of their lines:
no line is in two ways, every line is in the set of its column, every address is
outstanding at most once, exactly if it is marked in `w_req_table`, and then its line is
not in the cache. -/
theorem calls_tags_unique (hinj : AddressInjective addr) (cs : List Call)
    (hcs : ∀ c ∈ cs, c.Addressed addr) :
    (∀ (idx way idx' way' : Nat) (t : Tag), ((calls C cs).cache.tags idx)[way]? = some t →
      ((calls C cs).cache.tags idx')[way']? = some t → t.isEmpty = false →
      idx = idx' ∧ way = way') ∧
    (∀ (idx : Nat) (t : Tag), t ∈ (calls C cs).cache.tags idx → t.isEmpty = false →
      0 ≤ t.col ∧ t.col.toNat % C.setN = idx) ∧
    (∀ a, (calls C cs).outstanding.count a ≤ 1 ∧
      ((calls C cs).wReqTable a = true ↔ (calls C cs).outstanding.count a = 1)) ∧
    (∀ d : ERData, d.Addressed addr → (calls C cs).wReqTable d.address = true →
      ∀ idx, d.tag ∉ (calls C cs).cache.tags idx) := by
  have h := calls_requestsOk (C := C) hcs
  refine ⟨?_, fun idx t => h.placed, ?_, fun d hd hreq => h.not_mem_tags hinj hd hreq⟩
  · intro idx way idx' way' t hway hway' huse
    have hidx : idx = idx' := by
      rw [← (h.placed (List.mem_of_getElem? hway) huse).2]
      exact (h.placed (List.mem_of_getElem? hway') huse).2
    subst hidx
    exact ⟨rfl, h.tags.distinct idx way way' t hway hway' huse⟩
  · intro a
    rw [h.counted a]
    cases (calls C cs).wReqTable a <;> decide

/-- The lines of each fold after those of the fold before. -/
def lineAddress (col : Nat) (fold : Int) : Nat := (fold + 2147483648).toNat * 2147483648 + col

theorem lineAddress_injective : AddressInjective lineAddress := by
  intro d d' hd hd' h
  have hcol := hd.colindex_lt
  have hcol' := hd'.colindex_lt
  have hfold := hd.fold_le
  have hfold' := hd'.fold_le
  rw [hd.address_eq, hd'.address_eq, lineAddress, lineAddress] at h
  omega

/-- An item of a line. -/
def lineItem (col : Nat) (fold : Int) : ERData := ⟨col, lineAddress col fold, fold⟩

/-- Column `3` of fold `0` is requested and installed, then it is evicted by column `5` while
it is at the head of the queue, and requested again. -/
def evictedCalls : List Call :=
  [.receiveItem (lineItem 3 0), .receiveItem (lineItem 5 0),
    .reply (lineAddress 3 0) ⟨(0, 0), false⟩, .reply (lineAddress 5 0) ⟨(0, 0), false⟩,
    .canTransfer]

theorem evictedCalls_addressed : ∀ c ∈ evictedCalls, c.Addressed lineAddress := by
  simp only [evictedCalls, List.forall_mem_cons, Call.Addressed]
  refine ⟨⟨?_, ?_, ?_, rfl⟩, ⟨?_, ?_, ?_, rfl⟩, trivial, trivial, trivial,
    fun _ h => absurd h List.not_mem_nil⟩
  all_goals decide

theorem evictedCalls_tags_unique :
    (calls (.oneWay .lru) evictedCalls).outstanding = [lineAddress 3 0] ∧
      (calls (.oneWay .lru) evictedCalls).cache.tags 0 = [⟨5, 0⟩] ∧
      ∀ idx, (lineItem 3 0).tag ∉ (calls (.oneWay .lru) evictedCalls).cache.tags idx := by
  refine ⟨by decide +kernel, by decide +kernel, ?_⟩
  have h := calls_tags_unique (C := .oneWay .lru) lineAddress_injective evictedCalls
    evictedCalls_addressed
  exact h.2.2.2 (lineItem 3 0) ⟨by decide, by decide, by decide, rfl⟩ (by decide +kernel)

end GlobalBuffer

end GcnSim
