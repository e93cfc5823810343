import GcnSim.Cache.Hybrid
import GcnSim.Cache.Tags
import GcnSim.Cache.PolicyOrder
import Mathlib.Data.Finset.Max

/-!
# Replies under the hybrid policies

A line of another fold than 0 is always written, because its victim is picked among the
lines of the set. A line of fold 0 is written to a full set only if the last line in the
books of LRU is still in the set; the second policy evicts such lines without a word. Every
reply of a run is written as it should be exactly if this never happens.
-/

namespace GcnSim

theorem minElement_lt {l : List Int} (h : l ≠ []) : minElement l < l.length := by
  obtain ⟨x, hx, hmin⟩ := Finset.exists_min_image l.toFinset id
    (List.toFinset_nonempty_iff l |>.mpr h)
  apply List.findIdx_lt_length_of_exists
  refine ⟨x, List.mem_toFinset.mp hx, ?_⟩
  rw [List.all_eq_true]
  intro y hy
  exact decide_eq_true (hmin y (List.mem_toFinset.mpr hy))

theorem maxElement_lt {l : List Int} (h : l ≠ []) : maxElement l < l.length := by
  obtain ⟨x, hx, hmax⟩ := Finset.exists_max_image l.toFinset id
    (List.toFinset_nonempty_iff l |>.mpr h)
  apply List.findIdx_lt_length_of_exists
  refine ⟨x, List.mem_toFinset.mp hx, ?_⟩
  rw [List.all_eq_true]
  intro y hy
  exact decide_eq_true (hmax y (List.mem_toFinset.mpr hy))

namespace Lru

/-- `LRU::access` erases the same places of both lists. -/
theorem scan_parallel (data weightBlkIdx : Int) (xs ys : List Int) (h : xs.length = ys.length) :
    (scan data weightBlkIdx xs ys).1.length = (scan data weightBlkIdx xs ys).2.length := by
  rw [scan_eq_pick]
  exact Masks.length_pick_eq _ h

theorem access_parallel (data weightBlkIdx : Int) {l : PolicyList} (h : l.Parallel) :
    (access data weightBlkIdx l).Parallel :=
  congrArg Nat.succ (scan_parallel data weightBlkIdx _ _ h)

theorem replace_parallel (junk : Int × Int) {l : PolicyList} (h : l.Parallel) :
    (replace junk l).2.Parallel := by
  rw [PolicyList.Parallel] at h
  rw [PolicyList.Parallel, replace, List.length_dropLast, List.length_dropLast, h]

end Lru

namespace HybridBuffer

variable {C : HybridConfig}

/-- The victim of the second policy is a line of the set. -/
theorem victim_mem (junk : HybridJunk) (row : Nat) {tags : List Tag} (htags : tags ≠ [])
    (hb : HybridBuffer) : hb.victim C junk row tags ∈ tags := by
  have hget : ∀ i, i < tags.length → tags.getD i .empty ∈ tags := by
    intro i hi
    rw [List.getD_eq_getElem?_getD, List.getElem?_eq_getElem hi, Option.getD_some]
    exact List.getElem_mem hi
  have hmap : ∀ f : Tag → Int, tags.map f ≠ [] := fun f h => htags (List.map_eq_nil_iff.mp h)
  rw [victim]
  split
  · split
    · apply hget
      simpa using minElement_lt (hmap _)
    · apply hget
      simpa using minElement_lt (hmap _)
  · apply hget
    simpa using maxElement_lt (hmap _)

/-- The set of an item is full. -/
def Full (C : HybridConfig) (hb : HybridBuffer) (d : RowItem) : Prop :=
  ∀ t ∈ hb.cache.tags (Cache.setIdx C.lru d.toERData), t.isEmpty = false

/-- The books of LRU for the set of an item. -/
def lruList (C : HybridConfig) (hb : HybridBuffer) (d : RowItem) : PolicyList :=
  hb.cache.lists (Cache.setIdx C.lru d.toERData)

/-- The line that LRU evicts from the set of an item. -/
def lruVictim (C : HybridConfig) (junk : HybridJunk) (hb : HybridBuffer) (d : RowItem) : Tag :=
  ⟨(Lru.replace junk.victim (hb.lruList C d)).1.1, (Lru.replace junk.victim (hb.lruList C d)).1.2⟩

/-- The line of an item is written to a way of its set. -/
def Writes (C : HybridConfig) (hb : HybridBuffer) (d : RowItem) (c : Cache) : Prop :=
  ∃ way < (hb.cache.tags (Cache.setIdx C.lru d.toERData)).length, c.tags =
    Function.update hb.cache.tags (Cache.setIdx C.lru d.toERData)
      ((hb.cache.tags (Cache.setIdx C.lru d.toERData)).set way d.tag)

theorem full_iff (hb : HybridBuffer) (d : RowItem) : hb.Full C d ↔
    (hb.cache.tags (Cache.setIdx C.lru d.toERData)).findIdx? Tag.isEmpty = none :=
  List.findIdx?_eq_none_iff.symm

/-- A line that is written to a way found in the set. -/
theorem writes_of_findIdx? {hb : HybridBuffer} {d : RowItem} {p : Tag → Bool} {way : Nat}
    (h : (hb.cache.tags (Cache.setIdx C.lru d.toERData)).findIdx? p = some way) {c : Cache}
    (hc : c.tags = (hb.cache.install C.lru d.toERData way).tags) : hb.Writes C d c := by
  obtain ⟨hlt, -⟩ := List.findIdx?_eq_some_iff_getElem.mp h
  exact ⟨way, hlt, hc⟩

/-- The second policy always writes the line. -/
theorem installVictim_writes (junk : HybridJunk) (d : RowItem) {hb : HybridBuffer}
    (hways : hb.cache.tags (Cache.setIdx C.lru d.toERData) ≠ []) :
    hb.Writes C d (hb.installVictim C junk d) := by
  rw [installVictim]
  split
  · rename_i way hempty
    exact writes_of_findIdx? hempty rfl
  · split
    · rename_i way hvictim
      exact writes_of_findIdx? hvictim rfl
    · rename_i hvictim
      have hmem := victim_mem (C := C) junk d.rowindex hways hb
      have hfalse := List.findIdx?_eq_none_iff.mp hvictim _ hmem
      exact (of_decide_eq_false hfalse rfl).elim

/-- LRU writes the line, unless the set is full and the victim is not in the set. -/
theorem installScan_cases (junk : HybridJunk) (d : RowItem) (hb : HybridBuffer) :
    let c := hb.cache.installScan C.lru Lru.access (Lru.replace junk.victim) d.toERData
    (hb.Writes C d c ∧ (hb.Full C d →
        hb.lruVictim C junk d ∈ hb.cache.tags (Cache.setIdx C.lru d.toERData))) ∨
      c.tags = hb.cache.tags ∧ hb.Full C d ∧
        hb.lruVictim C junk d ∉ hb.cache.tags (Cache.setIdx C.lru d.toERData) := by
  intro c
  rw [full_iff]
  unfold c Cache.installScan
  split
  · rename_i way hempty
    left
    refine ⟨writes_of_findIdx? hempty rfl, fun hnone => ?_⟩
    rw [hempty] at hnone
    cases hnone
  · rename_i hnone
    dsimp only
    split
    · rename_i way hvictim
      left
      refine ⟨writes_of_findIdx? hvictim rfl, fun _ => ?_⟩
      obtain ⟨hlt, heq, -⟩ := List.findIdx?_eq_some_iff_getElem.mp hvictim
      have hmem := List.getElem_mem hlt
      rw [of_decide_eq_true heq] at hmem
      exact hmem
    · rename_i hvictim
      right
      refine ⟨rfl, hnone, ?_⟩
      intro hmem
      have hfalse := List.findIdx?_eq_none_iff.mp hvictim _ hmem
      exact of_decide_eq_false hfalse rfl

/-- What a reply does to the tags: the line is written, unless it is of fold 0, the set is
full and the victim of LRU is not in the set. -/
theorem installLine_cases (junk : HybridJunk) (d : RowItem) {hb : HybridBuffer}
    (hways : hb.cache.tags (Cache.setIdx C.lru d.toERData) ≠ []) :
    (hb.Writes C d (hb.installLine C junk d) ∧ (d.preWFold = 0 → hb.Full C d →
        hb.lruVictim C junk d ∈ hb.cache.tags (Cache.setIdx C.lru d.toERData))) ∨
      (hb.installLine C junk d).tags = hb.cache.tags ∧ d.preWFold = 0 ∧ hb.Full C d ∧
        hb.lruVictim C junk d ∉ hb.cache.tags (Cache.setIdx C.lru d.toERData) := by
  rw [installLine]
  split
  · rename_i hfold
    rcases installScan_cases (C := C) junk d hb with ⟨hwrites, hmem⟩ | ⟨hsame, hfull, hmiss⟩
    · exact .inl ⟨hwrites, fun _ => hmem⟩
    · exact .inr ⟨hsame, hfold, hfull, hmiss⟩
  · rename_i hfold
    exact .inl ⟨installVictim_writes junk d hways, fun h => (hfold h).elim⟩

variable (C) in
/-- What a reply should do: the tag is in exactly one way of its set, exactly one way
changed, and LRU was not asked for a victim of an empty list. -/
def InstallsFetched (hb : HybridBuffer) : Call → Prop
  | .reply address junk => address ∈ hb.outstanding →
      let d := hb.wMap address
      let idx := Cache.setIdx C.lru d.toERData
      let tags' := (hb.call C (.reply address junk)).cache.tags
      (tags' idx).count d.tag = 1 ∧
        (∃ way old, (hb.cache.tags idx)[way]? = some old ∧ old ≠ d.tag ∧
          tags' = Function.update hb.cache.tags idx ((hb.cache.tags idx).set way d.tag)) ∧
        ¬ (d.preWFold = 0 ∧ hb.Full C d ∧ (hb.lruList C d).data = [])
  | _ => True

variable (C) in
/-- A reply of fold 0 to a full set finds the last line in the books of LRU in the set. -/
def VictimResident (hb : HybridBuffer) : Call → Prop
  | .reply address _ => address ∈ hb.outstanding → (hb.wMap address).preWFold = 0 →
      hb.Full C (hb.wMap address) →
      ∃ t ∈ hb.cache.tags (Cache.setIdx C.lru (hb.wMap address).toERData),
        (hb.lruList C (hb.wMap address)).data.getLast? = some t.col ∧
        (hb.lruList C (hb.wMap address)).weightBlkIdx.getLast? = some t.fold
  | _ => True

/-- The buffer with items without their rows. -/
def toBuffer (hb : HybridBuffer) : GlobalBuffer where
  cache := hb.cache
  wq := hb.wq.map (·.toERData)
  wMap a := (hb.wMap a).toERData
  wReqTable := hb.wReqTable
  canTransfer := hb.canTransfer
  canReceive := hb.canReceive
  qEmpty := hb.qEmpty
  outstanding := hb.outstanding
  popped := []

theorem toBuffer_requestOnce (d : RowItem) (hb : HybridBuffer) :
    (hb.requestOnce d).toBuffer = hb.toBuffer.requestOnce d.toERData := by
  have hmap : (fun a => (Function.update hb.wMap d.address d a).toERData) =
      Function.update (fun a => (hb.wMap a).toERData) d.address d.toERData := by
    funext a
    rw [Function.update_apply, Function.update_apply]
    split <;> rfl
  rw [requestOnce, GlobalBuffer.requestOnce]
  change toBuffer (ite (hb.wReqTable d.address = true) _ _) =
    ite (hb.wReqTable d.address = true) _ _
  split
  · rfl
  · rw [request, GlobalBuffer.request, toBuffer, hmap]
    rfl

theorem toBuffer_push (d : RowItem) (hb : HybridBuffer) :
    (hb.push C d).toBuffer = hb.toBuffer.push d.toERData := by
  simp only [push, toBuffer, GlobalBuffer.push, List.map_append, List.map_singleton,
    List.length_map]

/-- The requests are in order, and the two lists of LRU are parallel. -/
structure Inv (C : HybridConfig) (addr : Nat → Int → Nat) (hb : HybridBuffer) : Prop where
  requests : hb.toBuffer.RequestsOk C.lru addr
  parallel : ∀ idx, (hb.cache.lists idx).Parallel

variable {addr : Nat → Int → Nat} {hb : HybridBuffer}

theorem init_inv : (init C).Inv C addr where
  requests := GlobalBuffer.init_requestsOk
  parallel _ := rfl

theorem update_parallel {lists : Nat → PolicyList} (h : ∀ idx, (lists idx).Parallel) (i : Nat)
    {l : PolicyList} (hl : l.Parallel) : ∀ idx, (Function.update lists i l idx).Parallel := by
  intro idx
  rw [Function.update_apply]
  split
  · exact hl
  · exact h idx

theorem Inv.receiveItem (h : hb.Inv C addr) {d : RowItem} (hd : d.toERData.Addressed addr) :
    (hb.receiveItem C d).Inv C addr := by
  have hpush := GlobalBuffer.push_requestsOk h.requests hd
  rw [HybridBuffer.receiveItem]
  split
  · rename_i way _
    have htags : (if d.preWFold = 0 then hb.cache.hit C.lru d.toERData way else hb.cache).tags =
        hb.cache.tags := by
      split
      · exact Cache.hit_tags _ _ _
      · rfl
    have hreq := (toBuffer_push (C := C) d hb) ▸ hpush
    refine ⟨⟨?_, hreq.queued, hreq.counted, ?_⟩, ?_⟩
    · exact h.requests.tags.congr htags
    · intro a ha
      obtain ⟨hda, haa, hmiss⟩ := hreq.mapped a ha
      refine ⟨hda, haa, ?_⟩
      change _ ∉ (ite (d.preWFold = 0) _ _ : Cache).tags _
      rw [htags]
      exact hmiss
    · change ∀ idx, ((ite (d.preWFold = 0) _ _ : Cache).lists idx).Parallel
      split
      · exact update_parallel h.parallel _ (Lru.access_parallel _ _ (h.parallel _))
      · exact h.parallel
  · rename_i hway
    constructor
    · rw [toBuffer_requestOnce, toBuffer_push]
      exact GlobalBuffer.requestOnce_requestsOk hpush hd
        ((Cache.way?_eq_none_iff hb.cache d.toERData).mp hway)
    · intro idx
      rw [requestOnce_cache]
      exact h.parallel idx

theorem Inv.checkTransfer (h : hb.Inv C addr) : (hb.checkTransfer C).Inv C addr := by
  unfold HybridBuffer.checkTransfer
  split
  · rename_i d wq _ hwq
    split
    · exact ⟨{ h.requests with }, h.parallel⟩
    · rename_i hmiss
      have hd : d.toERData.Addressed addr := by
        apply h.requests.queued
        rw [toBuffer, hwq]
        exact List.mem_cons_self
      have hreq := GlobalBuffer.requestOnce_requestsOk h.requests hd (eq_false_of_ne_true hmiss)
      rw [← toBuffer_requestOnce] at hreq
      refine ⟨{ hreq with }, ?_⟩
      intro idx
      dsimp only
      rw [requestOnce_cache]
      exact h.parallel idx
  · exact ⟨{ h.requests with }, h.parallel⟩

theorem Inv.transferAData (h : hb.Inv C addr) : hb.transferAData.Inv C addr := by
  refine ⟨{ h.requests with queued := ?_ }, h.parallel⟩
  intro d hd
  apply h.requests.queued
  obtain ⟨item, hitem, rfl⟩ := List.mem_map.mp hd
  exact List.mem_map_of_mem (List.mem_of_mem_tail hitem)

/-- A reply leaves the lists of LRU parallel. -/
theorem installLine_parallel (h : ∀ idx, (hb.cache.lists idx).Parallel) (junk : HybridJunk)
    (d : RowItem) : ∀ idx, ((hb.installLine C junk d).lists idx).Parallel := by
  rw [installLine]
  split
  · change ∀ idx, ((hb.cache.installScan C.lru _ _ _).lists idx).Parallel
    have hreplace := Lru.replace_parallel junk.victim (h (Cache.setIdx C.lru d.toERData))
    unfold Cache.installScan
    split
    · exact update_parallel h _ (Lru.access_parallel _ _ (h _))
    · dsimp only
      split
      · exact update_parallel h _ (Lru.access_parallel _ _ hreplace)
      · exact update_parallel h _ hreplace
  · rw [installVictim]
    split
    · exact h
    · split
      · exact h
      · exact h

/-- The set of an item has ways. -/
theorem Inv.tags_ne_nil (h : hb.Inv C addr) (idx : Nat) : hb.cache.tags idx ≠ [] := by
  intro hnil
  have hlen := h.requests.tags.length idx
  change (hb.cache.tags idx).length = C.wayN at hlen
  rw [hnil] at hlen
  exact C.wayN_pos.ne hlen

theorem Inv.reply (h : hb.Inv C addr) (junk : HybridJunk) (address : Nat) :
    (hb.reply C junk address).Inv C addr := by
  rw [HybridBuffer.reply]
  split
  · rename_i hmem
    refine ⟨?_, installLine_parallel h.parallel junk _⟩
    apply h.requests.install hmem
    rcases installLine_cases junk (hb.wMap address) (h.tags_ne_nil _) with
      ⟨⟨way, -, hwrite⟩, -⟩ | ⟨hsame, -⟩
    · exact .inr ⟨way, hwrite⟩
    · exact .inl hsame
  · exact h

variable (addr) in
/-- The items that arrive have the address of their line. -/
def Call.Addressed : Call → Prop
  | .receiveItem d => d.toERData.Addressed addr
  | _ => True

theorem Inv.call (h : hb.Inv C addr) {c : Call} (hc : c.Addressed addr) :
    (hb.call C c).Inv C addr := by
  cases c with
  | receiveItem d => exact h.receiveItem hc
  | canTransfer => exact h.checkTransfer
  | transferAData => exact h.transferAData
  | reply address junk => exact h.reply junk address

/-- The last entries of the lists of LRU are its victim. -/
theorem lruVictim_eq {d : RowItem} {t : Tag} (junk : HybridJunk)
    (hcol : (hb.lruList C d).data.getLast? = some t.col)
    (hfold : (hb.lruList C d).weightBlkIdx.getLast? = some t.fold) :
    hb.lruVictim C junk d = t := by
  rw [lruVictim, Lru.replace]
  dsimp only
  rw [List.getLastD_eq_getLast?, List.getLastD_eq_getLast?, hcol, hfold]
  rfl

/-- Parallel lists that are not empty have a last line. -/
theorem exists_lruVictim (h : hb.Inv C addr) {d : RowItem} (junk : HybridJunk)
    (hne : (hb.lruList C d).data ≠ []) :
    (hb.lruList C d).data.getLast? = some (hb.lruVictim C junk d).col ∧
      (hb.lruList C d).weightBlkIdx.getLast? = some (hb.lruVictim C junk d).fold := by
  have hne' : (hb.lruList C d).weightBlkIdx ≠ [] := by
    intro hnil
    have hpar : (hb.lruList C d).data.length = (hb.lruList C d).weightBlkIdx.length :=
      h.parallel _
    rw [hnil] at hpar
    exact hne (List.length_eq_zero_iff.mp hpar)
  have hcol := List.getLast?_eq_some_getLast hne
  have hfold := List.getLast?_eq_some_getLast hne'
  have heq := lruVictim_eq (t := ⟨_, _⟩) junk hcol hfold
  rw [heq]
  exact ⟨hcol, hfold⟩

/-- A line that was not in its set is in one way after it was written. -/
theorem count_set_of_not_mem {tags : List Tag} {t : Tag} (hmiss : t ∉ tags) {way : Nat}
    (hway : way < tags.length) : (tags.set way t).count t = 1 := by
  have hold : tags[way] ≠ t := fun heq => hmiss (heq ▸ List.getElem_mem hway)
  rw [List.count_set hway, List.count_eq_zero.mpr hmiss]
  simp [hold]

/-- A reply does what it should exactly if LRU is not asked in vain. -/
theorem Inv.installsFetched_iff (h : hb.Inv C addr) (c : Call) :
    hb.InstallsFetched C c ↔ hb.VictimResident C c := by
  cases c with
  | receiveItem d => exact Iff.rfl
  | canTransfer => exact Iff.rfl
  | transferAData => exact Iff.rfl
  | reply address junk =>
    apply imp_congr_right
    intro hmem
    obtain ⟨-, -, hmiss⟩ := h.requests.mapped address (h.requests.marked hmem)
    have hcache : (hb.call C (.reply address junk)).cache =
        hb.installLine C junk (hb.wMap address) := by
      rw [HybridBuffer.call, HybridBuffer.reply, if_pos hmem]
      rfl
    change (hb.wMap address).tag ∉
      hb.cache.tags (Cache.setIdx C.lru (hb.wMap address).toERData) at hmiss
    rw [hcache]
    generalize hb.wMap address = d at hmiss ⊢
    rcases installLine_cases junk d (h.tags_ne_nil _) with
      ⟨⟨way, hway, hwrite⟩, hvictim⟩ | ⟨hsame, hfold, hfull, hvictim⟩
    · rw [hwrite]
      constructor
      · rintro ⟨-, -, hnonempty⟩ hfold hfull
        have hne : (hb.lruList C d).data ≠ [] := fun hnil => hnonempty ⟨hfold, hfull, hnil⟩
        obtain ⟨hcol, hlast⟩ := exists_lruVictim h junk hne
        exact ⟨_, hvictim hfold hfull, hcol, hlast⟩
      · intro hresident
        refine ⟨?_, ⟨way, _, List.getElem?_eq_getElem hway, ?_, rfl⟩, ?_⟩
        · rw [Function.update_self]
          exact count_set_of_not_mem hmiss hway
        · intro heq
          exact hmiss (heq ▸ List.getElem_mem hway)
        · rintro ⟨hfold, hfull, hnil⟩
          obtain ⟨t, -, hcol, -⟩ := hresident hfold hfull
          rw [hnil] at hcol
          cases hcol
    · -- The line is dropped: no way changes.
      rw [hsame]
      constructor
      · rintro ⟨hcount, -, -⟩
        rw [List.count_eq_zero.mpr hmiss] at hcount
        cases hcount
      · intro hresident
        obtain ⟨t, ht, hcol, hlast⟩ := hresident hfold hfull
        rw [lruVictim_eq junk hcol hlast] at hvictim
        exact (hvictim ht).elim

/-- In every run, with any mix of folds: all replies are written as they should be exactly
if every reply of fold 0 to a full set finds the last line in the books of LRU in the set. -/
theorem replies_install_iff (C : HybridConfig) (addr : Nat → Int → Nat) (cs : List Call)
    (hcs : ∀ c ∈ cs, c.Addressed addr) :
    Transition.Guarded (call C) (InstallsFetched C) (init C) cs ↔
      Transition.Guarded (call C) (VictimResident C) (init C) cs :=
  Transition.guarded_congr (P := Call.Addressed addr) (I := Inv C addr)
    (fun _ _ hc h => h.call hc) (fun _ c h => h.installsFetched_iff c) init_inv hcs

instance (C : HybridConfig) (hb : HybridBuffer) : (c : Call) → Decidable (hb.VictimResident C c)
  | .receiveItem _ | .canTransfer | .transferAData => isTrue trivial
  | .reply address _ => inferInstanceAs (Decidable (address ∈ hb.outstanding →
      (hb.wMap address).preWFold = 0 →
      (∀ t ∈ hb.cache.tags (Cache.setIdx C.lru (hb.wMap address).toERData), t.isEmpty = false) →
      ∃ t ∈ hb.cache.tags (Cache.setIdx C.lru (hb.wMap address).toERData),
        (hb.lruList C (hb.wMap address)).data.getLast? = some t.col ∧
        (hb.lruList C (hb.wMap address)).weightBlkIdx.getLast? = some t.fold))

/-- One set and one filter over eight vertices. -/
def smallConfig (algo : HybridAlgo) (wayN : Nat) (hways : 0 < wayN) : HybridConfig where
  algo := algo
  setN := 1
  wayN := wayN
  aH := 8
  bloomFilterNum := 1
  bfLen := 8
  bfOverlap := 0
  movMedBlockNum := 1
  setN_pos := Nat.one_pos
  wayN_pos := hways
  bloomFilterNum_pos := Nat.one_pos
  bfLen_pos := Nat.succ_pos 7
  movMedBlockNum_pos := Nat.one_pos

/-- The address of a line with two folds and lines of 64 bytes. -/
def twoFoldAddress (col : Nat) (fold : Int) : Nat := (col * 2 + fold.toNat) * 64

/-- The item of row 0 arrives, and its line is delivered. -/
def fetchCalls (col : Nat) (fold : Int) : List Call :=
  [.receiveItem ⟨⟨col, twoFoldAddress col fold, fold⟩, 0, 0, 0, false⟩,
    .reply (twoFoldAddress col fold) ⟨⟨(0, 0), false⟩, 0, false⟩]

/-- The lines of fold 0 come before those of fold 1. -/
def foldAfterFold : List Call :=
  fetchCalls 1 0 ++ fetchCalls 2 0 ++ fetchCalls 3 0 ++ fetchCalls 1 1 ++ fetchCalls 2 1

/-- The two folds of a column follow each other, as the basis edge reader hands them out. -/
def foldByFold : List Call := fetchCalls 1 0 ++ fetchCalls 1 1 ++ fetchCalls 2 0

theorem fetchCalls_addressed (col : Nat) (fold : Int) (hcol : col < 2147483648)
    (hle : 0 ≤ fold) (hlt : fold < 2147483648) :
    ∀ c ∈ fetchCalls col fold, c.Addressed twoFoldAddress := by
  rw [fetchCalls, List.forall_mem_cons, List.forall_mem_singleton]
  exact ⟨⟨hcol, le_trans (by decide) hle, hlt, rfl⟩, trivial⟩

/-- Two ways: the third line of fold 0 evicts the first one, and the lines of fold 1 are
written over lines of the set. -/
theorem replies_install_foldAfterFold :
    let bf := smallConfig .bf 2 Nat.two_pos
    let mvm := smallConfig .movingMed 2 Nat.two_pos
    Transition.Guarded (call bf) (InstallsFetched bf) (init bf) foldAfterFold ∧
      Transition.Guarded (call mvm) (InstallsFetched mvm) (init mvm) foldAfterFold ∧
      (calls bf foldAfterFold).cache.tags 0 = [⟨2, 1⟩, ⟨2, 0⟩] ∧
      (calls mvm foldAfterFold).cache.tags 0 = [⟨1, 1⟩, ⟨2, 1⟩] := by
  intro bf mvm
  have hcs : ∀ c ∈ foldAfterFold, c.Addressed twoFoldAddress := by
    simp only [foldAfterFold, List.forall_mem_append]
    refine ⟨⟨⟨⟨?_, ?_⟩, ?_⟩, ?_⟩, ?_⟩ <;>
      exact fetchCalls_addressed _ _ (by decide) (by decide) (by decide)
  refine ⟨?_, ?_, by decide +kernel, by decide +kernel⟩
  · rw [replies_install_iff bf twoFoldAddress _ hcs]
    decide +kernel
  · rw [replies_install_iff mvm twoFoldAddress _ hcs]
    decide +kernel

/-- One way: fold 1 of the first column takes the way of fold 0, which LRU still lists. The
line of fold 0 of the second column is dropped, with both policies. -/
theorem foldByFold_line_dropped :
    let bf := smallConfig .bf 1 Nat.one_pos
    let mvm := smallConfig .movingMed 1 Nat.one_pos
    ¬ Transition.Guarded (call bf) (InstallsFetched bf) (init bf) foldByFold ∧
      ¬ Transition.Guarded (call mvm) (InstallsFetched mvm) (init mvm) foldByFold := by
  intro bf mvm
  constructor
  · rintro ⟨-, -, -, -, -, hreply, -⟩
    exact absurd (hreply (by decide +kernel)).1 (by decide +kernel)
  · rintro ⟨-, -, -, -, -, hreply, -⟩
    exact absurd (hreply (by decide +kernel)).1 (by decide +kernel)

end HybridBuffer

end GcnSim
