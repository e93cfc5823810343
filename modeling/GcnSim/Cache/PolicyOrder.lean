import GcnSim.Cache.Tags
import GcnSim.Lib.Masks
import GcnSim.Lib.Recency

/-!
# FIFO and LRU order of the lines

The books of FIFO and LRU, a pair of parallel lists for each set, list the lines of
the set: FIFO in the order of their installation, LRU in the reverse order of their
last use. The search for the victim in the tag arrays therefore always succeeds, and
the line that is evicted is the oldest one of the reference policy.
-/

namespace GcnSim

namespace PolicyList

/-- The two lists have entries for the same lines. -/
def Parallel (l : PolicyList) : Prop := l.data.length = l.weightBlkIdx.length

/-- The lines of the two lists. -/
def tags (l : PolicyList) : List Tag := List.zipWith Tag.mk l.data l.weightBlkIdx

end PolicyList

/-- What a pair of lists must offer as the books of a policy, with the lines from the oldest
one in `order`. -/
structure ListPolicy (order : PolicyList → List Tag)
    (access : Int → Int → PolicyList → PolicyList)
    (replace : PolicyList → (Int × Int) × PolicyList) : Prop where
  access_new : ∀ (l : PolicyList) (t : Tag), l.Parallel → (order l).Nodup → t ∉ order l →
    (access t.col t.fold l).Parallel ∧ order (access t.col t.fold l) = order l ++ [t]
  replace_first : ∀ (l : PolicyList) (t : Tag) (rest : List Tag), l.Parallel →
    order l = t :: rest → (replace l).1 = (t.col, t.fold) ∧ (replace l).2.Parallel ∧
      order (replace l).2 = rest

namespace Fifo

/-- FIFO lists the oldest line first. -/
theorem listPolicy (junk : Int × Int) :
    ListPolicy PolicyList.tags access (replace junk) where
  access_new l t hpar _ _ := by
    refine ⟨?_, ?_⟩
    · simp only [PolicyList.Parallel, access, List.length_append, List.length_singleton] at hpar ⊢
      rw [hpar]
    · rw [PolicyList.tags, PolicyList.tags, access, List.zipWith_append hpar]
      rfl
  replace_first l t rest hpar horder := by
    obtain ⟨data, blkIdx⟩ := l
    cases data with
    | nil => simp [PolicyList.tags] at horder
    | cons x data =>
      cases blkIdx with
      | nil => simp [PolicyList.tags] at horder
      | cons y blkIdx =>
        simp only [PolicyList.tags, List.zipWith_cons_cons, List.cons.injEq] at horder
        obtain ⟨rfl, rfl⟩ := horder
        exact ⟨rfl, Nat.succ.inj hpar, rfl⟩

end Fifo

namespace Lru

theorem scan_cons_of_ne {t : Tag} {x y : Int} (h : ¬ (x = t.col ∧ y = t.fold))
    (xs ys : List Int) : scan t.col t.fold (x :: xs) (y :: ys) =
      (x :: (scan t.col t.fold xs ys).1, y :: (scan t.col t.fold xs ys).2) := by
  cases xs <;> cases ys <;> simp [scan, h]

/-- The positions that the loop of `LRU::access` does not erase. -/
def kept (data weightBlkIdx : Int) : List Int → List Int → List Bool
  | x :: xs, y :: ys =>
    if x = data ∧ y = weightBlkIdx then
      match xs, ys with
      | _ :: xs, _ :: ys => false :: true :: kept data weightBlkIdx xs ys
      | _, _ => [false]
    else true :: kept data weightBlkIdx xs ys
  | _, _ => []

/-- The loop erases the same positions of both lists. -/
theorem scan_eq_pick (data weightBlkIdx : Int) (xs ys : List Int) :
    scan data weightBlkIdx xs ys = (Masks.pick (kept data weightBlkIdx xs ys) xs,
      Masks.pick (kept data weightBlkIdx xs ys) ys) := by
  induction xs, ys using scan.induct data weightBlkIdx with
  | case1 x y heq x' xs y' ys ih => simp [scan, kept, Masks.pick, heq, ih]
  | case2 x y heq xs ys hshort =>
    cases xs with
    | nil => simp [scan, kept, Masks.pick, heq]
    | cons x' xs =>
      cases ys with
      | nil => simp [scan, kept, Masks.pick, heq]
      | cons y' ys => exact (hshort x' xs y' ys rfl rfl).elim
  | case3 x xs y ys hne ih =>
    have hkept : kept data weightBlkIdx (x :: xs) (y :: ys) =
        true :: kept data weightBlkIdx xs ys := by
      cases xs <;> cases ys <;> simp [kept, hne]
    rw [scan_cons_of_ne (t := ⟨data, weightBlkIdx⟩) hne, hkept, ih]
    rfl
  | case4 xs ys hshort =>
    cases xs with
    | nil => simp [scan, kept, Masks.pick]
    | cons x xs =>
      cases ys with
      | nil => simp [scan, kept, Masks.pick]
      | cons y ys => exact (hshort x xs y ys rfl rfl).elim

/-- The scan leaves lists without the line as they are. -/
theorem scan_of_not_mem (t : Tag) (xs ys : List Int) (h : t ∉ List.zipWith Tag.mk xs ys) :
    scan t.col t.fold xs ys = (xs, ys) := by
  induction xs generalizing ys with
  | nil => simp [scan]
  | cons x xs ih =>
    cases ys with
    | nil => simp [scan]
    | cons y ys =>
      rw [List.zipWith_cons_cons, List.mem_cons, not_or] at h
      have hne : ¬ (x = t.col ∧ y = t.fold) := by
        rintro ⟨rfl, rfl⟩
        exact h.1 rfl
      rw [scan_cons_of_ne hne, ih ys h.2]

/-- The scan erases the line, if no line is listed twice: the entry it does not look at is
another line. -/
theorem scan_tags (t : Tag) (xs ys : List Int) (hlen : xs.length = ys.length)
    (h : (List.zipWith Tag.mk xs ys).Nodup) :
    (scan t.col t.fold xs ys).1.length = (scan t.col t.fold xs ys).2.length ∧
      List.zipWith Tag.mk (scan t.col t.fold xs ys).1 (scan t.col t.fold xs ys).2 =
        (List.zipWith Tag.mk xs ys).erase t := by
  induction xs generalizing ys with
  | nil =>
    obtain rfl := List.length_eq_zero_iff.mp hlen.symm
    exact ⟨rfl, rfl⟩
  | cons x xs ih =>
    cases ys with
    | nil => cases hlen
    | cons y ys =>
      rw [List.zipWith_cons_cons, List.nodup_cons] at h
      have hlen' : xs.length = ys.length := Nat.succ.inj hlen
      by_cases heq : x = t.col ∧ y = t.fold
      · obtain ⟨rfl, rfl⟩ := heq
        have hscan : scan t.col t.fold (t.col :: xs) (t.fold :: ys) = (xs, ys) := by
          cases xs with
          | nil => simp [scan]
          | cons x' xs =>
            cases ys with
            | nil => cases hlen'
            | cons y' ys =>
              have hnot : t ∉ List.zipWith Tag.mk xs ys := fun hmem =>
                h.1 (List.mem_cons_of_mem _ hmem)
              simp [scan, scan_of_not_mem t xs ys hnot]
        rw [hscan, List.zipWith_cons_cons, List.erase_cons_head]
        exact ⟨hlen', rfl⟩
      · have hne : ¬ (Tag.mk x y == t) = true := by
          rw [beq_iff_eq]
          rintro rfl
          exact heq ⟨rfl, rfl⟩
        obtain ⟨hscanLen, hscan⟩ := ih ys hlen' h.2
        rw [scan_cons_of_ne heq, List.zipWith_cons_cons, List.zipWith_cons_cons,
          List.erase_cons_tail hne, hscan]
        exact ⟨congrArg Nat.succ hscanLen, rfl⟩

/-- The lines from the one that was not used for the longest time. -/
def order (l : PolicyList) : List Tag := l.tags.reverse

/-- A line that is used becomes the last one. -/
theorem access_order (l : PolicyList) (t : Tag) (hpar : l.Parallel) (hnodup : (order l).Nodup) :
    (access t.col t.fold l).Parallel ∧
      order (access t.col t.fold l) = (order l).erase t ++ [t] := by
  have hnodup' : l.tags.Nodup := List.nodup_reverse.mp hnodup
  obtain ⟨hlen, htags⟩ := scan_tags t l.data l.weightBlkIdx hpar hnodup'
  refine ⟨congrArg Nat.succ hlen, ?_⟩
  have haccess : (access t.col t.fold l).tags = t :: l.tags.erase t := by
    simp only [access, PolicyList.tags, List.zipWith_cons_cons, htags]
  rw [hnodup.erase_eq_filter, order, haccess, List.reverse_cons, hnodup'.erase_eq_filter, order,
    List.filter_reverse]

/-- LRU lists the oldest line last. -/
theorem listPolicy (junk : Int × Int) : ListPolicy order access (replace junk) where
  access_new l t hpar hnodup hnew := by
    obtain ⟨haccess, horder⟩ := access_order l t hpar hnodup
    rw [List.erase_of_not_mem hnew] at horder
    exact ⟨haccess, horder⟩
  replace_first l t rest hpar horder := by
    obtain ⟨data, blkIdx⟩ := l
    rw [order, PolicyList.tags, List.reverse_zipWith hpar] at horder
    cases hdata : data.reverse with
    | nil => simp [hdata] at horder
    | cons x data' =>
      cases hblkIdx : blkIdx.reverse with
      | nil => simp [hblkIdx] at horder
      | cons y blkIdx' =>
        rw [hdata, hblkIdx, List.zipWith_cons_cons, List.cons.injEq] at horder
        rw [List.reverse_eq_cons_iff] at hdata hblkIdx
        subst hdata hblkIdx
        obtain ⟨rfl, rfl⟩ := horder
        have hlen : data'.reverse.length = blkIdx'.reverse.length := by
          simpa [PolicyList.Parallel] using hpar
        refine ⟨by simp [replace], by simpa [PolicyList.Parallel, replace] using hlen, ?_⟩
        rw [order, PolicyList.tags, replace, List.dropLast_concat, List.dropLast_concat,
          List.reverse_zipWith hlen, List.reverse_reverse, List.reverse_reverse]

end Lru

namespace LineEvent

/-- The line of an event. -/
def tag : LineEvent → Tag
  | install t => t
  | hit t => t

/-- The line of an installation. -/
def installed? : LineEvent → Option Tag
  | install t => some t
  | hit _ => none

end LineEvent

/-- The lines of a set in the order in which the reference policy evicts them: LRU by the last
use, FIFO by the installation. -/
def history : ReplAlgo → List LineEvent → List Tag
  | .lru, events => (events.map LineEvent.tag).dedup
  | _, events => events.filterMap LineEvent.installed?

/-- The lines the reference policy keeps in a set, the oldest one first. -/
def GbConfig.kept (C : GbConfig) (events : List LineEvent) : List Tag :=
  (history C.algo events).rtake C.wayN

/-- A hit is no installation. -/
theorem history_fifo_hit (events : List LineEvent) (t : Tag) :
    history .fifo (events ++ [.hit t]) = history .fifo events := by
  simp only [history, List.filterMap_append]
  exact List.append_nil _

/-- A use makes the line the last one. -/
theorem history_lru_concat (events : List LineEvent) (e : LineEvent) :
    history .lru (events ++ [e]) = (history .lru events).erase e.tag ++ [e.tag] := by
  simp only [history, List.map_append, List.map_singleton]
  exact Recency.dedup_concat _ e.tag

/-- A new line is the last one of the history. -/
theorem history_install (algo : ReplAlgo) (events : List LineEvent) {t : Tag} {n : Nat}
    (hnew : t ∉ (history algo events).rtake n) :
    ∃ older, history algo (events ++ [.install t]) = older ++ [t] ∧
      older.rtake n = (history algo events).rtake n := by
  cases algo with
  | lru => exact ⟨_, history_lru_concat events (.install t), Recency.rtake_erase_of_not_mem hnew⟩
  | fifo => exact ⟨_, List.filterMap_append, rfl⟩
  | rrip => exact ⟨_, List.filterMap_append, rfl⟩
  | ship => exact ⟨_, List.filterMap_append, rfl⟩

namespace GbConfig

variable {C : GbConfig} {events : List LineEvent} {t : Tag}

/-- The reference policy fills a set. -/
theorem kept_install_of_lt (hnew : t ∉ C.kept events) (hlt : (C.kept events).length < C.wayN) :
    C.kept (events ++ [.install t]) = C.kept events ++ [t] := by
  obtain ⟨older, hhistory, holder⟩ := history_install C.algo events hnew
  rw [kept, ← holder] at hlt
  rw [kept, kept, hhistory, ← holder, Recency.rtake_concat_of_lt hlt]

/-- The reference policy evicts the first line of a full set. -/
theorem kept_install_of_eq (hnew : t ∉ C.kept events) (hlen : (C.kept events).length = C.wayN) :
    C.kept (events ++ [.install t]) = (C.kept events).tail ++ [t] := by
  obtain ⟨older, hhistory, holder⟩ := history_install C.algo events hnew
  rw [kept, ← holder] at hlen
  rw [kept, kept, hhistory, ← holder, Recency.rtake_concat_of_eq C.wayN_pos hlen]

end GbConfig

namespace Cache

variable (C : GbConfig)

/-- The lines of a set by the books of the policy, the oldest one first. -/
def order (c : Cache) (idx : Nat) : List Tag :=
  match C.algo with
  | .lru => Lru.order (c.lists idx)
  | _ => (c.lists idx).tags

/-- The books of a set list the lines of the set in the order of the reference policy. -/
structure OrderOk (c : Cache) (idx : Nat) : Prop where
  parallel : (c.lists idx).Parallel
  enumerates : Slots.Enumerates Tag.isEmpty (c.tags idx) (c.order C idx)
  kept : c.order C idx = C.kept (c.events idx)

/-- The line of an item is written to one way of its set, which is unused or, if no way is,
holds the oldest line of the reference policy. -/
def WritesOldest (d : ERData) (c c' : Cache) : Prop :=
  ∃ way old, (c.tags (setIdx C d))[way]? = some old ∧
    c'.tags = Function.update c.tags (setIdx C d) ((c.tags (setIdx C d)).set way d.tag) ∧
    (old.isEmpty = true ∨ (∀ t ∈ c.tags (setIdx C d), t.isEmpty = false) ∧
      (C.kept (c.events (setIdx C d))).head? = some old)

variable {C} {addr : Nat → Int → Nat}

theorem OrderOk.congr {c c' : Cache} {idx : Nat} (h : c.OrderOk C idx)
    (htags : c'.tags idx = c.tags idx) (hlists : c'.lists idx = c.lists idx)
    (hevents : c'.events idx = c.events idx) : c'.OrderOk C idx := by
  have horder : c'.order C idx = c.order C idx := by rw [order, order, hlists]
  refine ⟨?_, ?_, ?_⟩
  · rw [hlists]
    exact h.parallel
  · rw [htags, horder]
    exact h.enumerates
  · rw [horder, hevents]
    exact h.kept

theorem init_orderOk (idx : Nat) : (init C).OrderOk C idx := by
  have horder : (init C).order C idx = [] := by
    unfold order
    cases C.algo <;> rfl
  refine ⟨rfl, ?_, ?_⟩
  · rw [horder]
    exact Slots.Enumerates.replicate C.wayN rfl
  · have hhistory : history C.algo ((init C).events idx) = [] := by cases C.algo <;> rfl
    rw [horder, GbConfig.kept, hhistory, List.rtake_nil]

/-- The scan for a way writes the line to a blank way or over the first line of the order. -/
theorem installScan_spec {order : PolicyList → List Tag}
    {access : Int → Int → PolicyList → PolicyList}
    {replace : PolicyList → (Int × Int) × PolicyList} (hp : ListPolicy order access replace)
    {c : Cache} {d : ERData} (hpar : (c.lists (setIdx C d)).Parallel)
    (henum : Slots.Enumerates Tag.isEmpty (c.tags (setIdx C d)) (order (c.lists (setIdx C d))))
    (hdist : Slots.Distinct Tag.isEmpty (c.tags (setIdx C d)))
    (hpos : 0 < (c.tags (setIdx C d)).length) (hnew : d.tag ∉ c.tags (setIdx C d)) :
    ∃ way old list, (c.tags (setIdx C d))[way]? = some old ∧ list.Parallel ∧
      c.installScan C access replace d =
        { c.install C d way with lists := Function.update c.lists (setIdx C d) list } ∧
      (old.isEmpty = true ∧ order list = order (c.lists (setIdx C d)) ++ [d.tag] ∨
        (∀ t ∈ c.tags (setIdx C d), t.isEmpty = false) ∧ ∃ rest,
          order (c.lists (setIdx C d)) = old :: rest ∧ order list = rest ++ [d.tag]) := by
  have hfresh {l : List Tag} (hl : l ⊆ order (c.lists (setIdx C d))) : d.tag ∉ l := fun hmem =>
    hnew ((henum.mem_iff _).mp (hl hmem)).1
  unfold installScan
  cases hway : (c.tags (setIdx C d)).findIdx? Tag.isEmpty with
  | some way =>
    obtain ⟨hlt, hold, -⟩ := List.findIdx?_eq_some_iff_getElem.mp hway
    obtain ⟨hpar', horder⟩ := hp.access_new _ d.tag hpar henum.nodup (hfresh (List.Subset.refl _))
    exact ⟨way, _, _, List.getElem?_eq_getElem hlt, hpar', rfl, Or.inl ⟨hold, horder⟩⟩
  | none =>
    have hfull : ∀ t ∈ c.tags (setIdx C d), t.isEmpty = false := List.findIdx?_eq_none_iff.mp hway
    cases horder : order (c.lists (setIdx C d)) with
    | nil =>
      have hlen := henum.length_eq hdist hfull
      rw [horder, List.length_nil] at hlen
      exact absurd hlen (Nat.ne_of_lt hpos)
    | cons old rest =>
      obtain ⟨hvictim, hpar', hrest⟩ := hp.replace_first _ old rest hpar horder
      have hreplace : replace (c.lists (setIdx C d)) =
          ((old.col, old.fold), (replace (c.lists (setIdx C d))).2) := Prod.ext hvictim rfl
      have hmem : old ∈ c.tags (setIdx C d) := by
        have hold : old ∈ order (c.lists (setIdx C d)) := horder ▸ List.mem_cons_self
        exact ((henum.mem_iff old).mp hold).1
      have hnotRest : d.tag ∉ rest := hfresh (horder ▸ List.subset_cons_self old rest)
      have hnodupRest : rest.Nodup := (horder ▸ henum.nodup : (old :: rest).Nodup).of_cons
      rw [← hrest] at hnotRest hnodupRest
      obtain ⟨hparNew, horderNew⟩ := hp.access_new _ d.tag hpar' hnodupRest hnotRest
      cases hfind : (c.tags (setIdx C d)).findIdx? (· = ⟨old.col, old.fold⟩) with
      | none =>
        have hnone := List.findIdx?_eq_none_iff.mp hfind old hmem
        exact absurd rfl (of_decide_eq_false hnone)
      | some way =>
        obtain ⟨hlt, hold, -⟩ := List.findIdx?_eq_some_iff_getElem.mp hfind
        rw [hreplace]
        simp only [hfind]
        refine ⟨way, old, _, ?_, hparNew, rfl, Or.inr ⟨hfull, rest, rfl, ?_⟩⟩
        · rw [List.getElem?_eq_getElem hlt, of_decide_eq_true hold]
        · rw [horderNew, hrest]

/-- A line is written over a blank way or over the first line of the order. -/
theorem OrderOk.install {c c' : Cache} {idx way : Nat} {t old : Tag} (h : c.OrderOk C idx)
    (htagsOk : c.TagsOk C addr) (hway : (c.tags idx)[way]? = some old) (hnew : t ∉ c.tags idx)
    (huse : t.isEmpty = false) (hpar : (c'.lists idx).Parallel)
    (htags : c'.tags idx = (c.tags idx).set way t)
    (hevents : c'.events idx = c.events idx ++ [.install t])
    (hcases : old.isEmpty = true ∧ c'.order C idx = c.order C idx ++ [t] ∨
      (∀ t ∈ c.tags idx, t.isEmpty = false) ∧ ∃ rest,
        c.order C idx = old :: rest ∧ c'.order C idx = rest ++ [t]) :
    c'.OrderOk C idx := by
  have hdist := htagsOk.distinct idx
  have hlength := htagsOk.length idx
  have henum := h.enumerates
  have hnotKept : t ∉ C.kept (c.events idx) := by
    rw [← h.kept, henum.mem_iff]
    exact fun hmem => hnew hmem.1
  refine ⟨hpar, ?_, ?_⟩
  · rw [htags]
    obtain ⟨hold, horder⟩ | ⟨-, rest, hfirst, horder⟩ := hcases
    · rw [horder]
      exact henum.fill hdist hway hold hnew huse
    · rw [hfirst] at henum
      rw [horder]
      exact henum.replace hdist hway hnew huse
  · rw [hevents]
    obtain ⟨hold, horder⟩ | ⟨hfull, rest, hfirst, horder⟩ := hcases
    · have hlt := henum.length_lt (List.mem_of_getElem? hway) hold
      rw [hlength, h.kept] at hlt
      rw [horder, h.kept, GbConfig.kept_install_of_lt hnotKept hlt]
    · have hlen := henum.length_eq hdist hfull
      rw [hlength, h.kept] at hlen
      rw [horder, GbConfig.kept_install_of_eq hnotKept hlen, ← h.kept, hfirst, List.tail_cons]

/-- Where the scan writes a line the books stay in order. -/
theorem installScan_orderOk {order : PolicyList → List Tag}
    {access : Int → Int → PolicyList → PolicyList}
    {replace : PolicyList → (Int × Int) × PolicyList} (hp : ListPolicy order access replace)
    (hC : ∀ (c : Cache) (idx : Nat), c.order C idx = order (c.lists idx)) {c : Cache}
    (htags : c.TagsOk C addr) (hok : ∀ idx, c.OrderOk C idx) {d : ERData} (hd : d.Addressed addr)
    (hnew : d.tag ∉ c.tags (setIdx C d)) :
    WritesOldest C d c (c.installScan C access replace d) ∧
      ∀ idx, (c.installScan C access replace d).OrderOk C idx := by
  have hset := hok (setIdx C d)
  have hpos : 0 < (c.tags (setIdx C d)).length := htags.length (setIdx C d) ▸ C.wayN_pos
  obtain ⟨way, old, list, hway, hpar, heq, hcases⟩ := installScan_spec hp hset.parallel
    (hC c _ ▸ hset.enumerates) (htags.distinct _) hpos hnew
  have hlist : (c.installScan C access replace d).lists (setIdx C d) = list := by
    rw [heq]
    exact Function.update_self ..
  refine ⟨⟨way, old, hway, by rw [heq]; rfl, ?_⟩, fun idx => ?_⟩
  · obtain ⟨hold, -⟩ | ⟨hfull, rest, hfirst, -⟩ := hcases
    · exact Or.inl hold
    · rw [← hset.kept, hC, hfirst]
      exact Or.inr ⟨hfull, rfl⟩
  · by_cases hidx : idx = setIdx C d
    · subst hidx
      rw [← hlist, ← hC, ← hC] at hcases
      rw [← hlist] at hpar
      refine hset.install htags hway hnew hd.tag_isEmpty hpar ?_ ?_ hcases
      · rw [heq]
        exact Function.update_self ..
      · rw [heq]
        exact Function.update_self ..
    · rw [heq]
      exact (hok idx).congr (Function.update_of_ne hidx ..) (Function.update_of_ne hidx ..)
        (Function.update_of_ne hidx ..)

/-- A reply writes its line to one way, the oldest one if no way is unused. -/
theorem installLine_orderOk (hpolicy : C.algo = .fifo ∨ C.algo = .lru) {c : Cache}
    (htags : c.TagsOk C addr) (hok : ∀ idx, c.OrderOk C idx) {d : ERData} (hd : d.Addressed addr)
    (hnew : d.tag ∉ c.tags (setIdx C d)) (junk : Int × Int) (address : Nat) :
    WritesOldest C d c (c.installLine C junk address d) ∧
      ∀ idx, (c.installLine C junk address d).OrderOk C idx := by
  unfold installLine
  obtain halgo | halgo := hpolicy
  · rw [halgo]
    refine installScan_orderOk (Fifo.listPolicy junk) (fun c idx => ?_) htags hok hd hnew
    rw [order, halgo]
  · rw [halgo]
    refine installScan_orderOk (Lru.listPolicy junk) (fun c idx => ?_) htags hok hd hnew
    rw [order, halgo]

theorem hit_lists_of_ne {d : ERData} {idx : Nat} (hidx : idx ≠ setIdx C d) (way : Nat)
    (c : Cache) : (c.hit C d way).lists idx = c.lists idx := by
  unfold hit
  cases C.algo with
  | lru => exact Function.update_of_ne hidx ..
  | fifo => rfl
  | rrip => rfl
  | ship => rfl

/-- A hit of FIFO leaves the order as it is. -/
theorem hit_orderOk_of_fifo (halgo : C.algo = .fifo) {c : Cache} {d : ERData}
    (hok : c.OrderOk C (setIdx C d)) (way : Nat) : (c.hit C d way).OrderOk C (setIdx C d) := by
  have hlists : (c.hit C d way).lists = c.lists := by
    unfold hit
    rw [halgo]
  have horder : (c.hit C d way).order C (setIdx C d) = c.order C (setIdx C d) := by
    rw [order, order, hlists]
  refine ⟨hlists ▸ hok.parallel, ?_, ?_⟩
  · rw [hit_tags, horder]
    exact hok.enumerates
  · rw [horder, hit_events, Function.update_self, hok.kept, GbConfig.kept, GbConfig.kept, halgo,
      history_fifo_hit]

/-- A hit of LRU moves the line to the end of the order. -/
theorem hit_orderOk_of_lru (halgo : C.algo = .lru) {c : Cache} {d : ERData}
    (hd : d.Addressed addr) (hok : c.OrderOk C (setIdx C d))
    (hmem : d.tag ∈ c.tags (setIdx C d)) (way : Nat) :
    (c.hit C d way).OrderOk C (setIdx C d) := by
  have hlists : (c.hit C d way).lists (setIdx C d) =
      Lru.access d.tag.col d.tag.fold (c.lists (setIdx C d)) := by
    unfold hit
    rw [halgo]
    exact Function.update_self ..
  have hlru : c.order C (setIdx C d) = Lru.order (c.lists (setIdx C d)) := by rw [order, halgo]
  have hlast : d.tag ∈ c.order C (setIdx C d) :=
    (hok.enumerates.mem_iff _).mpr ⟨hmem, hd.tag_isEmpty⟩
  obtain ⟨hpar, haccess⟩ := Lru.access_order (c.lists (setIdx C d)) d.tag hok.parallel
    (hlru ▸ hok.enumerates.nodup)
  have horder : (c.hit C d way).order C (setIdx C d) =
      (c.order C (setIdx C d)).erase d.tag ++ [d.tag] := by
    rw [hlru, ← haccess, order, halgo, hlists]
  refine ⟨hlists ▸ hpar, ?_, ?_⟩
  · rw [hit_tags, horder]
    exact hok.enumerates.touch hlast
  · rw [hok.kept, GbConfig.kept, halgo] at hlast
    have hnodup : (history .lru (c.events (setIdx C d))).Nodup := List.nodup_dedup _
    rw [horder, hit_events, Function.update_self, hok.kept, GbConfig.kept, GbConfig.kept, halgo,
      history_lru_concat]
    exact (Recency.rtake_erase_concat_of_mem hnodup hlast).symm

/-- After a hit the books are in order. -/
theorem hit_orderOk (hpolicy : C.algo = .fifo ∨ C.algo = .lru) {c : Cache}
    (hok : ∀ idx, c.OrderOk C idx) {d : ERData} (hd : d.Addressed addr)
    (hmem : d.tag ∈ c.tags (setIdx C d)) (way idx : Nat) : (c.hit C d way).OrderOk C idx := by
  by_cases hidx : idx = setIdx C d
  · subst hidx
    obtain halgo | halgo := hpolicy
    · exact hit_orderOk_of_fifo halgo (hok _) way
    · exact hit_orderOk_of_lru halgo hd (hok _) hmem way
  · refine (hok idx).congr (by rw [hit_tags]) (hit_lists_of_ne hidx way c) ?_
    rw [hit_events, Function.update_of_ne hidx]

end Cache

namespace GlobalBuffer

variable {C : GbConfig} {addr : Nat → Int → Nat}

/-- Only replies change the tags. -/
theorem receiveItem_tags (d : ERData) (gb : GlobalBuffer) :
    (gb.receiveItem C d).cache.tags = gb.cache.tags := by
  unfold receiveItem
  split
  next way _ => exact Cache.hit_tags d way gb.cache
  next => rw [requestOnce_cache]; rfl

theorem receiveItem_orderOk (hpolicy : C.algo = .fifo ∨ C.algo = .lru) {gb : GlobalBuffer}
    (h : gb.RequestsOk C addr) (hok : ∀ idx, gb.cache.OrderOk C idx) {d : ERData}
    (hd : d.Addressed addr) (idx : Nat) : (gb.receiveItem C d).cache.OrderOk C idx := by
  unfold receiveItem
  cases hway : gb.cache.way? C d with
  | none =>
    rw [requestOnce_cache]
    exact hok idx
  | some way =>
    have hmem := (h.tags.resident_iff hd).mp (Cache.resident_of_way? hway)
    exact Cache.hit_orderOk hpolicy hok hd hmem way idx

/-- A reply writes its line. -/
theorem reply_writesOldest (hpolicy : C.algo = .fifo ∨ C.algo = .lru) {gb : GlobalBuffer}
    (h : gb.RequestsOk C addr) (hok : ∀ idx, gb.cache.OrderOk C idx) {r : Nat × ReplyJunk}
    (hmem : r.1 ∈ gb.outstanding) :
    (∃ d : ERData, d.Addressed addr ∧ d.address = r.1 ∧
      d.tag ∉ gb.cache.tags (Cache.setIdx C d) ∧
      Cache.WritesOldest C d gb.cache (gb.reply C r).cache) ∧
      ∀ idx, (gb.reply C r).cache.OrderOk C idx := by
  obtain ⟨hd, haddress, hmiss⟩ := h.mapped r.1 (h.marked hmem)
  obtain ⟨hwrites, hok'⟩ := Cache.installLine_orderOk hpolicy h.tags hok hd hmiss r.2.victim r.1
  unfold reply
  rw [if_pos hmem]
  exact ⟨⟨gb.wMap r.1, hd, haddress, hmiss, hwrites⟩, hok'⟩

theorem call_orderOk (hpolicy : C.algo = .fifo ∨ C.algo = .lru) {gb : GlobalBuffer}
    (h : gb.RequestsOk C addr) (hok : ∀ idx, gb.cache.OrderOk C idx) {c : Call}
    (hc : c.Addressed addr) : ∀ idx, (gb.call C c).cache.OrderOk C idx := by
  cases c with
  | receiveItem d => exact receiveItem_orderOk hpolicy h hok hc
  | canTransfer =>
    rw [call, checkTransfer_cache]
    exact hok
  | transferAData =>
    rw [call, transferAData_cache]
    exact hok
  | reply address junk =>
    by_cases hmem : address ∈ gb.outstanding
    · exact (reply_writesOldest hpolicy h hok hmem).2
    · rw [call, reply, if_neg hmem]
      exact hok

theorem calls_orderOk (hpolicy : C.algo = .fifo ∨ C.algo = .lru) {cs : List Call}
    (hcs : ∀ c ∈ cs, c.Addressed addr) (idx : Nat) : (calls C cs).cache.OrderOk C idx := by
  have h := Transition.run_invariant_of_forall (P := Call.Addressed addr)
    (I := fun gb : GlobalBuffer => gb.RequestsOk C addr ∧ ∀ idx, gb.cache.OrderOk C idx)
    (fun _ _ hc h => ⟨call_requestsOk h.1 hc, call_orderOk hpolicy h.1 h.2 hc⟩)
    ⟨init_requestsOk, Cache.init_orderOk⟩ hcs
  exact h.2 idx

/-- After any calls with FIFO or LRU: the lists of every set are a duplicate-free enumeration
of its lines, for FIFO in the order of installation and for LRU from the last use back;
every reply writes its line to one way, which is unused or, if no way of the set is,
holds the line that is first in the order of the reference policy; and no other call
changes the tags. -/
theorem calls_refine_policy (hpolicy : C.algo = .fifo ∨ C.algo = .lru) (cs : List Call)
    (hcs : ∀ c ∈ cs, c.Addressed addr) :
    (∀ idx, ((calls C cs).cache.lists idx).Parallel ∧
      ((calls C cs).cache.lists idx).tags.Nodup ∧
      (∀ t, t ∈ ((calls C cs).cache.lists idx).tags ↔
        t ∈ (calls C cs).cache.tags idx ∧ t.isEmpty = false) ∧
      (C.algo = .fifo → ((calls C cs).cache.lists idx).tags =
        C.kept ((calls C cs).cache.events idx)) ∧
      (C.algo = .lru → ((calls C cs).cache.lists idx).tags =
        (C.kept ((calls C cs).cache.events idx)).reverse)) ∧
    (∀ address ∈ (calls C cs).outstanding, ∀ junk, ∃ d : ERData, d.Addressed addr ∧
      d.address = address ∧ d.tag ∉ (calls C cs).cache.tags (Cache.setIdx C d) ∧
      Cache.WritesOldest C d (calls C cs).cache
        ((calls C cs).call C (.reply address junk)).cache) ∧
    (∀ c, (∀ address junk, c ≠ .reply address junk) →
      ((calls C cs).call C c).cache.tags = (calls C cs).cache.tags) := by
  have h := calls_requestsOk (C := C) hcs
  have hok := calls_orderOk hpolicy hcs
  refine ⟨fun idx => ?_, fun address hmem junk => ?_, fun c hc => ?_⟩
  · obtain ⟨hpar, ⟨hnodup, hmem⟩, hkept⟩ := hok idx
    obtain halgo | halgo := hpolicy
    · rw [Cache.order, halgo] at hnodup hkept
      simp only [Cache.order, halgo] at hmem
      refine ⟨hpar, hnodup, hmem, fun _ => hkept, fun hlru => ?_⟩
      rw [halgo] at hlru
      cases hlru
    · rw [Cache.order, halgo] at hnodup hkept
      simp only [Cache.order, halgo, Lru.order, List.mem_reverse] at hmem
      refine ⟨hpar, List.nodup_reverse.mp hnodup, hmem, fun hfifo => ?_, fun _ => ?_⟩
      · rw [halgo] at hfifo
        cases hfifo
      · exact List.reverse_eq_iff.mp hkept
  · exact (reply_writesOldest hpolicy h hok (r := (address, junk)) hmem).1
  · cases c with
    | receiveItem d => exact receiveItem_tags d _
    | canTransfer => exact congrArg Cache.tags (checkTransfer_cache _)
    | transferAData => exact congrArg Cache.tags (transferAData_cache _)
    | reply address junk => exact absurd rfl (hc address junk)

/-- Columns `3` and `5` are installed, `3` is used again and `7` is requested. -/
def usedAgainCalls : List Call :=
  [.receiveItem (lineItem 3 0), .reply (lineAddress 3 0) ⟨(0, 0), false⟩,
    .receiveItem (lineItem 5 0), .reply (lineAddress 5 0) ⟨(0, 0), false⟩,
    .receiveItem (lineItem 3 0), .receiveItem (lineItem 7 0)]

theorem usedAgainCalls_addressed : ∀ c ∈ usedAgainCalls, c.Addressed lineAddress := by
  simp only [usedAgainCalls, List.forall_mem_cons, Call.Addressed]
  refine ⟨⟨?_, ?_, ?_, rfl⟩, trivial, ⟨?_, ?_, ?_, rfl⟩, trivial, ⟨?_, ?_, ?_, rfl⟩,
    ⟨?_, ?_, ?_, rfl⟩, fun _ h => absurd h List.not_mem_nil⟩
  all_goals decide

/-- LRU replaces column `5` and keeps column `3`. -/
theorem usedAgainCalls_refine_policy :
    (calls (.twoWays .lru) usedAgainCalls).cache.tags 0 = [⟨3, 0⟩, ⟨5, 0⟩] ∧
      ((calls (.twoWays .lru) usedAgainCalls).call (.twoWays .lru)
        (.reply (lineAddress 7 0) ⟨(0, 0), false⟩)).cache.tags 0 = [⟨3, 0⟩, ⟨7, 0⟩] ∧
      ∃ d : ERData, d.address = lineAddress 7 0 ∧
        Cache.WritesOldest (.twoWays .lru) d (calls (.twoWays .lru) usedAgainCalls).cache
          ((calls (.twoWays .lru) usedAgainCalls).call (.twoWays .lru)
            (.reply (lineAddress 7 0) ⟨(0, 0), false⟩)).cache := by
  refine ⟨by decide +kernel, by decide +kernel, ?_⟩
  have h := calls_refine_policy (C := .twoWays .lru) (Or.inr rfl) usedAgainCalls
    usedAgainCalls_addressed
  obtain ⟨d, -, haddress, -, hwrites⟩ := h.2.1 (lineAddress 7 0) (by decide +kernel)
    ⟨(0, 0), false⟩
  exact ⟨d, haddress, hwrites⟩

end GlobalBuffer

end GcnSim
