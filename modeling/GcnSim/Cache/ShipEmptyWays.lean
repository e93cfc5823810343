import GcnSim.Cache.RripVictims

/-!
# Empty ways under SHiP

SHiP has no scan for empty ways either, and unlike RRIP it installs a line whose signature
counts nothing with the value `3`. Empty ways keep the value `3`, so as long as there is one
the search ends at once, but at the first `3`: a reply goes to an empty way exactly when no
line in front of it has the value `3`.
-/

namespace GcnSim

namespace Cache

variable (C : GbConfig)

/-- The empty ways of the set have the value `3`. -/
structure EmptiesThree (c : Cache) (idx : Nat) : Prop where
  length : (c.tags idx).length = C.wayN
  three : ∀ (way : Nat) (t : Tag), (c.tags idx)[way]? = some t → t.isEmpty = true →
    (c.rrpvList idx)[way]? = some 3

variable {C} {c : Cache} {idx : Nat}

theorem init_emptiesThree : (init C).EmptiesThree C idx where
  length := List.length_replicate
  three way t ht _ := by
    have hlt := (List.getElem?_eq_some_iff.mp ht).1
    rw [init, List.length_replicate] at hlt
    rw [init, List.getElem?_replicate, if_pos hlt]

theorem EmptiesThree.congr (h : c.EmptiesThree C idx) {c' : Cache}
    (htags : c'.tags idx = c.tags idx) (hrrpv : c'.rrpvList idx = c.rrpvList idx) :
    c'.EmptiesThree C idx where
  length := htags ▸ h.length
  three := by
    rw [htags, hrrpv]
    exact h.three

theorem hit_emptiesThree (halgo : C.algo = .ship) (h : ∀ idx, c.EmptiesThree C idx) {d : ERData}
    (hd : d.tag.isEmpty = false) {way : Nat} (hway : c.way? C d = some way) (idx : Nat) :
    (c.hit C d way).EmptiesThree C idx := by
  have hrrpv : (c.hit C d way).rrpvList = Function.update c.rrpvList (setIdx C d)
      ((c.rrpvList (setIdx C d)).set way 0) := by
    simp only [hit, halgo]
    rfl
  by_cases hidx : idx = setIdx C d
  · subst hidx
    obtain ⟨t, ht, hempty⟩ := isEmpty_of_way? hd hway
    refine ⟨by rw [hit_tags]; exact (h _).length, fun way' t' ht' hempty' => ?_⟩
    rw [hit_tags] at ht'
    have hne : way ≠ way' := by
      rintro rfl
      rw [ht, Option.some.injEq] at ht'
      rw [← ht', hempty] at hempty'
      cases hempty'
    rw [hrrpv, Function.update_self, List.getElem?_set_ne hne]
    exact (h _).three way' t' ht' hempty'
  · exact (h idx).congr (by rw [hit_tags]) (by rw [hrrpv, Function.update_of_ne hidx])

/-- The way `SHiP::replace` takes. -/
def victim (c : Cache) (idx : Nat) : Nat := (c.rrpvList idx).findIdx (· = 3)

/-- With an empty way in the set the search ends at once, at the first value `3`. -/
theorem EmptiesThree.findIdx?_eq (h : c.EmptiesThree C idx)
    (hempty : ∃ t ∈ c.tags idx, t.isEmpty = true) :
    (c.rrpvList idx).findIdx? (· = 3) = some (c.victim idx) := by
  obtain ⟨t, ht, hempty⟩ := hempty
  obtain ⟨way, hway, rfl⟩ := List.mem_iff_getElem.mp ht
  have hthree := h.three way _ (List.getElem?_eq_getElem hway) hempty
  have hlt : c.victim idx < (c.rrpvList idx).length :=
    List.findIdx_lt_length_of_exists ⟨3, List.mem_of_getElem? hthree, decide_eq_true rfl⟩
  exact List.findIdx?_eq_some_iff_findIdx_eq.mpr ⟨hlt, rfl⟩

/-- A reply for a set with an empty way writes the first way with the value `3`, and changes
the value of no other way. -/
theorem EmptiesThree.installLine_eq (halgo : C.algo = .ship) {d : ERData}
    (h : c.EmptiesThree C (setIdx C d)) (hempty : ∃ t ∈ c.tags (setIdx C d), t.isEmpty = true)
    (junk : Int × Int) (address : Nat) :
    (c.installLine C junk address d).tags = Function.update c.tags (setIdx C d)
        ((c.tags (setIdx C d)).set (c.victim (setIdx C d)) d.tag) ∧
      ∃ v, (c.installLine C junk address d).rrpvList = Function.update c.rrpvList (setIdx C d)
        ((c.rrpvList (setIdx C d)).set (c.victim (setIdx C d)) v) := by
  have hsearch : Rrip.search 4 (c.rrpvList (setIdx C d)) =
      some (c.victim (setIdx C d), c.rrpvList (setIdx C d)) := by
    rw [Rrip.search, h.findIdx?_eq hempty]
  simp only [installLine, halgo, Ship.replace, hsearch, Option.map_some]
  exact ⟨rfl, _, rfl⟩

theorem ne_tag {d : ERData} (hd : d.tag.isEmpty = false) {t : Tag} (ht : t.isEmpty = true) :
    t ≠ d.tag := by
  rintro rfl
  rw [hd] at ht
  cases ht

theorem installLine_emptiesThree (halgo : C.algo = .ship) (hok : ∀ idx, c.RrpvOk C idx)
    (h : ∀ idx, c.EmptiesThree C idx) {d : ERData} (hd : d.tag.isEmpty = false)
    (junk : Int × Int) (address idx : Nat) :
    (c.installLine C junk address d).EmptiesThree C idx := by
  obtain ⟨⟨way, hway, htags⟩, -⟩ := installLine_writes (Or.inr halgo) hok junk address d
  by_cases hidx : idx = setIdx C d
  · subst hidx
    refine ⟨by rw [htags, Function.update_self, List.length_set]; exact (h _).length, ?_⟩
    intro way' t' ht' hempty'
    rw [htags, Function.update_self] at ht'
    obtain ⟨-, rfl⟩ | ⟨hne, ht'⟩ := Slots.of_getElem?_set ht'
    · rw [hd] at hempty'
      cases hempty'
    · -- another way is still empty, so no value was counted up
      have hempty : ∃ t ∈ c.tags (setIdx C d), t.isEmpty = true :=
        ⟨t', List.mem_of_getElem? ht', hempty'⟩
      obtain ⟨htags', v, hrrpv⟩ := (h _).installLine_eq halgo hempty junk address
      rw [htags] at htags'
      have hsets := congrFun htags' (setIdx C d)
      rw [Function.update_self, Function.update_self] at hsets
      have hvictim : c.victim (setIdx C d) ≠ way' := by
        rintro rfl
        exact hne (Slots.eq_of_set_eq ht' (ne_tag hd hempty') hsets.symm)
      rw [hrrpv, Function.update_self, List.getElem?_set_ne hvictim]
      exact (h _).three way' t' ht' hempty'
  · refine (h idx).congr (by rw [htags, Function.update_of_ne hidx]) ?_
    simp only [installLine, halgo]
    split
    · exact Function.update_of_ne hidx _ _
    · rfl

/-- The first value `3` is not behind the first empty way, and is the one of an empty way
exactly if it is not in front of it. -/
theorem EmptiesThree.victim_isEmpty_iff (h : c.EmptiesThree C idx) {n : Nat}
    (hn : (c.tags idx).findIdx? Tag.isEmpty = some n) :
    (∃ t, (c.tags idx)[c.victim idx]? = some t ∧ t.isEmpty = true) ↔
      ∀ way < n, (c.rrpvList idx)[way]? ≠ some 3 := by
  obtain ⟨hlt, hempty, hfirst⟩ := List.findIdx?_eq_some_iff_getElem.mp hn
  have hthree := h.three n _ (List.getElem?_eq_getElem hlt) hempty
  have hle : c.victim idx ≤ n := by
    by_contra hgt
    obtain ⟨hn', hget⟩ := List.getElem?_eq_some_iff.mp hthree
    exact of_decide_eq_false (List.not_of_lt_findIdx (Nat.not_le.mp hgt)) hget
  constructor
  · rintro ⟨t, ht, htempty⟩ way hway hget
    have hvictim : n ≤ c.victim idx := by
      by_contra hbefore
      obtain ⟨hv, rfl⟩ := List.getElem?_eq_some_iff.mp ht
      exact hfirst _ (Nat.not_le.mp hbefore) htempty
    obtain ⟨hway', hthree'⟩ := List.getElem?_eq_some_iff.mp hget
    exact of_decide_eq_false (List.not_of_lt_findIdx (hway.trans_le hvictim)) hthree'
  · intro hfront
    have hvictim : c.victim idx = n := by
      refine le_antisymm hle (Nat.not_lt.mp fun hbefore => ?_)
      have hv : c.victim idx < (c.rrpvList idx).length :=
        hbefore.trans (List.getElem?_eq_some_iff.mp hthree).1
      have hget : (c.rrpvList idx)[c.victim idx] = 3 :=
        of_decide_eq_true (List.findIdx_getElem (w := hv))
      exact hfront _ hbefore (List.getElem?_eq_some_iff.mpr ⟨hv, hget⟩)
    rw [hvictim]
    exact ⟨_, List.getElem?_eq_getElem hlt, hempty⟩

end Cache

namespace GlobalBuffer

variable (C : GbConfig)

/-- A reply for a set with an empty way is written to an empty way. -/
def FillsEmpty (gb : GlobalBuffer) : Call → Prop
  | .reply address junk =>
    let idx := Cache.setIdx C (gb.wMap address)
    address ∈ gb.outstanding → (∃ t ∈ gb.cache.tags idx, t.isEmpty = true) →
      ∃ way t, (gb.cache.tags idx)[way]? = some t ∧ t.isEmpty = true ∧
        (gb.call C (.reply address junk)).cache.tags = Function.update gb.cache.tags idx
          ((gb.cache.tags idx).set way (gb.wMap address).tag)
  | _ => True

/-- When a reply arrives, no line in front of the first empty way of its set has the
value `3`. -/
def NoThreeInFront (gb : GlobalBuffer) : Call → Prop
  | .reply address _ =>
    let idx := Cache.setIdx C (gb.wMap address)
    address ∈ gb.outstanding →
      ∀ n ∈ (gb.cache.tags idx).findIdx? Tag.isEmpty, ∀ way < n,
        (gb.cache.rrpvList idx)[way]? ≠ some 3
  | _ => True

/-- What the calls of a buffer with SHiP keep. -/
structure ShipOk (gb : GlobalBuffer) : Prop where
  tagged : gb.Tagged
  rrpv : ∀ idx, gb.cache.RrpvOk C idx
  empties : ∀ idx, gb.cache.EmptiesThree C idx

variable {C}

theorem call_shipOk (halgo : C.algo = .ship) {gb : GlobalBuffer} (h : gb.ShipOk C) {c : Call}
    (hc : c.Tagged) : (gb.call C c).ShipOk C := by
  refine ⟨call_tagged h.tagged hc, call_rrpvOk (Or.inr halgo) h.rrpv c, ?_⟩
  cases c with
  | receiveItem d =>
    rw [call, receiveItem]
    split
    next way hway => exact Cache.hit_emptiesThree halgo h.empties hc hway
    next =>
      rw [requestOnce_cache]
      exact h.empties
  | canTransfer =>
    rw [call, checkTransfer_cache]
    exact h.empties
  | transferAData =>
    rw [call, transferAData_cache]
    exact h.empties
  | reply address junk =>
    rw [call, reply]
    split
    next =>
      exact Cache.installLine_emptiesThree halgo h.rrpv h.empties (h.tagged.mapped _) _ _
    next => exact h.empties

theorem calls_shipOk (halgo : C.algo = .ship) {cs : List Call} (hcs : ∀ c ∈ cs, c.Tagged) :
    (calls C cs).ShipOk C :=
  Transition.run_invariant_of_forall (P := Call.Tagged) (I := ShipOk C)
    (fun _ _ hc h => call_shipOk halgo h hc)
    ⟨init_tagged, Cache.init_rrpvOk, fun _ => Cache.init_emptiesThree⟩ hcs

/-- A reply goes to an empty way exactly when no line in front of it has the value `3`. -/
theorem ShipOk.fillsEmpty_iff (halgo : C.algo = .ship) {gb : GlobalBuffer} (h : gb.ShipOk C)
    (c : Call) : gb.FillsEmpty C c ↔ gb.NoThreeInFront C c := by
  cases c with
  | receiveItem d => exact Iff.rfl
  | canTransfer => exact Iff.rfl
  | transferAData => exact Iff.rfl
  | reply address junk =>
    have hempties := h.empties (Cache.setIdx C (gb.wMap address))
    have hd := h.tagged.mapped address
    refine imp_congr_right fun hmem => ?_
    rw [call, reply, if_pos hmem, receiveReply]
    constructor
    · intro hfills n hn
      obtain ⟨hlt, hempty, -⟩ := List.findIdx?_eq_some_iff_getElem.mp hn
      have hexists : ∃ t ∈ gb.cache.tags (Cache.setIdx C (gb.wMap address)), t.isEmpty = true :=
        ⟨_, List.getElem_mem hlt, hempty⟩
      obtain ⟨htags, -⟩ := hempties.installLine_eq halgo hexists junk.victim address
      obtain ⟨way, t, ht, htempty, heq⟩ := hfills hexists
      have hsets := congrFun (heq.symm.trans htags) (Cache.setIdx C (gb.wMap address))
      rw [Function.update_self, Function.update_self] at hsets
      rw [← hempties.victim_isEmpty_iff hn, ← Slots.eq_of_set_eq ht (Cache.ne_tag hd htempty) hsets]
      exact ⟨t, ht, htempty⟩
    · intro hfront hexists
      obtain ⟨htags, -⟩ := hempties.installLine_eq halgo hexists junk.victim address
      obtain ⟨n, hn⟩ : ∃ n, (gb.cache.tags (Cache.setIdx C (gb.wMap address))).findIdx?
          Tag.isEmpty = some n := by
        rw [← Option.isSome_iff_exists, List.findIdx?_isSome, List.any_eq_true]
        exact hexists
      obtain ⟨t, ht, htempty⟩ := (hempties.victim_isEmpty_iff hn).mpr (hfront n hn)
      exact ⟨_, t, ht, htempty, htags⟩

/-- Every reply of a run fills an empty way if its set has one, exactly if every reply finds
no line with the value `3` in front of the first empty way. -/
theorem calls_ship_fillsEmpty_iff (halgo : C.algo = .ship) {cs : List Call}
    (hcs : ∀ c ∈ cs, c.Tagged) :
    Transition.Guarded (call C) (FillsEmpty C) (init C) cs ↔
      Transition.Guarded (call C) (NoThreeInFront C) (init C) cs :=
  Transition.guarded_congr (P := Call.Tagged) (I := ShipOk C)
    (fun _ _ hc h => call_shipOk halgo h hc) (fun _ c h => h.fillsEmpty_iff halgo c)
    ⟨init_tagged, Cache.init_rrpvOk, fun _ => Cache.init_emptiesThree⟩ hcs

instance NoThreeInFront.decidable (C : GbConfig) (gb : GlobalBuffer) :
    (c : Call) → Decidable (gb.NoThreeInFront C c)
  | .receiveItem _ | .canTransfer | .transferAData => isTrue trivial
  | .reply address _ => inferInstanceAs (Decidable (address ∈ gb.outstanding →
      ∀ n ∈ (gb.cache.tags (Cache.setIdx C (gb.wMap address))).findIdx? Tag.isEmpty,
        ∀ way < n, (gb.cache.rrpvList (Cache.setIdx C (gb.wMap address)))[way]? ≠ some 3))

/-- A line that was hit has no value `3`, and the next reply goes to the other way. -/
theorem calls_ship_fillsEmpty_hit :
    Transition.Guarded (call (.twoWays .ship)) (FillsEmpty (.twoWays .ship)) (init (.twoWays .ship))
      [.receiveItem (lineItem 1 0), .reply (lineAddress 1 0) ⟨(0, 0), false⟩,
        .receiveItem (lineItem 1 0), .receiveItem (lineItem 2 0),
        .reply (lineAddress 2 0) ⟨(0, 0), false⟩] :=
  (calls_ship_fillsEmpty_iff rfl (by simp [Call.Tagged]; decide)).mpr (by decide)

/-- Two lines whose signature counts nothing: the second one overwrites the first one, and
the other way stays empty. -/
theorem ship_overwrites_beside_empty :
    let C := GbConfig.twoWays .ship
    let cs : List Call := [.receiveItem (lineItem 1 0), .receiveItem (lineItem 2 0),
      .reply (lineAddress 1 0) ⟨(0, 0), false⟩, .reply (lineAddress 2 0) ⟨(0, 0), false⟩]
    (calls C (cs.take 3)).cache.tags 0 = [(lineItem 1 0).tag, .empty] ∧
    (calls C cs).cache.tags 0 = [(lineItem 2 0).tag, .empty] ∧
      ¬ Transition.Guarded (call C) (FillsEmpty C) (init C) cs := by
  intro C cs
  refine ⟨by decide, by decide, fun h => ?_⟩
  have hok : (calls C (cs.take 3)).ShipOk C :=
    calls_shipOk rfl (by simp [cs, Call.Tagged]; decide)
  exact absurd ((hok.fillsEmpty_iff rfl _).mp h.2.2.2.1) (by decide)

end GlobalBuffer

end GcnSim
