import GcnSim.Cache.Prediction
import GcnSim.Lib.While
import Mathlib.Data.List.MinMax

/-!
# The victims of RRIP

The search of `RRIP::replace` is a loop without a bound of its own. It ends because
every round brings the largest value of the set closer to `3`, and it takes the first
way with the largest value. A new set has the value `3` in every way, so the ways are
filled in their order, and a way that was filled has no `3` before all of them are.
-/

namespace GcnSim

namespace Rrip

/-- The values of the set, and how often the branch for a value that cannot be counted up
was taken. -/
structure Search where
  rrpv : List Nat
  errors : Nat
  deriving DecidableEq, Repr

/-- What the loop of `RRIP::replace` finds. -/
structure Victim where
  way : Nat
  rrpv : List Nat
  errors : Nat
  deriving DecidableEq, Repr

/-- One round of the loop of `RRIP::replace`, with the branch `RRPV error`. -/
def searchRound (s : Search) : Search ⊕ Victim :=
  match s.rrpv.findIdx? (· = 3) with
  | some way => .inr ⟨way, s.rrpv, s.errors⟩
  | none => .inl ⟨s.rrpv.map fun v => if v < 3 then v + 1 else v,
      s.errors + s.rrpv.countP fun v => !decide (v < 3)⟩

/-- `search` is this loop without the errors. -/
theorem search_eq_exec (rounds : Nat) (s : Search) :
    search rounds s.rrpv =
      (While.exec searchRound rounds s).map fun r => (r.way, r.rrpv) := by
  induction rounds generalizing s with
  | zero => rfl
  | succ rounds ih =>
    rw [search, While.exec, searchRound]
    cases s.rrpv.findIdx? (· = 3) with
    | some way => rfl
    | none => exact ih ⟨_, _⟩

/-- Values below `3` are counted up without an error. -/
theorem searchRound_of_lt {rrpv : List Nat} (hlt : ∀ v ∈ rrpv, v < 3) (errors : Nat) :
    searchRound ⟨rrpv, errors⟩ = .inl ⟨rrpv.map (· + 1), errors⟩ := by
  have hfind : rrpv.findIdx? (· = 3) = none := by
    rw [List.findIdx?_eq_none_iff]
    intro v hv
    exact decide_eq_false (Nat.ne_of_lt (hlt v hv))
  have hmap : (rrpv.map fun v => if v < 3 then v + 1 else v) = rrpv.map (· + 1) :=
    List.map_congr_left fun v hv => if_pos (hlt v hv)
  have hcount : (rrpv.countP fun v => !decide (v < 3)) = 0 := by
    rw [List.countP_eq_zero]
    intro v hv
    simp [hlt v hv]
  rw [searchRound, hfind, hmap, hcount, Nat.add_zero]

/-- The loop takes the first way with the largest value `m`, after `3 - m` rounds that count
every value up, none of them an error. -/
theorem exec_searchRound {rrpv : List Nat} {m way : Nat} (hmax : ∀ v ∈ rrpv, v ≤ m) (hm : m ≤ 3)
    (hway : rrpv.findIdx? (· = m) = some way) (errors : Nat) :
    While.exec searchRound 4 ⟨rrpv, errors⟩ =
      some ⟨way, rrpv.map (· + (3 - m)), errors⟩ := by
  have hrounds : ∀ k m rrpv, m + k = 3 → (∀ v ∈ rrpv, v ≤ m) →
      rrpv.findIdx? (· = m) = some way →
      While.exec searchRound (k + 1) ⟨rrpv, errors⟩ = some ⟨way, rrpv.map (· + k), errors⟩ := by
    intro k
    induction k with
    | zero =>
      intro m rrpv hk _ hway
      obtain rfl : m = 3 := hk
      apply While.exec_succ_of_inr
      simp only [searchRound, hway, Nat.add_zero, List.map_id']
    | succ k ih =>
      intro m rrpv hk hmax hway
      have hlt : ∀ v ∈ rrpv, v < 3 := fun v hv => by
        have := hmax v hv
        omega
      rw [While.exec_succ_of_inl (searchRound_of_lt hlt errors)]
      rw [ih (m + 1) (rrpv.map (· + 1)) (by omega)]
      · rw [List.map_map]
        congr 2
        exact List.map_congr_left fun v _ => by simp; omega
      · intro v hv
        obtain ⟨u, hu, rfl⟩ := List.mem_map.mp hv
        exact Nat.succ_le_succ (hmax u hu)
      · rw [List.findIdx?_map]
        simpa [Function.comp_def] using hway
  exact While.exec_mono (hrounds (3 - m) m rrpv (by omega) hmax hway) (by omega)

/-- `RRIP`: the values of every set. `errors` counts the `RRPV error` branch. -/
structure Table where
  rrpvList : Nat → List Nat
  errors : Nat

/-- A call of the policy. -/
inductive PolicyCall where
  | access (set way : Nat) | replace (set : Nat)
  deriving DecidableEq, Repr

namespace Table

/-- The constructor. -/
def init (wayN : Nat) : Table := ⟨fun _ => List.replicate wayN 3, 0⟩

/-- `RRIP::replace` with the way it returns; `none` stands for a loop that goes on. -/
def replace (set : Nat) (t : Table) : Option (Nat × Table) :=
  (While.exec searchRound 4 ⟨t.rrpvList set, t.errors⟩).map fun r =>
    (r.way, ⟨Function.update t.rrpvList set (r.rrpv.set r.way 2), r.errors⟩)

/-- The effect of a call. -/
def call (t : Table) : PolicyCall → Table
  | .access set way =>
    { t with rrpvList := Function.update t.rrpvList set (Rrip.access way (t.rrpvList set)) }
  | .replace set => ((t.replace set).map Prod.snd).getD t

/-- Every set has a value for each way, none of them above `3`, and there was no error. -/
structure Ok (wayN : Nat) (t : Table) : Prop where
  errors : t.errors = 0
  length : ∀ set, (t.rrpvList set).length = wayN
  le_three : ∀ set, ∀ v ∈ t.rrpvList set, v ≤ 3

variable {wayN : Nat} {t : Table}

theorem init_ok : (init wayN).Ok wayN where
  errors := rfl
  length _ := List.length_replicate
  le_three _ _ hv := Nat.le_of_eq (List.eq_of_mem_replicate hv)

/-- `RRIP::replace` takes the first way with the largest value `m`. -/
theorem Ok.replace_eq (h : t.Ok wayN) {set m : Nat} (hmem : m ∈ t.rrpvList set)
    (hmax : ∀ v ∈ t.rrpvList set, v ≤ m) :
    ∃ way < wayN, (t.rrpvList set).findIdx? (· = m) = some way ∧
      t.replace set = some (way, ⟨Function.update t.rrpvList set
        (((t.rrpvList set).map (· + (3 - m))).set way 2), 0⟩) := by
  obtain ⟨way, hway⟩ : ∃ way, (t.rrpvList set).findIdx? (· = m) = some way := by
    rw [← Option.isSome_iff_exists, List.findIdx?_isSome, List.any_eq_true]
    exact ⟨m, hmem, decide_eq_true rfl⟩
  have hlt : way < wayN := by
    obtain ⟨hlt, -⟩ := List.findIdx?_eq_some_iff_getElem.mp hway
    rwa [h.length] at hlt
  refine ⟨way, hlt, hway, ?_⟩
  rw [replace, exec_searchRound hmax (h.le_three set m hmem) hway, h.errors]
  rfl

theorem Ok.exists_max (h : t.Ok wayN) (hpos : 0 < wayN) (set : Nat) :
    ∃ m ∈ t.rrpvList set, ∀ v ∈ t.rrpvList set, v ≤ m := by
  have hlen : 0 < (t.rrpvList set).length := by
    rw [h.length]
    exact hpos
  exact ⟨_, List.maximum_of_length_pos_mem hlen,
    fun v hv => List.le_maximum_of_length_pos_of_mem hv hlen⟩

/-- The values of one set change. -/
theorem Ok.update (h : t.Ok wayN) {set : Nat} {rrpv : List Nat} (hlen : rrpv.length = wayN)
    (hle : ∀ v ∈ rrpv, v ≤ 3) : Ok wayN ⟨Function.update t.rrpvList set rrpv, 0⟩ := by
  refine ⟨rfl, ?_, ?_⟩
  · exact (Function.forall_update_iff t.rrpvList fun _ rrpv => rrpv.length = wayN).mpr
      ⟨hlen, fun set' _ => h.length set'⟩
  · exact (Function.forall_update_iff t.rrpvList fun _ rrpv => ∀ v ∈ rrpv, v ≤ 3).mpr
      ⟨hle, fun set' _ => h.le_three set'⟩

theorem forall_mem_set {rrpv : List Nat} (hle : ∀ v ∈ rrpv, v ≤ 3) (way : Nat) {u : Nat}
    (hu : u ≤ 3) : ∀ v ∈ rrpv.set way u, v ≤ 3 := by
  intro v hv
  obtain hmem | rfl := List.mem_or_eq_of_mem_set hv
  · exact hle v hmem
  · exact hu

theorem Ok.call (h : t.Ok wayN) (hpos : 0 < wayN) (c : PolicyCall) : (t.call c).Ok wayN := by
  cases c with
  | access set way =>
    have hset : Ok wayN ⟨Function.update t.rrpvList set (Rrip.access way (t.rrpvList set)), 0⟩ :=
      h.update (by rw [Rrip.access, List.length_set, h.length])
        (forall_mem_set (h.le_three set) way (Nat.zero_le 3))
    rw [← h.errors] at hset
    exact hset
  | replace set =>
    obtain ⟨m, hmem, hmax⟩ := h.exists_max hpos set
    obtain ⟨way, -, -, heq⟩ := h.replace_eq hmem hmax
    rw [Table.call, heq]
    refine h.update (by rw [List.length_set, List.length_map, h.length]) ?_
    refine forall_mem_set (fun v hv => ?_) way (by decide)
    obtain ⟨u, hu, rfl⟩ := List.mem_map.mp hv
    have hle := hmax u hu
    have hm := h.le_three set m hmem
    omega

theorem run_ok (hpos : 0 < wayN) (calls : List PolicyCall) :
    (Transition.run call (init wayN) calls).Ok wayN :=
  Transition.run_invariant (fun _ c h => h.call hpos c) init_ok calls

end Table

end Rrip

namespace Cache

variable (C : GbConfig)

/-- The ways of the set from `n` on are the empty ones. As long as there are any, they are the
ones with the value `3`. -/
structure FilledTo (c : Cache) (idx n : Nat) : Prop where
  le : n ≤ C.wayN
  length : (c.tags idx).length = C.wayN
  tags : ∀ way t, (c.tags idx)[way]? = some t → (t.isEmpty = true ↔ n ≤ way)
  rrpv : n < C.wayN → ∀ way v, (c.rrpvList idx)[way]? = some v → (v = 3 ↔ n ≤ way)

variable {C} {c : Cache} {idx n : Nat}

theorem init_filledTo : (init C).FilledTo C idx 0 where
  le := Nat.zero_le _
  length := List.length_replicate
  tags way t ht := by
    obtain ⟨-, rfl⟩ := List.getElem?_eq_some_iff.mp ht
    simp [init, Tag.isEmpty, Tag.empty]
  rrpv _ way v hv := by
    obtain ⟨-, rfl⟩ := List.getElem?_eq_some_iff.mp hv
    simp [init]

/-- Only lines are hit. -/
theorem isEmpty_of_way? {d : ERData} (hd : d.tag.isEmpty = false) {way : Nat}
    (h : c.way? C d = some way) : ∃ t, (c.tags (setIdx C d))[way]? = some t ∧ t.isEmpty = false := by
  obtain ⟨hlt, hholds, -⟩ := List.findIdx?_eq_some_iff_getElem.mp h
  refine ⟨_, List.getElem?_eq_getElem hlt, ?_⟩
  by_contra hempty
  rw [Bool.not_eq_false, Tag.isEmpty, decide_eq_true_eq] at hempty
  rw [Tag.holds, Bool.and_eq_true, decide_eq_true_eq, hempty] at hholds
  have hcol : intOfU64 d.colindex = -1 := by
    rw [← hholds.1]
    decide
  simp [ERData.tag, Tag.isEmpty, hcol] at hd

/-- A value other than `3` is written to a way in front of `n`. -/
theorem FilledTo.lower (h : c.FilledTo C idx n) {c' : Cache} {way v : Nat} (hv : v ≠ 3)
    (hway : way < n) (htags : c'.tags idx = c.tags idx)
    (hrrpv : c'.rrpvList idx = (c.rrpvList idx).set way v) : c'.FilledTo C idx n where
  le := h.le
  length := htags ▸ h.length
  tags := htags ▸ h.tags
  rrpv hn way' u hu := by
    obtain ⟨rfl, rfl⟩ | ⟨-, hu⟩ := Slots.of_getElem?_set (hrrpv ▸ hu)
    · exact iff_of_false hv (by omega)
    · exact h.rrpv hn way' u hu

/-- The first empty way is written. -/
theorem FilledTo.fill (h : c.FilledTo C idx n) (hn : n < C.wayN) {c' : Cache} {t : Tag}
    (ht : t.isEmpty = false) (htags : c'.tags idx = (c.tags idx).set n t)
    (hrrpv : c'.rrpvList idx = (c.rrpvList idx).set n 2) : c'.FilledTo C idx (n + 1) where
  le := hn
  length := by rw [htags, List.length_set, h.length]
  tags way u hu := by
    obtain ⟨rfl, rfl⟩ | ⟨hne, hu⟩ := Slots.of_getElem?_set (htags ▸ hu)
    · exact iff_of_false (by simp [ht]) (by omega)
    · rw [h.tags way u hu]
      omega
  rrpv _ way u hu := by
    obtain ⟨rfl, rfl⟩ | ⟨hne, hu⟩ := Slots.of_getElem?_set (hrrpv ▸ hu)
    · exact iff_of_false (by decide) (by omega)
    · rw [h.rrpv hn way u hu]
      omega

/-- A line of a full set is replaced. -/
theorem FilledTo.overwrite (h : c.FilledTo C idx C.wayN) {c' : Cache} {t : Tag} {way : Nat}
    (ht : t.isEmpty = false) (hway : way < C.wayN)
    (htags : c'.tags idx = (c.tags idx).set way t) : c'.FilledTo C idx C.wayN where
  le := le_rfl
  length := by rw [htags, List.length_set, h.length]
  tags way' u hu := by
    obtain ⟨rfl, rfl⟩ | ⟨-, hu⟩ := Slots.of_getElem?_set (htags ▸ hu)
    · exact iff_of_false (by simp [ht]) (by omega)
    · exact h.tags way' u hu
  rrpv hn := absurd hn (Nat.lt_irrefl _)

theorem FilledTo.congr (h : c.FilledTo C idx n) {c' : Cache} (htags : c'.tags idx = c.tags idx)
    (hrrpv : c'.rrpvList idx = c.rrpvList idx) : c'.FilledTo C idx n where
  le := h.le
  length := htags ▸ h.length
  tags := htags ▸ h.tags
  rrpv := hrrpv ▸ h.rrpv

/-- While there are empty ways the search stops at the first one at once. -/
theorem FilledTo.replace_eq (h : c.FilledTo C idx n) (hn : n < C.wayN)
    (hlen : (c.rrpvList idx).length = C.wayN) :
    Rrip.replace (c.rrpvList idx) = some (n, (c.rrpvList idx).set n 2) := by
  have hfind : (c.rrpvList idx).findIdx? (· = 3) = some n := by
    rw [List.findIdx?_eq_some_iff_getElem]
    have hlt : n < (c.rrpvList idx).length := hlen ▸ hn
    refine ⟨hlt, ?_, fun way hway => ?_⟩
    · exact decide_eq_true ((h.rrpv hn n _ (List.getElem?_eq_getElem hlt)).mpr le_rfl)
    · have hw := h.rrpv hn way _ (List.getElem?_eq_getElem (hway.trans hlt))
      simp [hw]
      exact hway
  rw [Rrip.replace, Rrip.search, hfind]
  rfl

theorem hit_filledTo (halgo : C.algo = .rrip) (h : ∀ idx, ∃ n, c.FilledTo C idx n) {d : ERData}
    (hd : d.tag.isEmpty = false) {way : Nat} (hway : c.way? C d = some way) (idx : Nat) :
    ∃ n, (c.hit C d way).FilledTo C idx n := by
  obtain ⟨n, hn⟩ := h idx
  have hrrpv : (c.hit C d way).rrpvList = Function.update c.rrpvList (setIdx C d)
      ((c.rrpvList (setIdx C d)).set way 0) := by
    simp only [hit, halgo]
    rfl
  refine ⟨n, ?_⟩
  by_cases hidx : idx = setIdx C d
  · subst hidx
    obtain ⟨t, ht, hempty⟩ := isEmpty_of_way? hd hway
    have hlt : way < n := by
      by_contra hge
      rw [(hn.tags way t ht).mpr (by omega)] at hempty
      cases hempty
    exact hn.lower (v := 0) (by decide) hlt (by rw [hit_tags]) (by rw [hrrpv, Function.update_self])
  · exact hn.congr (by rw [hit_tags]) (by rw [hrrpv, Function.update_of_ne hidx])

/-- A line is written to the first empty way if there is one. -/
theorem installLine_filledTo (halgo : C.algo = .rrip) (hok : ∀ idx, c.RrpvOk C idx)
    (h : ∀ idx, ∃ n, c.FilledTo C idx n) {d : ERData} (hd : d.tag.isEmpty = false)
    (junk : Int × Int) (address : Nat) :
    (∀ idx, ∃ n, (c.installLine C junk address d).FilledTo C idx n) ∧
    ((∃ t ∈ c.tags (setIdx C d), t.isEmpty = true) →
      ∃ way t, (c.tags (setIdx C d))[way]? = some t ∧ t.isEmpty = true ∧
        (c.installLine C junk address d).tags =
          Function.update c.tags (setIdx C d) ((c.tags (setIdx C d)).set way d.tag)) := by
  obtain ⟨n, hn⟩ := h (setIdx C d)
  have hset := hok (setIdx C d)
  obtain ⟨⟨victim, hvictim, htags⟩, -⟩ :=
    installLine_writes (Or.inl halgo) hok junk address d
  have hother : ∀ idx, idx ≠ setIdx C d →
      (c.installLine C junk address d).rrpvList idx = c.rrpvList idx := by
    intro idx hidx
    simp only [installLine, halgo]
    split
    · exact Function.update_of_ne hidx _ _
    · rfl
  rcases Nat.lt_or_ge n C.wayN with hlt | hge
  · -- the value `3` is found at once, in the first empty way
    have hinstall : c.installLine C junk address d = { c.install C d n with
        rrpvList := Function.update c.rrpvList (setIdx C d)
          ((c.rrpvList (setIdx C d)).set n 2) } := by
      simp only [installLine, halgo, hn.replace_eq hlt hset.length]
    constructor
    · intro idx
      by_cases hidx : idx = setIdx C d
      · subst hidx
        refine ⟨n + 1, hn.fill hlt hd ?_ ?_⟩
        · rw [hinstall]
          exact Function.update_self _ _ _
        · rw [hinstall]
          exact Function.update_self _ _ _
      · obtain ⟨m, hm⟩ := h idx
        exact ⟨m, hm.congr (by rw [htags, Function.update_of_ne hidx]) (hother idx hidx)⟩
    · intro _
      have hlen : n < (c.tags (setIdx C d)).length := hn.length ▸ hlt
      refine ⟨n, _, List.getElem?_eq_getElem hlen, ?_, ?_⟩
      · exact (hn.tags n _ (List.getElem?_eq_getElem hlen)).mpr le_rfl
      · rw [hinstall]
        rfl
  · obtain rfl : n = C.wayN := le_antisymm hn.le hge
    constructor
    · intro idx
      by_cases hidx : idx = setIdx C d
      · subst hidx
        exact ⟨C.wayN, hn.overwrite hd hvictim (by rw [htags, Function.update_self])⟩
      · obtain ⟨m, hm⟩ := h idx
        exact ⟨m, hm.congr (by rw [htags, Function.update_of_ne hidx]) (hother idx hidx)⟩
    · rintro ⟨t, ht, hempty⟩
      obtain ⟨way, hway, rfl⟩ := List.mem_iff_getElem.mp ht
      have := (hn.tags way _ (List.getElem?_eq_getElem hway)).mp hempty
      rw [hn.length] at hway
      omega

end Cache

namespace GlobalBuffer

variable {C : GbConfig}

/-- What the calls of a buffer with RRIP keep. -/
structure RripOk (C : GbConfig) (gb : GlobalBuffer) : Prop where
  tagged : gb.Tagged
  rrpv : ∀ idx, gb.cache.RrpvOk C idx
  filled : ∀ idx, ∃ n, gb.cache.FilledTo C idx n

theorem call_rripOk (halgo : C.algo = .rrip) {gb : GlobalBuffer} (h : gb.RripOk C) {c : Call}
    (hc : c.Tagged) : (gb.call C c).RripOk C := by
  refine ⟨call_tagged h.tagged hc, call_rrpvOk (Or.inl halgo) h.rrpv c, ?_⟩
  cases c with
  | receiveItem d =>
    rw [call, receiveItem]
    split
    next way hway => exact Cache.hit_filledTo halgo h.filled hc hway
    next =>
      rw [requestOnce_cache]
      exact h.filled
  | canTransfer =>
    rw [call, checkTransfer_cache]
    exact h.filled
  | transferAData =>
    rw [call, transferAData_cache]
    exact h.filled
  | reply address junk =>
    rw [call, reply]
    split
    next => exact (Cache.installLine_filledTo halgo h.rrpv h.filled (h.tagged.mapped _) _ _).1
    next => exact h.filled

theorem calls_rripOk (halgo : C.algo = .rrip) {cs : List Call} (hcs : ∀ c ∈ cs, c.Tagged) :
    (calls C cs).RripOk C :=
  Transition.run_invariant_of_forall (P := Call.Tagged) (I := RripOk C)
    (fun _ _ hc h => call_rripOk halgo h hc)
    ⟨init_tagged, Cache.init_rrpvOk, fun _ => ⟨0, Cache.init_filledTo⟩⟩ hcs

/-- RRIP writes a reply to an empty way as long as its set has one. -/
theorem calls_rrip_fills_empty (halgo : C.algo = .rrip) {cs : List Call}
    (hcs : ∀ c ∈ cs, c.Tagged) {address : Nat} (hmem : address ∈ (calls C cs).outstanding)
    (junk : ReplyJunk) :
    let gb := calls C cs
    let idx := Cache.setIdx C (gb.wMap address)
    (∃ t ∈ gb.cache.tags idx, t.isEmpty = true) →
      ∃ way t, (gb.cache.tags idx)[way]? = some t ∧ t.isEmpty = true ∧
        (gb.call C (.reply address junk)).cache.tags = Function.update gb.cache.tags idx
          ((gb.cache.tags idx).set way (gb.wMap address).tag) := by
  intro gb idx
  have h : gb.RripOk C := calls_rripOk halgo hcs
  rw [call, reply, if_pos hmem]
  exact (Cache.installLine_filledTo halgo h.rrpv h.filled (h.tagged.mapped address) _ _).2

/-- In every run of RRIP the values stay below `4`, the search ends without an error, takes the
first way with the largest value and ages the others by what that value was short of `3`.
In the buffer it never takes a line while the set has an empty way. -/
theorem rrip_takes_first_largest {wayN : Nat} (hpos : 0 < wayN) :
    (∀ policyCalls : List Rrip.PolicyCall,
      let t := Transition.run Rrip.Table.call (Rrip.Table.init wayN) policyCalls
      (t.errors = 0 ∧ ∀ set, (t.rrpvList set).length = wayN ∧ ∀ v ∈ t.rrpvList set, v ≤ 3) ∧
      ∀ set m, m ∈ t.rrpvList set → (∀ v ∈ t.rrpvList set, v ≤ m) →
        ∃ way t', t.replace set = some (way, t') ∧ t'.errors = 0 ∧
          (t.rrpvList set).findIdx? (· = m) = some way ∧
          t'.rrpvList = Function.update t.rrpvList set
            (((t.rrpvList set).map (· + (3 - m))).set way 2)) ∧
    ∀ C : GbConfig, C.wayN = wayN → C.algo = .rrip → ∀ cs : List Call, (∀ c ∈ cs, c.Tagged) →
      ∀ address ∈ (calls C cs).outstanding, ∀ junk,
        let gb := calls C cs
        let idx := Cache.setIdx C (gb.wMap address)
        (∃ t ∈ gb.cache.tags idx, t.isEmpty = true) →
          ∃ way t, (gb.cache.tags idx)[way]? = some t ∧ t.isEmpty = true ∧
            (gb.call C (.reply address junk)).cache.tags = Function.update gb.cache.tags idx
              ((gb.cache.tags idx).set way (gb.wMap address).tag) := by
  constructor
  · intro policyCalls t
    have hok : t.Ok wayN := Rrip.Table.run_ok hpos policyCalls
    refine ⟨⟨hok.errors, fun set => ⟨hok.length set, hok.le_three set⟩⟩, ?_⟩
    intro set m hmem hmax
    obtain ⟨way, -, hway, heq⟩ := hok.replace_eq hmem hmax
    exact ⟨way, _, heq, rfl, hway, rfl⟩
  · intro C _ halgo cs hcs address hmem junk
    exact calls_rrip_fills_empty halgo hcs hmem junk

/-- Two lines of one set with two ways: the second one goes to the way that is still empty. -/
theorem rrip_takes_first_largest_twoWays :
    let C := GbConfig.twoWays .rrip
    let gb := calls C [.receiveItem (lineItem 1 0), .receiveItem (lineItem 2 0),
      .reply (lineAddress 1 0) ⟨(0, 0), false⟩]
    let idx := Cache.setIdx C (gb.wMap (lineAddress 2 0))
    ∃ way t, (gb.cache.tags idx)[way]? = some t ∧ t.isEmpty = true ∧
      (gb.call C (.reply (lineAddress 2 0) ⟨(0, 0), false⟩)).cache.tags =
        Function.update gb.cache.tags idx
          ((gb.cache.tags idx).set way (gb.wMap (lineAddress 2 0)).tag) := by
  intro C gb idx
  exact (rrip_takes_first_largest (by decide : 0 < 2)).2 C rfl rfl _
    (by simp [Call.Tagged]; decide) (lineAddress 2 0) (by decide) ⟨(0, 0), false⟩
    ⟨.empty, by decide, rfl⟩

end GlobalBuffer

end GcnSim
