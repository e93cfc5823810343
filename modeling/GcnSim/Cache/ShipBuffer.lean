import GcnSim.Cache.ShipTables

/-!
# The buffer as a user of SHiP

A hit of the buffer is a `SHiP::access` of the line that was last installed in the way, and a
reply is a `SHiP::replace`. So the policy sees only the calls its tables are made for, and as
long as no counter overflows the books of the buffer are those of the policy.
-/

namespace GcnSim

namespace Ship

/-- With every written way trained, `SHiP::replace` does not count down, whether or not its
counters are bounded. -/
theorem replace_eq_replaceInt {t : Ship} (h : ∀ way, t.lineOutcome.getD way false = true ∨
    t.lineSignature.getD way (-1) = -1) (address : Nat) (rrpv : List Nat) :
    t.replace address rrpv =
      (t.replaceInt address rrpv).map fun r => (r.1, r.2.1, r.2.2.1) := by
  rw [replace, replaceInt, Rrip.search_eq_exec 4 ⟨rrpv, 0⟩, Option.map_map, Option.map_map]
  congr 1
  funext r
  simp only [Function.comp_apply, countDown_eq (h r.way)]
  rcases h r.way with htrue | hnew
  · simp only [htrue]
  · simp only [hnew, if_true]
    cases t.lineOutcome.getD r.way false with
    | true => rfl
    | false => cases t.shct (-1) <;> rfl

/-- A hit below the largest `int` counts as it should. -/
theorem access_eq_accessInt {t : Ship} {address n : Nat}
    (hn : t.shct (signature address) = some (n : Int)) (hlt : n + 1 < 2147483648) (way : Nat)
    (rrpv : List Nat) :
    t.access way address rrpv = ((t.accessInt way address rrpv).1,
      (t.accessInt way address rrpv).2.1) := by
  have hnext : int32 ((n : Int) + 1) = n + 1 := int32_of_lt hlt
  simp only [access, accessInt, hn, hnext]

end Ship

namespace GlobalBuffer

variable (C : GbConfig) (addr : Nat → Int → Nat)

/-- The calls of the policy that a call of the buffer makes. -/
def shipCalls (gb : GlobalBuffer) : Call → List ShipCall
  | .receiveItem d =>
    match gb.cache.way? C d with
    | some way => [.access (Cache.setIdx C d) way d.address]
    | none => []
  | .reply address _ =>
    if address ∈ gb.outstanding then [.replace (Cache.setIdx C (gb.wMap address)) address] else []
  | _ => []

/-- A call of the buffer, with the policy as a system of its own beside it. -/
def callWithShip (x : GlobalBuffer × ShipSystem) (c : Call) : GlobalBuffer × ShipSystem :=
  (x.1.call C c, Transition.run ShipSystem.call x.2 (x.1.shipCalls C c))

/-- The buffer and the policy after a list of calls. -/
def callsWithShip (cs : List Call) : GlobalBuffer × ShipSystem :=
  Transition.run (callWithShip C) (init C, ShipSystem.init C.wayN) cs

/-- The books of the cache are those of the policy, which knows the address of every line. -/
structure Mirrors (c : Cache) (s : ShipSystem) : Prop where
  rrpv : c.rrpvList = s.rrpvList
  tables : c.ship = s.tables
  lines : ∀ idx way, ∀ d : ERData, d.Addressed addr → (c.tags idx)[way]? = some d.tag →
    (s.lines idx way).map ShipLine.address = some d.address

variable {C addr}

theorem init_mirrors : Mirrors addr (Cache.init C) (ShipSystem.init C.wayN) where
  rrpv := rfl
  tables := rfl
  lines idx way d hd ht := by
    have hempty : d.tag = .empty := List.eq_of_mem_replicate (List.mem_of_getElem? ht)
    have := hd.tag_isEmpty
    rw [hempty] at this
    exact absurd this (by decide)

/-- The line that the lookup finds is the one last installed in the way. -/
theorem Mirrors.line_of_way? {c : Cache} {s : ShipSystem} (h : Mirrors addr c s)
    (htags : c.TagsOk C addr) {d : ERData} (hd : d.Addressed addr) {way : Nat}
    (hway : c.way? C d = some way) :
    (s.lines (Cache.setIdx C d) way).map ShipLine.address = some d.address := by
  obtain ⟨hlt, hholds, -⟩ := List.findIdx?_eq_some_iff_getElem.mp hway
  refine h.lines _ way d hd ?_
  rw [List.getElem?_eq_getElem hlt]
  obtain hempty | ⟨d', hd', -, htag⟩ := htags.placed _ _ (List.getElem_mem hlt)
  · rw [hempty, hd.not_holds_empty] at hholds
    exact absurd hholds Bool.false_ne_true
  · rw [← htag] at hholds
    rw [← htag, hd.tag_of_holds hd' hholds]

/-- A hit of the buffer is an access of the policy. -/
theorem Mirrors.hit (halgo : C.algo = .ship) {c : Cache} {s : ShipSystem} (h : Mirrors addr c s)
    (hok : s.Ok C.wayN) {d : ERData} {way : Nat}
    (hline : (s.lines (Cache.setIdx C d) way).map ShipLine.address = some d.address)
    (hfit : (s.access (Cache.setIdx C d) way d.address).HitsFit) :
    Mirrors addr (c.hit C d way) (s.access (Cache.setIdx C d) way d.address) := by
  obtain ⟨l, hl, haddress⟩ := Option.map_eq_some_iff.mp hline
  have hkey := (hok.resident _ way l hl).2
  rw [haddress] at hkey
  obtain ⟨n, hn⟩ := Option.isSome_iff_exists.mp hkey
  have hlt : s.hits (Ship.signature d.address) + 1 < 2147483648 := by
    have h := hfit (Ship.signature d.address)
    simpa only [ShipSystem.access, Function.update_self] using h
  have hcount : s.tables.shct (Ship.signature d.address) =
      some (s.hits (Ship.signature d.address) : Int) := by
    have hcounter := hok.counter (Ship.signature d.address)
    rw [hn, Option.getD_some, int32_of_lt (by omega)] at hcounter
    rw [hn, hcounter]
  have heq := Ship.access_eq_accessInt hcount hlt way (s.rrpvList (Cache.setIdx C d))
  refine ⟨?_, ?_, ?_⟩
  · simp only [Cache.hit, halgo, h.rrpv, h.tables, heq, ShipSystem.access]
  · simp only [Cache.hit, halgo, h.rrpv, h.tables, heq, ShipSystem.access]
  · intro idx' way' d' hd' ht
    rw [Cache.hit_tags] at ht
    have hold := h.lines idx' way' d' hd' ht
    simp only [ShipSystem.access, ShipSystem.putLine_apply]
    split
    · rename_i hsame
      rw [hsame.1, hsame.2, hline] at hold
      exact hold
    · exact hold

/-- A reply of the buffer is a replacement of the policy. -/
theorem Mirrors.installLine (halgo : C.algo = .ship) {c : Cache} {s : ShipSystem}
    (h : Mirrors addr c s) (hok : s.Ok C.wayN) {d : ERData} (hd : d.Addressed addr)
    (junk : Int × Int) :
    Mirrors addr (c.installLine C junk d.address d) (s.replace (Cache.setIdx C d) d.address) := by
  obtain ⟨way, -, rrpv, -, -, heq⟩ := hok.replaceInt_eq C.wayN_pos (Cache.setIdx C d) d.address
  have hreplace := Ship.replace_eq_replaceInt hok.trained d.address
    (s.rrpvList (Cache.setIdx C d))
  rw [heq, Option.map_some] at hreplace
  simp only [Cache.installLine, halgo, h.rrpv, h.tables, hreplace, ShipSystem.replace, heq,
    Cache.install]
  refine ⟨rfl, rfl, ?_⟩
  intro idx' way' d' hd' ht
  simp only [ShipSystem.putLine_apply]
  by_cases hidx : idx' = Cache.setIdx C d
  · subst hidx
    simp only [Function.update_self, List.getElem?_set] at ht
    by_cases hway : way' = way
    · subst hway
      rw [if_pos ⟨rfl, rfl⟩]
      split at ht
      · split at ht
        · rw [Option.map_some, hd.address_of_tag hd' (Option.some.inj ht)]
        · cases ht
      · exact absurd rfl ‹_›
    · rw [if_neg fun hsame => hway hsame.2]
      rw [if_neg (Ne.symm hway)] at ht
      exact h.lines _ way' d' hd' ht
  · rw [if_neg fun hsame => hidx hsame.1]
    simp only [Function.update_of_ne hidx] at ht
    exact h.lines idx' way' d' hd' ht

/-- What the buffer and the policy beside it keep. -/
structure FollowsShip (C : GbConfig) (addr : Nat → Int → Nat) (x : GlobalBuffer × ShipSystem) :
    Prop where
  requests : x.1.RequestsOk C addr
  policy : x.2.Ok C.wayN
  mirrors : x.2.HitsFit → Mirrors addr x.1.cache x.2

theorem callWithShip_follows (halgo : C.algo = .ship) {x : GlobalBuffer × ShipSystem}
    (h : FollowsShip C addr x) {c : Call} (hc : c.Addressed addr) :
    FollowsShip C addr (callWithShip C x c) := by
  obtain ⟨gb, s⟩ := x
  have hpolicy : ∀ calls, (Transition.run ShipSystem.call s calls).Ok C.wayN := fun calls =>
    Transition.run_invariant (I := ShipSystem.Ok C.wayN) (fun _ c h => h.call C.wayN_pos c) h.policy
      calls
  refine ⟨call_requestsOk h.requests hc, hpolicy _, ?_⟩
  cases c with
  | receiveItem d =>
    simp only [callWithShip, call, receiveItem, shipCalls]
    cases hway : gb.cache.way? C d with
    | none =>
      intro hfit
      simp only [requestOnce_cache]
      exact h.mirrors hfit
    | some way =>
      intro hfit
      simp only [Transition.run_cons, Transition.run_nil] at hfit ⊢
      have hmirrors := h.mirrors (ShipSystem.hitsFit_of_call hfit)
      have hline := hmirrors.line_of_way? h.requests.tags hc hway
      simp only [ShipSystem.call, if_pos hline] at hfit ⊢
      exact hmirrors.hit halgo h.policy hline hfit
  | canTransfer =>
    intro hfit
    simp only [callWithShip, call, checkTransfer_cache]
    exact h.mirrors hfit
  | transferAData =>
    intro hfit
    simp only [callWithShip, call, transferAData_cache]
    exact h.mirrors hfit
  | reply address junk =>
    simp only [callWithShip, call, reply, shipCalls]
    by_cases hmem : address ∈ gb.outstanding
    · intro hfit
      simp only [if_pos hmem, Transition.run_cons, Transition.run_nil] at hfit ⊢
      have hmirrors := h.mirrors (ShipSystem.hitsFit_of_call hfit)
      obtain ⟨hd, haddress, -⟩ := h.requests.mapped address (h.requests.marked hmem)
      have hinstall := hmirrors.installLine halgo h.policy hd junk.victim
      rw [haddress] at hinstall
      exact hinstall
    · intro hfit
      simp only [if_neg hmem, Transition.run_nil] at hfit ⊢
      exact h.mirrors hfit

theorem callsWithShip_fst (cs : List Call) : (callsWithShip C cs).1 = calls C cs := by
  have h : ∀ x, (Transition.run (callWithShip C) x cs).1 = Transition.run (call C) x.1 cs := by
    induction cs with
    | nil => exact fun x => rfl
    | cons c cs ih => exact fun x => ih (callWithShip C x c)
  exact h (init C, ShipSystem.init C.wayN)

/-- The policy beside the buffer is a run of SHiP. -/
theorem exists_shipCalls (cs : List Call) : ∃ calls, (callsWithShip C cs).2 =
    Transition.run ShipSystem.call (ShipSystem.init C.wayN) calls := by
  refine Transition.run_invariant (I := fun x : GlobalBuffer × ShipSystem => ∃ calls, x.2 =
    Transition.run ShipSystem.call (ShipSystem.init C.wayN) calls) ?_ ⟨[], rfl⟩ cs
  rintro x c ⟨calls, hcalls⟩
  refine ⟨calls ++ x.1.shipCalls C c, ?_⟩
  rw [Transition.run_append, ← hcalls]
  rfl

/-- As long as no signature was hit more often than an `int` counts, the books of a buffer
with SHiP are those of the policy on the calls that the buffer makes, all of them hits of the
line last installed in their way, or replacements. -/
theorem ship_books_eq (halgo : C.algo = .ship) {cs : List Call}
    (hcs : ∀ c ∈ cs, c.Addressed addr) (hfit : (callsWithShip C cs).2.HitsFit) :
    (calls C cs).cache.rrpvList = (callsWithShip C cs).2.rrpvList ∧
      (calls C cs).cache.ship = (callsWithShip C cs).2.tables := by
  have h : FollowsShip C addr (callsWithShip C cs) :=
    Transition.run_invariant_of_forall (P := Call.Addressed addr) (I := FollowsShip C addr)
      (fun _ _ hc h => callWithShip_follows halgo h hc)
      ⟨init_requestsOk, ShipSystem.init_ok, fun _ => init_mirrors⟩ hcs
  have hmirrors := h.mirrors hfit
  rw [callsWithShip_fst] at hmirrors
  exact ⟨hmirrors.rrpv, hmirrors.tables⟩

end GlobalBuffer

end GcnSim
