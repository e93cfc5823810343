import GcnSim.Cache.RripVictims

/-!
# The tables of SHiP

`SHiP` keeps, beside the values of RRIP, an outcome and a signature for each way, shared by
all sets, and a table of counters for the signatures. A line is installed with the outcome
`true`, so the branch that counts a signature down when a line leaves without a hit is never
taken, and neither are the error branches behind it. Each counter is the number of hits of
its signature, as an `int`.
-/

namespace GcnSim

/-- The messages of the error branches. -/
inductive ShipError where
  /-- `SHCT should already have such element but not`. -/
  | noElement
  /-- `SHCT cnt cannot be negative`. -/
  | negative
  /-- `SHiP has fatal error`. -/
  | fatal
  /-- `RRPV error`. -/
  | rrpv
  deriving DecidableEq, Repr

namespace Ship

/-- `SHiP::access` with `int` counters and its error branch. -/
def accessInt (way address : Nat) (rrpv : List Nat) (t : Ship) :
    List Nat × Ship × List ShipError :=
  match t.shct (signature address) with
  | some n => (rrpv.set way 0, { t with
      lineOutcome := t.lineOutcome.set way true
      shct := Function.update t.shct (signature address) (some (int32 (n + 1))) }, [])
  | none => (rrpv.set way 0, { t with lineOutcome := t.lineOutcome.set way true }, [.noElement])

/-- The part of `SHiP::replace` that counts down for the line in `way`. -/
def countDown (way : Nat) (t : Ship) : (Int → Option Int) × List ShipError :=
  let old := t.lineSignature.getD way (-1)
  if t.lineOutcome.getD way false then (t.shct, [])
  else if old = -1 then (t.shct, [])
  else match t.shct old with
    | some n => (Function.update t.shct old (some (int32 (n - 1))),
        if int32 (n - 1) < 0 then [.negative] else [])
    | none => (t.shct, [.fatal])

/-- A way that is trained or was never written is not counted down. -/
theorem countDown_eq {t : Ship} {way : Nat} (h : t.lineOutcome.getD way false = true ∨
    t.lineSignature.getD way (-1) = -1) : t.countDown way = (t.shct, []) := by
  rw [countDown]
  rcases h with htrue | hnew
  · rw [if_pos htrue]
  · simp only [hnew, if_true]
    split <;> rfl

/-- `SHiP::replace` with `int` counters and its error branches; `none` stands for a loop that
goes on. -/
def replaceInt (address : Nat) (rrpv : List Nat) (t : Ship) :
    Option (Nat × List Nat × Ship × List ShipError) :=
  (While.exec Rrip.searchRound 4 ⟨rrpv, 0⟩).map fun r =>
    let down := t.countDown r.way
    let shct := if t.lineSignature.getD r.way (-1) = -1 ∧ down.1 (signature address) = none then
        Function.update down.1 (signature address) (some 0) else down.1
    let count := (shct (signature address)).getD 0
    (r.way, r.rrpv.set r.way (if count = 0 then 3 else 2),
      ⟨t.lineOutcome.set r.way true, t.lineSignature.set r.way (signature address),
        Function.update shct (signature address) (some count)⟩,
      List.replicate r.errors .rrpv ++ down.2)

end Ship

/-- A line in a way: the address it was installed for, and whether it was hit since. -/
structure ShipLine where
  address : Nat
  isHit : Bool
  deriving DecidableEq, Repr

/-- The state of `SHiP`. `errors`, `lines`, `hits` and `unhit` are history: the errors, the
line last installed in each way of each set, and for each signature the hits and the
evictions of lines that were not hit. -/
structure ShipSystem where
  rrpvList : Nat → List Nat
  tables : Ship
  errors : List ShipError
  lines : Nat → Nat → Option ShipLine
  hits : Int → Nat
  unhit : Int → Nat

/-- A call of the policy. -/
inductive ShipCall where
  | access (set way address : Nat) | replace (set address : Nat)
  deriving DecidableEq, Repr

namespace ShipSystem

/-- The constructor. -/
def init (wayN : Nat) : ShipSystem where
  rrpvList _ := List.replicate wayN 3
  tables := ⟨List.replicate wayN false, List.replicate wayN (-1), fun _ => none⟩
  errors := []
  lines _ _ := none
  hits _ := 0
  unhit _ := 0

/-- The history of the ways with another line in one of them. -/
def putLine (set way : Nat) (l : ShipLine) (s : ShipSystem) : Nat → Nat → Option ShipLine :=
  Function.update s.lines set (Function.update (s.lines set) way (some l))

/-- `SHiP::access`. -/
def access (set way address : Nat) (s : ShipSystem) : ShipSystem :=
  let r := s.tables.accessInt way address (s.rrpvList set)
  let sig := Ship.signature address
  { s with
    rrpvList := Function.update s.rrpvList set r.1
    tables := r.2.1
    errors := s.errors ++ r.2.2
    lines := s.putLine set way ⟨address, true⟩
    hits := Function.update s.hits sig (s.hits sig + 1) }

/-- The evictions of lines without a hit, after the line in `way` leaves. -/
def evict (set way : Nat) (s : ShipSystem) : Int → Nat :=
  match s.lines set way with
  | some ⟨address, false⟩ =>
    Function.update s.unhit (Ship.signature address) (s.unhit (Ship.signature address) + 1)
  | _ => s.unhit

/-- `SHiP::replace`; a loop that goes on would leave everything as it is. -/
def replace (set address : Nat) (s : ShipSystem) : ShipSystem :=
  match s.tables.replaceInt address (s.rrpvList set) with
  | some (way, rrpv, tables, errors) => { s with
      rrpvList := Function.update s.rrpvList set rrpv
      tables := tables
      errors := s.errors ++ errors
      lines := s.putLine set way ⟨address, false⟩
      unhit := s.evict set way }
  | none => s

/-- A call. Hits are only reported for the line that is in the way. -/
def call (s : ShipSystem) : ShipCall → ShipSystem
  | .access set way address =>
    if (s.lines set way).map ShipLine.address = some address then s.access set way address else s
  | .replace set address => s.replace set address

/-- What every call keeps. -/
structure Ok (wayN : Nat) (s : ShipSystem) : Prop where
  errors : s.errors = []
  length : ∀ set, (s.rrpvList set).length = wayN
  le_three : ∀ set, ∀ v ∈ s.rrpvList set, v ≤ 3
  outcomes : s.tables.lineOutcome.length = wayN
  /-- Only a way that was never written has the outcome `false`. -/
  trained : ∀ way, s.tables.lineOutcome.getD way false = true ∨
    s.tables.lineSignature.getD way (-1) = -1
  signatures : s.tables.lineSignature.length = wayN
  counter : ∀ sig, (s.tables.shct sig).getD 0 = int32 (s.hits sig)
  resident : ∀ set way l, s.lines set way = some l → way < wayN ∧
    (s.tables.shct (Ship.signature l.address)).isSome

variable {wayN : Nat} {s : ShipSystem}

theorem init_ok : (init wayN).Ok wayN where
  errors := rfl
  length _ := List.length_replicate
  le_three _ _ hv := Nat.le_of_eq (List.eq_of_mem_replicate hv)
  outcomes := List.length_replicate
  trained way := by
    right
    simp only [init, List.getD_eq_getElem?_getD, List.getElem?_replicate]
    split <;> rfl
  signatures := List.length_replicate
  counter _ := by
    simp [init, int32]
  resident _ _ _ h := by cases h

theorem getD_set {α : Type*} {l : List α} {i : Nat} (hi : i < l.length) (j : Nat) (x d : α) :
    (l.set i x).getD j d = if i = j then x else l.getD j d := by
  simp only [List.getD_eq_getElem?_getD, List.getElem?_set]
  split
  · rfl
  · rfl

/-- An installed or hit line has the outcome `true`. -/
theorem Ok.trained_set (h : s.Ok wayN) {way : Nat} (hway : way < wayN) {signature : List Int}
    (hother : ∀ way', way' ≠ way →
      signature.getD way' (-1) = s.tables.lineSignature.getD way' (-1)) (way' : Nat) :
    (s.tables.lineOutcome.set way true).getD way' false = true ∨ signature.getD way' (-1) = -1 := by
  rw [getD_set (h.outcomes ▸ hway)]
  by_cases hne : way = way'
  · rw [if_pos hne]
    exact Or.inl rfl
  · rw [if_neg hne, hother way' (Ne.symm hne)]
    exact h.trained way'

theorem Ok.update_rrpv (h : s.Ok wayN) (set : Nat) {rrpv : List Nat}
    (hlen : rrpv.length = wayN) (hle : ∀ v ∈ rrpv, v ≤ 3) :
    (∀ set', (Function.update s.rrpvList set rrpv set').length = wayN) ∧
      ∀ set', ∀ v ∈ Function.update s.rrpvList set rrpv set', v ≤ 3 := by
  have htable : Rrip.Table.Ok wayN ⟨s.rrpvList, 0⟩ := ⟨rfl, h.length, h.le_three⟩
  have hupdated : Rrip.Table.Ok wayN ⟨Function.update s.rrpvList set rrpv, 0⟩ :=
    htable.update hlen hle
  exact ⟨hupdated.length, hupdated.le_three⟩

theorem putLine_apply (s : ShipSystem) (set way : Nat) (l : ShipLine) (set' way' : Nat) :
    s.putLine set way l set' way' =
      if set' = set ∧ way' = way then some l else s.lines set' way' := by
  by_cases hset : set' = set
  · subst hset
    simp only [putLine, Function.update_self, Function.update_apply, true_and]
  · simp only [putLine, Function.update_of_ne hset, hset, false_and, if_false]

/-- The line in a way after a line was put in one. -/
theorem putLine_eq_some {set way set' way' : Nat} {l l' : ShipLine}
    (h : s.putLine set way l set' way' = some l') :
    (set' = set ∧ way' = way ∧ l' = l) ∨ s.lines set' way' = some l' := by
  rw [putLine_apply] at h
  split at h
  · rename_i heq
    exact Or.inl ⟨heq.1, heq.2, (Option.some.inj h).symm⟩
  · exact Or.inr h

/-- No key leaves the table. -/
theorem isSome_update {shct : Int → Option Int} {sig : Int} (h : (shct sig).isSome) (key n : Int) :
    (Function.update shct key (some n) sig).isSome := by
  by_cases hsig : sig = key
  · rw [hsig, Function.update_self]
    rfl
  · rwa [Function.update_of_ne hsig]

/-- A hit of a resident line finds its signature in the table. -/
theorem Ok.access (h : s.Ok wayN) {set way address : Nat}
    (hline : (s.lines set way).map ShipLine.address = some address) :
    (s.access set way address).Ok wayN := by
  obtain ⟨l, hl, rfl⟩ := Option.map_eq_some_iff.mp hline
  obtain ⟨hway, hkey⟩ := h.resident set way l hl
  obtain ⟨n, hn⟩ := Option.isSome_iff_exists.mp hkey
  have hcount : n = int32 (s.hits (Ship.signature l.address)) := by
    rw [← h.counter, hn, Option.getD_some]
  obtain ⟨hlen, hle⟩ := h.update_rrpv set (by rw [List.length_set, h.length])
    (Rrip.Table.forall_mem_set (h.le_three set) way (Nat.zero_le 3))
  simp only [ShipSystem.access, Ship.accessInt, hn]
  refine ⟨by simp [h.errors], hlen, hle, by simp [h.outcomes], ?_, h.signatures, ?_, ?_⟩
  · exact h.trained_set hway fun _ _ => rfl
  · intro sig
    by_cases hsig : sig = Ship.signature l.address
    · subst hsig
      simp only [Function.update_self, Option.getD_some]
      rw [hcount, int32_add_one]
      rfl
    · simp only [Function.update_of_ne hsig]
      exact h.counter sig
  · intro set' way' l' hl'
    obtain ⟨-, rfl, rfl⟩ | hold := putLine_eq_some hl'
    · exact ⟨hway, isSome_update hkey _ _⟩
    · obtain ⟨hway', hkey'⟩ := h.resident set' way' l' hold
      exact ⟨hway', isSome_update hkey' _ _⟩

/-- `SHiP::replace` writes the first way with the largest value, without an error, and makes
sure that the signature is a key. -/
theorem Ok.replaceInt_eq (h : s.Ok wayN) (hpos : 0 < wayN) (set address : Nat) :
    ∃ way < wayN, ∃ rrpv : List Nat, rrpv.length = wayN ∧ (∀ v ∈ rrpv, v ≤ 3) ∧
      s.tables.replaceInt address (s.rrpvList set) = some (way, rrpv,
        ⟨s.tables.lineOutcome.set way true,
          s.tables.lineSignature.set way (Ship.signature address),
          Function.update s.tables.shct (Ship.signature address)
            (some ((s.tables.shct (Ship.signature address)).getD 0))⟩, []) := by
  have hok : Rrip.Table.Ok wayN ⟨s.rrpvList, 0⟩ := ⟨rfl, h.length, h.le_three⟩
  obtain ⟨m, hmem, hmax⟩ := hok.exists_max hpos set
  obtain ⟨way, hway, hfind, -⟩ := hok.replace_eq hmem hmax
  have hm := h.le_three set m hmem
  have haged : ∀ v ∈ (s.rrpvList set).map (· + (3 - m)), v ≤ 3 := by
    intro v hv
    obtain ⟨u, hu, rfl⟩ := List.mem_map.mp hv
    have hle : u ≤ m := hmax u hu
    omega
  refine ⟨way, hway, ((s.rrpvList set).map (· + (3 - m))).set way
    (if (s.tables.shct (Ship.signature address)).getD 0 = 0 then 3 else 2), ?_, ?_, ?_⟩
  · rw [List.length_set, List.length_map, h.length]
  · refine Rrip.Table.forall_mem_set haged way ?_
    split <;> decide
  · rw [Ship.replaceInt, Rrip.exec_searchRound hmax hm hfind, Option.map_some]
    simp only [Ship.countDown_eq (h.trained way), List.replicate_zero, List.append_nil]
    split
    · rename_i hnew
      simp only [Function.update_self, Function.update_idem, hnew.2, Option.getD_some,
        Option.getD_none]
    · rfl

theorem Ok.replace (h : s.Ok wayN) (hpos : 0 < wayN) (set address : Nat) :
    (s.replace set address).Ok wayN := by
  obtain ⟨way, hway, rrpv, hlen, hle, heq⟩ := h.replaceInt_eq hpos set address
  obtain ⟨hlens, hles⟩ := h.update_rrpv set hlen hle
  simp only [ShipSystem.replace, heq]
  refine ⟨by simp [h.errors], hlens, hles, by simp [h.outcomes], ?_, by simp [h.signatures], ?_,
    ?_⟩
  · refine h.trained_set hway fun way' hne => ?_
    rw [getD_set (h.signatures ▸ hway), if_neg (Ne.symm hne)]
  · intro sig
    rw [← h.counter]
    by_cases hsig : sig = Ship.signature address
    · subst hsig
      simp only [Function.update_self, Option.getD_some]
    · simp only [Function.update_of_ne hsig]
  · intro set' way' l' hl'
    obtain ⟨-, rfl, rfl⟩ | hold := putLine_eq_some hl'
    · simp only [Function.update_self, Option.isSome_some, and_true]
      exact hway
    · obtain ⟨hway', hkey'⟩ := h.resident set' way' l' hold
      exact ⟨hway', isSome_update hkey' _ _⟩

theorem Ok.call (h : s.Ok wayN) (hpos : 0 < wayN) (c : ShipCall) : (s.call c).Ok wayN := by
  cases c with
  | access set way address =>
    rw [ShipSystem.call]
    split
    · rename_i hline
      exact h.access hline
    · exact h
  | replace set address => exact h.replace hpos set address

/-- A call is at most one hit. -/
theorem call_hits (s : ShipSystem) (c : ShipCall) (sig : Int) :
    (s.call c).hits sig = s.hits sig ∨ (s.call c).hits sig = s.hits sig + 1 := by
  cases c with
  | access set way address =>
    rw [call]
    split
    · by_cases hsig : sig = Ship.signature address
      · subst hsig
        exact Or.inr (Function.update_self ..)
      · exact Or.inl (Function.update_of_ne hsig _ _)
    · exact Or.inl rfl
  | replace set address =>
    rw [call, ShipSystem.replace]
    split
    · exact Or.inl rfl
    · exact Or.inl rfl

theorem evict_eq (s : ShipSystem) (set way : Nat) (sig : Int) :
    s.evict set way sig = s.unhit sig ∨ s.evict set way sig = s.unhit sig + 1 := by
  rcases hline : s.lines set way with _ | ⟨address, _ | _⟩
  · exact Or.inl (by rw [evict, hline])
  · rw [evict, hline]
    by_cases hsig : sig = Ship.signature address
    · subst hsig
      exact Or.inr (Function.update_self ..)
    · exact Or.inl (Function.update_of_ne hsig _ _)
  · exact Or.inl (by rw [evict, hline])

/-- A call evicts at most one line. -/
theorem call_unhit (s : ShipSystem) (c : ShipCall) (sig : Int) :
    (s.call c).unhit sig = s.unhit sig ∨ (s.call c).unhit sig = s.unhit sig + 1 := by
  cases c with
  | access set way address =>
    rw [call]
    split
    · exact Or.inl rfl
    · exact Or.inl rfl
  | replace set address =>
    rw [call, ShipSystem.replace]
    split
    · exact evict_eq s set _ sig
    · exact Or.inl rfl

/-- The tables are as the comments of the source want them. -/
structure Consistent (wayN : Nat) (s : ShipSystem) : Prop where
  errors : s.errors = []
  range : ∀ set, (s.rrpvList set).length = wayN ∧ ∀ v ∈ s.rrpvList set, v ≤ 3
  /-- The search of `SHiP::replace` ends. -/
  ends : ∀ set address, (s.tables.replaceInt address (s.rrpvList set)).isSome
  resident : ∀ set way l, s.lines set way = some l →
    (s.tables.shct (Ship.signature l.address)).isSome
  nonneg : ∀ sig n, s.tables.shct sig = some n → 0 ≤ n

/-- No signature was hit more often than an `int` counts. -/
def HitsFit (s : ShipSystem) : Prop := ∀ sig, s.hits sig < 2147483648

theorem Ok.consistent (h : s.Ok wayN) (hpos : 0 < wayN) (hfit : s.HitsFit) :
    s.Consistent wayN where
  errors := h.errors
  range set := ⟨h.length set, h.le_three set⟩
  ends set address := by
    obtain ⟨way, -, rrpv, -, -, heq⟩ := h.replaceInt_eq hpos set address
    rw [heq]
    rfl
  resident set way l hl := (h.resident set way l hl).2
  nonneg sig n hn := by
    have hcount := h.counter sig
    rw [hn, Option.getD_some, int32_of_lt (hfit sig)] at hcount
    omega

/-- The hit that overflows its counter leaves a negative one. -/
theorem Ok.negative (h : s.Ok wayN) (sig : Int) (hits : s.hits sig = 2147483648) :
    s.tables.shct sig = some (-2147483648) := by
  have hcount := h.counter sig
  rw [hits] at hcount
  cases hshct : s.tables.shct sig with
  | none =>
    rw [hshct] at hcount
    exact absurd hcount (by decide)
  | some n =>
    rw [hshct, Option.getD_some] at hcount
    rw [hcount]
    rfl

theorem init_hitsFit : (init wayN).HitsFit := fun _ => Nat.zero_lt_succ _

theorem hitsFit_of_call {c : ShipCall} (h : (s.call c).HitsFit) : s.HitsFit := by
  intro sig
  have hlt := h sig
  have := call_hits s c sig
  omega

/-- In every state of a run of SHiP the tables are consistent, unless some signature was hit
more often than an `int` counts. -/
theorem run_consistent_iff (hpos : 0 < wayN) (calls : List ShipCall) :
    Transition.Always call (Consistent wayN) (init wayN) calls ↔
      ∀ sig, (Transition.run call (init wayN) calls).hits sig < 2147483648 := by
  refine Transition.always_iff (I := Ok wayN) (P := Consistent wayN) (B := HitsFit)
    (fun s c h => h.call hpos c) (fun s c _ h => hitsFit_of_call h)
    (fun s h hfit => h.consistent hpos hfit) ?_ init_ok init_hitsFit calls
  intro s c h hfit hnext sig
  by_contra hlarge
  have hbefore := hfit sig
  have hone := call_hits s c sig
  have hneg := (h.call hpos c).negative sig (by omega)
  exact absurd (hnext.nonneg sig _ hneg) (by decide)

/-- A run has at most as many hits as calls. -/
theorem run_hits_le (s : ShipSystem) (calls : List ShipCall) (sig : Int) :
    (Transition.run call s calls).hits sig ≤ s.hits sig + calls.length := by
  induction calls generalizing s with
  | nil => exact le_rfl
  | cons c calls ih =>
    have hrest := ih (s.call c)
    have hone := call_hits s c sig
    rw [Transition.run_cons, List.length_cons]
    omega

theorem run_consistent_twoLines :
    Transition.Always call (Consistent 2) (init 2)
      [.replace 0 65536, .access 0 0 65536, .replace 0 131072, .access 0 1 131072] := by
  refine (run_consistent_iff (by decide) _).mpr fun sig => ?_
  exact (run_hits_le (init 2) _ sig).trans_lt (by simp [init])

/-- Hits of one line, as often as one likes. -/
theorem run_replicate_access {set way address : Nat} (n : Nat)
    (hline : (s.lines set way).map ShipLine.address = some address) :
    (Transition.run call s (List.replicate n (.access set way address))).hits
      (Ship.signature address) = s.hits (Ship.signature address) + n := by
  induction n generalizing s with
  | zero => rfl
  | succ n ih =>
    have hcall : s.call (.access set way address) = s.access set way address := if_pos hline
    have hline' : ((s.access set way address).lines set way).map ShipLine.address =
        some address := by
      simp [access, putLine]
    have hits : (s.access set way address).hits (Ship.signature address) =
        s.hits (Ship.signature address) + 1 := Function.update_self ..
    rw [List.replicate_succ, Transition.run_cons, hcall, ih hline', hits]
    omega

/-- One line that is hit `n` times. -/
def manyHits (n : Nat) : List ShipCall :=
  .replace 0 65536 :: List.replicate n (.access 0 0 65536)

theorem manyHits_hits (n : Nat) : (Transition.run call (init 1) (manyHits n)).hits 1 = n := by
  have h := run_replicate_access (s := (init 1).call (.replace 0 65536)) n
    (show (((init 1).call (.replace 0 65536)).lines 0 0).map ShipLine.address = some 65536
      by decide)
  rw [manyHits, Transition.run_cons]
  exact h.trans (Nat.zero_add n)

theorem manyHits_not_consistent {n : Nat} (hn : n = 2147483648) :
    (Transition.run call (init 1) (manyHits n)).tables.shct 1 = some (-2147483648) ∧
      ¬ Transition.Always call (Consistent 1) (init 1) (manyHits n) := by
  have hok : (Transition.run call (init 1) (manyHits n)).Ok 1 :=
    Transition.run_invariant (fun _ c h => h.call (by decide) c) init_ok _
  have hneg := hok.negative 1 ((manyHits_hits n).trans hn)
  refine ⟨hneg, fun h => ?_⟩
  have hend := h (manyHits n).length
  rw [List.take_length] at hend
  exact absurd (hend.nonneg 1 _ hneg) (by decide)

/-- `2 ^ 31` hits of one line overflow the counter of its signature. -/
theorem hits_overflow_not_consistent :
    (Transition.run call (init 1) (manyHits 2147483648)).tables.shct 1 = some (-2147483648) ∧
      ¬ Transition.Always call (Consistent 1) (init 1) (manyHits 2147483648) :=
  manyHits_not_consistent rfl

/-- Each counter is the number of hits of its signature less the evictions of lines of that
signature that were not hit. -/
def TrainingLaw (s : ShipSystem) : Prop :=
  ∀ sig, (s.tables.shct sig).getD 0 = (s.hits sig : Int) - s.unhit sig

/-- The training law holds in every state of a run exactly if no line was evicted without a
hit, and no signature was hit more often than an `int` counts. -/
theorem run_trainingLaw_iff (hpos : 0 < wayN) (calls : List ShipCall) :
    Transition.Always call TrainingLaw (init wayN) calls ↔
      (∀ sig, (Transition.run call (init wayN) calls).unhit sig = 0) ∧
        ∀ sig, (Transition.run call (init wayN) calls).hits sig < 2147483648 := by
  refine Transition.always_iff (I := Ok wayN) (P := TrainingLaw)
    (B := fun s => (∀ sig, s.unhit sig = 0) ∧ s.HitsFit) (fun s c h => h.call hpos c) ?_ ?_ ?_
    init_ok ⟨fun _ => rfl, init_hitsFit⟩ calls
  · rintro s c - ⟨hunhit, hfit⟩
    refine ⟨fun sig => ?_, hitsFit_of_call hfit⟩
    have hzero := hunhit sig
    have := call_unhit s c sig
    omega
  · rintro s h ⟨hunhit, hfit⟩ sig
    rw [h.counter, int32_of_lt (hfit sig), hunhit sig]
    omega
  · rintro s c h ⟨hunhit, hfit⟩ hlaw
    have hboth : ∀ sig, (s.call c).unhit sig = 0 ∧ (s.call c).hits sig < 2147483648 := by
      intro sig
      have hlaw := hlaw sig
      have hzero := hunhit sig
      have hbefore := hfit sig
      have hhits := call_hits s c sig
      have hunhits := call_unhit s c sig
      rw [(h.call hpos c).counter, int32] at hlaw
      omega
    exact ⟨fun sig => (hboth sig).1, fun sig => (hboth sig).2⟩

theorem run_trainingLaw_hit_before_eviction :
    Transition.Always call TrainingLaw (init 1)
      [.replace 0 65536, .access 0 0 65536, .replace 0 131072] := by
  refine (run_trainingLaw_iff (by decide) _).mpr ⟨fun sig => ?_, fun sig => ?_⟩
  · rfl
  · exact (run_hits_le (init 1) _ sig).trans_lt (by simp [init])

/-- A line that is hit, and another one of the same signature that leaves without a hit: the
law gives `1 - 1`, the counter stays at `1`. -/
theorem unhit_eviction_not_counted :
    let s := Transition.run call (init 1)
      [.replace 0 65536, .access 0 0 65536, .replace 0 65600, .replace 0 131072]
    s.hits 1 = 1 ∧ s.unhit 1 = 1 ∧ s.tables.shct 1 = some 1 ∧ ¬ s.TrainingLaw := by
  refine ⟨by decide, by decide, by decide, fun h => ?_⟩
  exact absurd (h 1) (by decide)

end ShipSystem

end GcnSim
