import GcnSim.Core.Machine

/-!
# Replacement policies of the feature cache

The policies keep their own books apart from the tag arrays of the cache: FIFO and
LRU a pair of parallel lists for each set, RRIP a prediction value for each way,
SHiP in addition an outcome and a signature for each way and a table of counters
that all sets share. `FIFO::clear` and `LRU::clear` are never called by the cache.
-/

namespace GcnSim

/-- `fifoList[set]` and `fifoWeightBlkIdx[set]`, resp. `lruList[set]` and
`lruWeightBlkIdx[set]`. -/
structure PolicyList where
  data : List Int
  weightBlkIdx : List Int
  deriving DecidableEq, Repr

namespace Fifo

/-- `FIFO::access`: the newest line is the last one. -/
def access (data weightBlkIdx : Int) (l : PolicyList) : PolicyList :=
  ⟨l.data ++ [data], l.weightBlkIdx ++ [weightBlkIdx]⟩

/-- `FIFO::replace`; `junk` is what the first entry of an empty vector reads as. -/
def replace (junk : Int × Int) (l : PolicyList) : (Int × Int) × PolicyList :=
  ((l.data.headD junk.1, l.weightBlkIdx.headD junk.2), ⟨l.data.tail, l.weightBlkIdx.tail⟩)

end Fifo

namespace Lru

/-- The loop of `LRU::access` that erases the line. It advances after an erasure too, so
the entry that moves to the erased place is not looked at. -/
def scan (data weightBlkIdx : Int) : List Int → List Int → List Int × List Int
  | x :: xs, y :: ys =>
    if x = data ∧ y = weightBlkIdx then
      match xs, ys with
      | x' :: xs, y' :: ys =>
        let r := scan data weightBlkIdx xs ys
        (x' :: r.1, y' :: r.2)
      | xs, ys => (xs, ys)
    else
      let r := scan data weightBlkIdx xs ys
      (x :: r.1, y :: r.2)
  | xs, ys => (xs, ys)

/-- `LRU::access`: the line used last is the first one. -/
def access (data weightBlkIdx : Int) (l : PolicyList) : PolicyList :=
  let r := scan data weightBlkIdx l.data l.weightBlkIdx
  ⟨data :: r.1, weightBlkIdx :: r.2⟩

/-- `LRU::replace`; `junk` is what the last entry of an empty vector reads as. -/
def replace (junk : Int × Int) (l : PolicyList) : (Int × Int) × PolicyList :=
  ((l.data.getLastD junk.1, l.weightBlkIdx.getLastD junk.2),
    ⟨l.data.dropLast, l.weightBlkIdx.dropLast⟩)

end Lru

namespace Rrip

/-- The loop of `RRIP::replace` that looks for the first value `3` and counts all values up
as long as there is none. Four rounds are enough for values up to `3`; `none` stands for
a loop that goes on. -/
def search : Nat → List Nat → Option (Nat × List Nat)
  | 0, _ => none
  | rounds + 1, rrpv =>
    match rrpv.findIdx? (· = 3) with
    | some way => some (way, rrpv)
    | none => search rounds (rrpv.map fun v => if v < 3 then v + 1 else v)

/-- The search finds a way within the rounds that bring some value up to `3`. -/
theorem search_spec (rounds : Nat) (rrpv : List Nat) (hle : ∀ v ∈ rrpv, v ≤ 3)
    (hmem : ∃ v ∈ rrpv, 3 < v + rounds) :
    ∃ way rrpv', search rounds rrpv = some (way, rrpv') ∧ way < rrpv.length ∧
      rrpv'.length = rrpv.length ∧ ∀ v ∈ rrpv', v ≤ 3 := by
  induction rounds generalizing rrpv with
  | zero =>
    obtain ⟨v, hv, hlt⟩ := hmem
    exact absurd (hle v hv) (Nat.not_le.mpr hlt)
  | succ rounds ih =>
    rw [search]
    cases hfind : rrpv.findIdx? (· = 3) with
    | some way =>
      obtain ⟨hlt, -⟩ := List.findIdx?_eq_some_iff_getElem.mp hfind
      exact ⟨way, rrpv, rfl, hlt, rfl, hle⟩
    | none =>
      have hne : ∀ v ∈ rrpv, v < 3 := by
        intro v hv
        have hv3 := of_decide_eq_false (List.findIdx?_eq_none_iff.mp hfind v hv)
        exact Nat.lt_of_le_of_ne (hle v hv) hv3
      have hup : ∀ v ∈ rrpv.map fun v => if v < 3 then v + 1 else v, v ≤ 3 := by
        intro w hw
        obtain ⟨u, hu, rfl⟩ := List.mem_map.mp hw
        rw [if_pos (hne u hu)]
        exact hne u hu
      have hnext : ∃ v ∈ rrpv.map fun v => if v < 3 then v + 1 else v, 3 < v + rounds := by
        obtain ⟨v, hv, hlt⟩ := hmem
        exact ⟨v + 1, List.mem_map.mpr ⟨v, hv, if_pos (hne v hv)⟩, by omega⟩
      obtain ⟨way, rrpv', heq, hway, hlen, hle'⟩ := ih _ hup hnext
      rw [List.length_map] at hway hlen
      exact ⟨way, rrpv', heq, hway, hlen, hle'⟩

/-- `RRIP::access`. -/
def access (way : Nat) (rrpv : List Nat) : List Nat := rrpv.set way 0

/-- `RRIP::replace`: the way to be replaced and the new values. -/
def replace (rrpv : List Nat) : Option (Nat × List Nat) :=
  (search 4 rrpv).map fun r => (r.1, r.2.set r.1 2)

end Rrip

/-- The tables of SHiP. `lineOutcome` and `lineSignature` have one entry for each way. -/
structure Ship where
  lineOutcome : List Bool
  lineSignature : List Int
  /-- `SHCT`. -/
  shct : Int → Option Int

namespace Ship

/-- The signature of an address, as a key of `SHCT`. -/
def signature (address : Nat) : Int := intOfU64 (address / 65536)

/-- `SHiP::access`: the values of the set and the tables after a hit. -/
def access (way address : Nat) (rrpv : List Nat) (t : Ship) : List Nat × Ship :=
  (rrpv.set way 0, { t with
    lineOutcome := t.lineOutcome.set way true
    shct := match t.shct (signature address) with
      | some n => Function.update t.shct (signature address) (some (n + 1))
      | none => t.shct })

/-- `SHiP::replace`: the way to be replaced, the values of the set and the tables. -/
def replace (address : Nat) (rrpv : List Nat) (t : Ship) : Option (Nat × List Nat × Ship) :=
  (Rrip.search 4 rrpv).map fun r =>
    let way := r.1
    let old := t.lineSignature.getD way (-1)
    let shct := match t.lineOutcome.getD way false, t.shct old with
      | false, some n => if old = -1 then t.shct else Function.update t.shct old (some (n - 1))
      | _, _ => t.shct
    let shct := if old = -1 ∧ shct (signature address) = none then
        Function.update shct (signature address) (some 0) else shct
    let count := (shct (signature address)).getD 0
    (way, r.2.set way (if count = 0 then 3 else 2),
      ⟨t.lineOutcome.set way true, t.lineSignature.set way (signature address),
        Function.update shct (signature address) (some count)⟩)

end Ship

end GcnSim
