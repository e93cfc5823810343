import GcnSim.Reader.VertexBlock

/-!
# Feature lines of a pass

`pop_count` decides when a pass requests a feature line: with every row that brings it to
`CACHE_LINE_COUNT - 1`, and with the next to last row of the graph, which also resets it. It
runs on from pass to pass and from block to block. The counts of all passes are therefore
determined by the row count, the block size and the line size alone.
-/

namespace GcnSim

namespace Params

variable (P : Params)

/-- The `pop_count` steps of a taken row: the new count, and the feature lines requested. -/
def popStep (row c : Nat) : Nat × Nat :=
  (if c + 1 = P.cacheLineCount ∨ row = P.aH - 1 then 0 else c + 1,
    if c + 1 = P.cacheLineCount - 1 ∨ row = P.aH - 1 then 1 else 0)

/-- The count after `n` rows taken after row `r` with count `c`, and the feature lines they
requested. -/
def walk (c r : Nat) : Nat → Nat × Nat
  | 0 => (c, 0)
  | n + 1 => ((P.popStep (r + n + 1) (walk c r n).1).1,
      (walk c r n).2 + (P.popStep (r + n + 1) (walk c r n).1).2)

/-- The number of rows of block `b`. -/
def rows (b : Nat) : Nat := P.blockEnd b - P.blockStart b

/-- A pass over block `b` that starts with count `c`. -/
def passWalk (b c : Nat) : Nat × Nat := P.walk c (P.blockStart b) (P.rows b)

/-- The count in front of pass `p` over a block that is entered with count `c`. -/
def countAfter (b c : Nat) : Nat → Nat
  | 0 => c
  | p + 1 => (P.passWalk b (countAfter b c p)).1

/-- The count in front of the first pass over block `b`. -/
def blockCountStart : Nat → Nat
  | 0 => 0
  | b + 1 => P.countAfter b (blockCountStart b) P.wW

/-- The count in front of pass `p` over block `b`. -/
def passCountStart (b p : Nat) : Nat := P.countAfter b (P.blockCountStart b) p

/-- The feature lines that pass `p` over block `b` requests. -/
def passRequests (b p : Nat) : Nat := (P.passWalk b (P.passCountStart b p)).2

variable {P}

theorem passCountStart_zero (b : Nat) : P.passCountStart b 0 = P.blockCountStart b := rfl

theorem passCountStart_succ (b p : Nat) :
    P.passCountStart b (p + 1) = (P.passWalk b (P.passCountStart b p)).1 := rfl

theorem blockCountStart_succ (b : Nat) :
    P.blockCountStart (b + 1) = P.passCountStart b P.wW := rfl

/-- The next number modulo the line size. -/
theorem succ_mod_eq {m : Nat} (hm : 0 < m) (k : Nat) :
    (k + 1) % m = if k % m + 1 = m then 0 else k % m + 1 := by
  have hlt := Nat.mod_lt k hm
  have hsplit : k + 1 = m * (k / m) + (k % m + 1) := by
    have := Nat.div_add_mod k m
    omega
  rw [hsplit, Nat.mul_add_mod]
  split
  · rename_i hfull
    rw [hfull, Nat.mod_self]
  · exact Nat.mod_eq_of_lt (by omega)

/-- One more line is full exactly with the number that is two short of it. -/
theorem add_two_div_eq {m : Nat} (hm : 2 ≤ m) (k : Nat) :
    (k + 2) / m = (k + 1) / m + if k % m + 1 = m - 1 then 1 else 0 := by
  have hlt := Nat.mod_lt k (show 0 < m by omega)
  have hdvd : m ∣ k + 1 + 1 ↔ k % m + 1 = m - 1 := by
    have hsplit : k + 1 + 1 = m * (k / m) + (k % m + 2) := by
      have := Nat.div_add_mod k m
      omega
    rw [hsplit, Nat.dvd_add_right (Nat.dvd_mul_right m _)]
    constructor
    · intro h
      have hle := Nat.le_of_dvd (by omega) h
      rcases Nat.lt_or_ge (k % m + 2) (m + 1) with hsmall | hlarge
      · omega
      · have heq : k % m + 2 = m + 1 := by omega
        rw [heq, Nat.dvd_add_right (Nat.dvd_refl m), Nat.dvd_one] at h
        omega
    · intro h
      rw [show k % m + 2 = m by omega]
  rw [show k + 2 = k + 1 + 1 from rfl, Nat.succ_div]
  simp only [hdvd]

/-- A pass that ends with the next to last row leaves the count at zero. -/
theorem walk_reset {c r n : Nat} (hend : r + (n + 1) = P.aH - 1) : (P.walk c r (n + 1)).1 = 0 := by
  have hspecial : r + n + 1 = P.aH - 1 := by omega
  simp only [walk, popStep, hspecial, or_true, if_true]

section Walk

variable (hclc : 2 ≤ P.cacheLineCount)
include hclc

/-- Rows other than the next to last one count modulo the line size. -/
theorem walk_plain {c r n : Nat} (hc : c < P.cacheLineCount)
    (hplain : ∀ k < n, r + k + 1 ≠ P.aH - 1) :
    (P.walk c r n).1 = (c + n) % P.cacheLineCount ∧
      (P.walk c r n).2 + (c + 1) / P.cacheLineCount = (c + n + 1) / P.cacheLineCount := by
  induction n with
  | zero => exact ⟨(Nat.mod_eq_of_lt hc).symm, Nat.zero_add _⟩
  | succ n ih =>
    obtain ⟨hcount, hreq⟩ := ih fun k hk => hplain k (by omega)
    have hrow := hplain n (by omega)
    simp only [walk, popStep, hcount, hrow, or_false]
    exact ⟨(succ_mod_eq P.cacheLineCount_pos _).symm, by
      rw [Nat.add_right_comm, hreq]
      exact (add_two_div_eq hclc _).symm⟩

/-- The last two rows of the graph: the first of them requests a line and resets the count,
which then stands at one. -/
theorem walk_last {c r n : Nat} (hc : c < P.cacheLineCount) (hend : r + (n + 2) = P.aH) :
    (P.walk c r (n + 2)).1 = 1 ∧
      (P.walk c r (n + 2)).2 + (c + 1) / P.cacheLineCount = (c + n + 1) / P.cacheLineCount + 1 +
        if P.cacheLineCount = 2 then 1 else 0 := by
  obtain ⟨-, hreq⟩ := walk_plain hclc hc (r := r) (n := n) fun k hk => by omega
  have hspecial : r + n + 1 = P.aH - 1 := by omega
  have hlast : r + (n + 1) + 1 ≠ P.aH - 1 := by omega
  have hone : 1 ≠ P.cacheLineCount := by omega
  have hline : 1 = P.cacheLineCount - 1 ↔ P.cacheLineCount = 2 := by omega
  simp only [walk, popStep, hspecial, hlast, or_true, or_false, if_true, Nat.zero_add, hone,
    if_false, hline, true_and]
  omega

end Walk

section Blocks

/-- A block before the last one is full. -/
theorem rows_of_succ_lt {b : Nat} (hb : b + 1 < P.blockCount) :
    P.rows b = P.maxV ∧ P.blockStart b + P.maxV < P.aH := by
  have hend := blockEnd_eq_blockStart_succ hb
  have hlt := lt_blockCount_iff.mp hb
  rw [blockStart_succ] at hend hlt
  rw [rows]
  omega

/-- The last block ends with the last row. -/
theorem rows_last {b : Nat} (hb : b + 1 = P.blockCount) : P.blockStart b + P.rows b = P.aH := by
  have hend := blockEnd_last (P := P) (b := b) (by omega)
  have hlt := lt_blockCount_iff.mp (show b < P.blockCount by omega)
  rw [rows]
  omega

theorem rows_pos {b : Nat} (hb : b < P.blockCount) : 0 < P.rows b := by
  have := blockStart_lt_blockEnd hb
  rw [rows]
  omega

/-- In a block before the last one the count runs modulo the line size, unless the block
ends with the next to last row. -/
theorem passWalk_plain (hclc : 2 ≤ P.cacheLineCount) {b c : Nat} (hb : b + 1 < P.blockCount)
    (hne : P.blockStart b + P.maxV ≠ P.aH - 1) (hc : c < P.cacheLineCount) :
    (P.passWalk b c).1 = (c + P.maxV) % P.cacheLineCount ∧
      (P.passWalk b c).2 + (c + 1) / P.cacheLineCount = (c + P.maxV + 1) / P.cacheLineCount := by
  obtain ⟨hrows, hlt⟩ := rows_of_succ_lt hb
  rw [passWalk, hrows]
  exact walk_plain hclc hc fun k hk => by omega

/-- A pass over a last block of at least two rows leaves the count at one. -/
theorem passWalk_last (hclc : 2 ≤ P.cacheLineCount) {b c : Nat} (hb : b + 1 = P.blockCount)
    (htwo : 2 ≤ P.rows b) (hc : c < P.cacheLineCount) :
    (P.passWalk b c).1 = 1 ∧
      (P.passWalk b c).2 + (c + 1) / P.cacheLineCount =
        (c + P.rows b - 1) / P.cacheLineCount + 1 + if P.cacheLineCount = 2 then 1 else 0 := by
  obtain ⟨n, hn⟩ := Nat.exists_eq_add_of_le' htwo
  have h := walk_last hclc hc (hn ▸ rows_last hb : P.blockStart b + (n + 2) = P.aH)
  rw [passWalk, hn, show c + (n + 2) - 1 = c + n + 1 by omega]
  exact h

/-- With full lines in every block the passes before the last block start with count zero. -/
theorem blockCountStart_eq_zero (hclc : 2 ≤ P.cacheLineCount)
    (hplain : ∀ b, b + 1 < P.blockCount → P.blockStart b + P.maxV ≠ P.aH - 1)
    (hfull : 1 < P.blockCount → P.cacheLineCount ∣ P.maxV) {b : Nat} (hb : b < P.blockCount) :
    P.blockCountStart b = 0 ∧ (b + 1 < P.blockCount → ∀ p, P.passCountStart b p = 0) := by
  have hpasses : ∀ b, b + 1 < P.blockCount → P.blockCountStart b = 0 →
      ∀ p, P.passCountStart b p = 0 := by
    intro b hb hzero p
    induction p with
    | zero => exact hzero
    | succ p ih =>
      rw [passCountStart_succ, ih, (passWalk_plain hclc hb (hplain b hb) (by omega)).1,
        Nat.zero_add]
      exact Nat.mod_eq_zero_of_dvd (hfull (by omega))
  have hblocks : ∀ b, b < P.blockCount → P.blockCountStart b = 0 := by
    intro b
    induction b with
    | zero => exact fun _ => rfl
    | succ b ih =>
      intro hb
      rw [blockCountStart_succ]
      exact hpasses b hb (ih (by omega)) P.wW
  exact ⟨hblocks b hb, fun h => hpasses b h (hblocks b hb)⟩

/-- Every pass but the first over the last block starts with count one. -/
theorem passCountStart_last (hclc : 2 ≤ P.cacheLineCount) {b : Nat} (hb : b + 1 = P.blockCount)
    (htwo : 2 ≤ P.rows b) (hzero : P.blockCountStart b = 0) (p : Nat) :
    P.passCountStart b (p + 1) = 1 := by
  induction p with
  | zero =>
    rw [passCountStart_succ, passCountStart_zero, hzero]
    exact (passWalk_last hclc hb htwo (by omega)).1
  | succ p ih =>
    rw [passCountStart_succ, ih]
    exact (passWalk_last hclc hb htwo (by omega)).1

/-- The passes request as many lines as the rows of their block fill. -/
def PassesFill (P : Params) : Prop :=
  ∀ b < P.blockCount, ∀ p < P.wW, P.passRequests b p = ceilDiv (P.rows b) P.cacheLineCount

/-- The shapes for which the count does not drift: lines of at least three rows, which the
graph does not fill exactly, and either one block or blocks of full lines with at least two
rows in the last one. -/
def CountsInStep (P : Params) : Prop :=
  3 ≤ P.cacheLineCount ∧ ¬ P.cacheLineCount ∣ P.aH ∧
    (P.aH ≤ P.maxV ∨ P.cacheLineCount ∣ P.maxV ∧ P.aH % P.maxV ≠ 1)

/-- No block but the last one has the next to last row, and blocks before it are full lines. -/
theorem CountsInStep.plain (h : P.CountsInStep) {b : Nat} (hb : b + 1 < P.blockCount) :
    P.cacheLineCount ∣ P.maxV ∧ P.blockStart b + P.maxV ≠ P.aH - 1 := by
  obtain ⟨hthree, -, hshape⟩ := h
  obtain ⟨-, hlt⟩ := rows_of_succ_lt hb
  rcases hshape with hone | ⟨hdvd, hmod⟩
  · omega
  · refine ⟨hdvd, fun hend => hmod ?_⟩
    have hle := Nat.le_of_dvd P.maxV_pos hdvd
    have haH : P.aH = (b + 1) * P.maxV + 1 := by
      rw [blockStart] at hend hlt
      rw [Nat.succ_mul]
      omega
    rw [haH, Nat.mul_add_mod_self_right]
    exact Nat.mod_eq_of_lt (by omega)

/-- If the next to last row ends no block, the last block has at least two rows. -/
theorem two_le_rows_last (ha : 2 ≤ P.aH)
    (hplain : ∀ b, b + 1 < P.blockCount → P.blockStart b + P.maxV ≠ P.aH - 1) {b : Nat}
    (hb : b + 1 = P.blockCount) : 2 ≤ P.rows b := by
  have hpos := rows_pos (show b < P.blockCount by omega)
  have hrows := rows_last hb
  cases b with
  | zero =>
    rw [blockStart_zero] at hrows
    omega
  | succ b =>
    have hne := hplain b (by omega)
    rw [blockStart_succ] at hrows
    omega

/-- With full lines in the blocks before it, the last block fills lines exactly when the
graph does. -/
theorem dvd_rows_last_iff (hfull : 1 < P.blockCount → P.cacheLineCount ∣ P.maxV) {b : Nat}
    (hb : b + 1 = P.blockCount) : P.cacheLineCount ∣ P.rows b ↔ P.cacheLineCount ∣ P.aH := by
  have hstart : P.cacheLineCount ∣ P.blockStart b := by
    cases b with
    | zero =>
      rw [blockStart_zero]
      exact Nat.dvd_zero _
    | succ b => exact (hfull (by omega)).mul_left _
  rw [← rows_last hb, Nat.dvd_add_right hstart]

/-- Shapes whose count does not drift request what they should. -/
theorem CountsInStep.passesFill (h : P.CountsInStep) (ha : 2 ≤ P.aH) : P.PassesFill := by
  have hthree := h.1
  have hplain : ∀ b, b + 1 < P.blockCount → P.blockStart b + P.maxV ≠ P.aH - 1 :=
    fun b hb => (h.plain hb).2
  have hfull : 1 < P.blockCount → P.cacheLineCount ∣ P.maxV := fun hB =>
    (h.plain (b := 0) hB).1
  have hsmall : ∀ k < P.cacheLineCount, k / P.cacheLineCount = 0 := fun k => Nat.div_eq_of_lt
  intro b hb p hp
  obtain ⟨hzero, hpasses⟩ := blockCountStart_eq_zero (by omega) hplain hfull hb
  by_cases hlast : b + 1 < P.blockCount
  · have hdvd := hfull (by omega)
    have hwalk := (passWalk_plain (by omega) hlast (hplain b hlast)
      (show 0 < P.cacheLineCount by omega)).2
    rw [Nat.zero_add, Nat.zero_add, hsmall 1 (by omega), Nat.add_zero, Nat.succ_div, if_neg,
      Nat.add_zero] at hwalk
    · rw [passRequests, hpasses hlast, hwalk, (rows_of_succ_lt hlast).1,
        ceilDiv_eq P.cacheLineCount_pos, if_pos hdvd, Nat.add_zero]
    · intro hnext
      have := Nat.le_of_dvd Nat.one_pos ((Nat.dvd_add_right hdvd).mp hnext)
      omega
  · have hL : b + 1 = P.blockCount := by omega
    have htwo := two_le_rows_last ha hplain hL
    rw [passRequests]
    cases p with
    | zero =>
      have hwalk := (passWalk_last (by omega) hL htwo (show 0 < P.cacheLineCount by omega)).2
      rw [hsmall _ (by omega), if_neg (by omega), Nat.zero_add] at hwalk
      rw [passCountStart_zero, hzero, ceilDiv_of_pos (rows_pos hb) P.cacheLineCount_pos]
      exact hwalk
    | succ p =>
      have hwalk := (passWalk_last (by omega) hL htwo (show 1 < P.cacheLineCount by omega)).2
      rw [hsmall _ (by omega), if_neg (by omega), Nat.add_sub_cancel_left] at hwalk
      rw [passCountStart_last (by omega) hL htwo hzero, ceilDiv_eq P.cacheLineCount_pos,
        if_neg ((dvd_rows_last_iff hfull hL).not.mpr h.2.1)]
      exact hwalk

/-- If the next to last row ends a block, the last block is one row; its first two passes
request a line both only if the line size is two and three. -/
theorem PassesFill.plain (h : P.PassesFill) (hclc : 2 ≤ P.cacheLineCount) (hw : 2 ≤ P.wW)
    {b : Nat} (hb : b + 1 < P.blockCount) : P.blockStart b + P.maxV ≠ P.aH - 1 := by
  intro hend
  obtain ⟨hrows, hlt⟩ := rows_of_succ_lt hb
  have hreset : ∀ p, P.passCountStart b (p + 1) = 0 := by
    intro p
    obtain ⟨n, hn⟩ := Nat.exists_eq_add_of_le' P.maxV_pos
    rw [passCountStart_succ, passWalk, hrows, hn]
    exact walk_reset (by rw [← hn]; exact hend)
  have hzero : P.blockCountStart (b + 1) = 0 := by
    rw [blockCountStart_succ, show P.wW = P.wW - 1 + 1 by omega]
    exact hreset _
  have hL : b + 1 + 1 = P.blockCount := by
    by_contra hne
    have hnext := lt_blockCount_iff.mp (show b + 1 + 1 < P.blockCount by omega)
    have := P.maxV_pos
    rw [blockStart_succ, blockStart_succ] at hnext
    omega
  have hone : P.rows (b + 1) = 1 := by
    have hlast := rows_last hL
    rw [blockStart_succ] at hlast
    omega
  have hstep : ∀ c < P.cacheLineCount, (P.passWalk (b + 1) c).1 = (c + 1) % P.cacheLineCount ∧
      (P.passWalk (b + 1) c).2 + (c + 1) / P.cacheLineCount = (c + 2) / P.cacheLineCount := by
    intro c hc
    have hlast := rows_last hL
    rw [passWalk, hone]
    exact walk_plain hclc hc fun k hk => by omega
  have hfirst := h (b + 1) hb 0 (by omega)
  have hsecond := h (b + 1) hb 1 (by omega)
  obtain ⟨hcount, hreq⟩ := hstep 0 (by omega)
  rw [passRequests, passCountStart_zero, hzero, hone, ceilDiv_of_pos Nat.one_pos (by omega),
    Nat.sub_self, Nat.zero_div] at hfirst
  rw [hfirst, Nat.zero_add, Nat.div_eq_of_lt (by omega)] at hreq
  have htwo : P.cacheLineCount = 2 := by
    by_contra hne
    rw [Nat.div_eq_of_lt (by omega)] at hreq
    omega
  rw [passRequests, passCountStart_succ, passCountStart_zero, hzero, hcount, hone, htwo] at hsecond
  have hreq' := (hstep 1 (by omega)).2
  rw [htwo] at hreq'
  have hsize : (P.passWalk (b + 1) 1).2 = 1 := hsecond
  omega

/-- Two passes over a block that does not fill its lines do not request the same. -/
theorem PassesFill.full (h : P.PassesFill) (hclc : 2 ≤ P.cacheLineCount) (hw : 2 ≤ P.wW)
    (hB : 1 < P.blockCount) : P.cacheLineCount ∣ P.maxV := by
  have hne := h.plain hclc hw (b := 0) hB
  obtain ⟨hrows, -⟩ := rows_of_succ_lt (P := P) (b := 0) hB
  obtain ⟨hcount, hreq⟩ := passWalk_plain hclc hB hne (show 0 < P.cacheLineCount by omega)
  have hfirst := h 0 P.blockCount_pos 0 (by omega)
  have hsecond := h 0 P.blockCount_pos 1 (by omega)
  have hstart : P.blockCountStart 0 = 0 := rfl
  rw [passRequests, passCountStart_zero, hstart, hrows, ceilDiv_eq P.cacheLineCount_pos] at hfirst
  rw [passRequests, passCountStart_succ, passCountStart_zero, hstart, hcount, hrows,
    ceilDiv_eq P.cacheLineCount_pos] at hsecond
  by_contra hdvd
  rw [if_neg hdvd] at hfirst hsecond
  rw [hfirst, Nat.zero_add, Nat.zero_add, Nat.div_eq_of_lt (a := 1) (by omega), Nat.succ_div] at hreq
  -- Only a block that is one row short of full lines requests enough in its first pass.
  have hshort : P.maxV % P.cacheLineCount + 1 = P.cacheLineCount := by
    have hnext : P.cacheLineCount ∣ P.maxV + 1 := by
      by_contra hnot
      rw [if_neg hnot] at hreq
      omega
    have hmod := succ_mod_eq P.cacheLineCount_pos P.maxV
    rw [Nat.mod_eq_zero_of_dvd hnext] at hmod
    by_contra hnot
    rw [if_neg hnot] at hmod
    omega
  rw [Nat.zero_add] at hsecond
  have hreq' := (passWalk_plain hclc hB hne
    (show P.maxV % P.cacheLineCount < P.cacheLineCount by omega)).2
  rw [hsecond, hshort, Nat.div_self P.cacheLineCount_pos,
    show P.maxV % P.cacheLineCount + P.maxV + 1 = P.maxV + P.cacheLineCount by omega,
    Nat.add_div_right _ P.cacheLineCount_pos] at hreq'
  omega

/-- The passes request what they should only in shapes whose count does not drift. -/
theorem PassesFill.countsInStep (h : P.PassesFill) (ha : 2 ≤ P.aH)
    (hclc : 2 ≤ P.cacheLineCount) (hw : 2 ≤ P.wW) : P.CountsInStep := by
  have hplain : ∀ b, b + 1 < P.blockCount → P.blockStart b + P.maxV ≠ P.aH - 1 :=
    fun b hb => h.plain hclc hw hb
  have hfull := h.full hclc hw
  obtain ⟨L, hL⟩ : ∃ L, L + 1 = P.blockCount := ⟨P.blockCount - 1, by
    have := P.blockCount_pos
    omega⟩
  have hlt : L < P.blockCount := by omega
  have htwo := two_le_rows_last ha hplain hL
  have hzero := (blockCountStart_eq_zero hclc hplain hfull hlt).1
  have hthree : 3 ≤ P.cacheLineCount := by
    have hfirst := h L hlt 0 (by omega)
    have hreq := (passWalk_last hclc hL htwo (show 0 < P.cacheLineCount by omega)).2
    rw [passRequests, passCountStart_zero, hzero,
      ceilDiv_of_pos (rows_pos hlt) P.cacheLineCount_pos] at hfirst
    rw [hfirst, Nat.zero_add, Nat.div_eq_of_lt (a := 1) (by omega), Nat.zero_add] at hreq
    by_contra hnot
    rw [if_pos (by omega)] at hreq
    omega
  refine ⟨hthree, ?_, ?_⟩
  · have hsecond := h L hlt 1 (by omega)
    have hreq := (passWalk_last hclc hL htwo (show 1 < P.cacheLineCount by omega)).2
    rw [passRequests, passCountStart_last hclc hL htwo hzero, ceilDiv_eq P.cacheLineCount_pos]
      at hsecond
    rw [hsecond, Nat.div_eq_of_lt (a := 1 + 1) (by omega), Nat.add_sub_cancel_left,
      if_neg (show P.cacheLineCount ≠ 2 by omega)] at hreq
    rw [← dvd_rows_last_iff hfull hL]
    intro hdvd
    rw [if_pos hdvd] at hreq
    omega
  · by_cases hone : P.aH ≤ P.maxV
    · exact .inl hone
    · have hB : 1 < P.blockCount := by
        rw [lt_blockCount_iff, blockStart, Nat.one_mul]
        omega
      refine .inr ⟨hfull hB, fun hmod => ?_⟩
      -- One row over full blocks would make the next to last row end a block.
      have hsplit := Nat.div_add_mod P.aH P.maxV
      rw [hmod] at hsplit
      have hq : 1 ≤ P.aH / P.maxV := (Nat.one_le_div_iff P.maxV_pos).mpr (by omega)
      have hend : P.blockStart (P.aH / P.maxV - 1) + P.maxV = P.aH - 1 := by
        rw [← blockStart_succ, Nat.sub_add_cancel hq, blockStart, Nat.mul_comm]
        omega
      refine hplain (P.aH / P.maxV - 1) ?_ hend
      rw [lt_blockCount_iff, blockStart_succ]
      omega

/-- Every pass requests the lines its rows fill exactly in shapes whose count does not
drift. -/
theorem passesFill_iff (ha : 2 ≤ P.aH) (hclc : 2 ≤ P.cacheLineCount) (hw : 2 ≤ P.wW) :
    P.PassesFill ↔ P.CountsInStep :=
  ⟨fun h => h.countsInStep ha hclc hw, fun h => h.passesFill ha⟩

end Blocks

end Params

end GcnSim
