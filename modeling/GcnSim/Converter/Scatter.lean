import GcnSim.Converter.Csr

/-!
# Edges scattered over output rows

The tiling converters push every edge on an output row that depends on its source row and
its column. If all these rows exist, an output row has the edges that were sent to it, in
their order; and if no output row gets edges of two source rows, the output is the edge
multiset of the source with its rows renamed.
-/

namespace GcnSim

namespace Converter

/-- The CSR file written when every edge is pushed on row `slot` of `n` rows. -/
def scatter (slot : Nat × Nat → Nat) (n v : Nat) (row col : List Nat) : Option CsrMatrix :=
  (forEachEdge (fun newCsr i edge => Buckets.push newCsr (slot (i, edge)) edge) v row col
    (List.replicate n [])).map CsrMatrix.ofRows

/-- What it means that `out` has the edges of `m` in `n` rows, each in row `slot`. -/
structure Scatters (m : CsrMatrix) (slot : Nat × Nat → Nat) (n : Nat) (out : CsrMatrix) :
    Prop where
  /-- Every write is to one of the output rows. -/
  inRange : ∀ e ∈ m.edges, slot e < n
  xH_eq : out.xH = n
  rowCols_eq : ∀ k < n, out.rowCols k = (m.edges.filter fun e => slot e = k).map Prod.snd

variable {m : CsrMatrix} {slot : Nat × Nat → Nat} {n : Nat}

/-- If every slot is one of the rows, no write fails. -/
theorem scatter_scatters (h : ∀ e ∈ m.edges, slot e < n) :
    ∃ out, scatter slot n m.xH m.row m.col = some out ∧ Scatters m slot n out := by
  have hlt : ∀ e ∈ m.edges, slot e < (List.replicate n ([] : List Nat)).length := by
    rwa [List.length_replicate]
  have hlen : (Buckets.fill slot Prod.snd (List.replicate n []) m.edges).length = n := by
    rw [Buckets.length_fill, List.length_replicate]
  refine ⟨.ofRows (Buckets.fill slot Prod.snd (List.replicate n []) m.edges), ?_, h, ?_, ?_⟩
  · rw [scatter, forEachEdge_eq]
    exact congrArg (Option.map CsrMatrix.ofRows) (Buckets.foldlM_push hlt)
  · rw [CsrMatrix.xH_ofRows, hlen]
  · intro k hk
    rw [CsrMatrix.rowCols_ofRows (hlen.symm ▸ hk)]
    exact Buckets.getElem_fill_replicate _ _

namespace Scatters

variable {out : CsrMatrix}

/-- The edges of the output are those of the source, row by row. -/
theorem edges_eq (h : Scatters m slot n out) : out.edges =
    (List.range n).flatMap fun k => (m.edges.filter fun e => slot e = k).map fun e => (k, e.2) := by
  rw [CsrMatrix.edges, h.xH_eq]
  apply List.flatMap_congr
  intro k hk
  rw [h.rowCols_eq k (List.mem_range.mp hk), List.map_map]
  rfl

/-- If an output row has edges of one source row only, then the output rows can be named by
their source rows so that the edges are the edges of the source. -/
theorem edges_perm (h : Scatters m slot n out)
    (hsource : ∀ e ∈ m.edges, ∀ e' ∈ m.edges, slot e = slot e' → e.1 = e'.1) :
    ∃ source : Nat → Nat, (out.edges.map fun e => (source e.1, e.2)).Perm m.edges := by
  -- An output row is named by the first edge that was sent to it.
  let source : Nat → Nat := fun k => ((m.edges.find? fun e => slot e = k).map Prod.fst).getD 0
  have hnamed : ∀ e ∈ m.edges, source (slot e) = e.1 := by
    intro e he
    have hsome : (m.edges.find? fun e' => slot e' = slot e).isSome :=
      List.find?_isSome.mpr ⟨e, he, decide_eq_true rfl⟩
    obtain ⟨e', he'⟩ := Option.isSome_iff_exists.mp hsome
    have hslot := List.find?_some he'
    rw [decide_eq_true_eq] at hslot
    change ((m.edges.find? fun e' => slot e' = slot e).map Prod.fst).getD 0 = e.1
    rw [he']
    exact hsource e' (List.mem_of_find?_eq_some he') e he hslot
  refine ⟨source, ?_⟩
  have hgroups : (out.edges.map fun e => (source e.1, e.2)) =
      Buckets.groups slot (List.range n) m.edges := by
    rw [h.edges_eq, List.map_flatMap, Buckets.groups]
    apply List.flatMap_congr
    intro k _
    rw [List.map_map]
    refine (List.map_congr_left fun e he => ?_).trans (List.map_id _)
    obtain ⟨he, hslot⟩ := List.mem_filter.mp he
    have hk := of_decide_eq_true hslot
    change (source k, e.2) = e
    rw [← hk, hnamed e he]
  rw [hgroups]
  exact Buckets.groups_perm List.pairwise_lt_range fun e he => List.mem_range.mpr (h.inRange e he)

/-- The columns of the row that an edge was sent to, if its slot tells the source row and a
tile of the columns. -/
theorem rowCols_slot (h : Scatters m slot n out) {tile : Nat → Nat → Nat}
    (hslot : ∀ e ∈ m.edges, ∀ e' ∈ m.edges,
      slot e = slot e' ↔ e.1 = e'.1 ∧ tile e.1 e.2 = tile e'.1 e'.2)
    {e : Nat × Nat} (he : e ∈ m.edges) :
    out.rowCols (slot e) = (m.rowCols e.1).filter fun c => tile e.1 c = tile e.1 e.2 := by
  rw [h.rowCols_eq _ (h.inRange e he)]
  refine CsrMatrix.map_snd_filter_slot (CsrMatrix.mem_edges.mp he).1 ?_
  intro e' he'
  rw [hslot e' he' e he]
  constructor
  · rintro ⟨hrow, htile⟩
    exact ⟨hrow, hrow ▸ htile⟩
  · rintro ⟨hrow, htile⟩
    exact ⟨hrow, hrow ▸ htile⟩

end Scatters

/-- What it means that `out` has the edges of `m` in `n` rows, each in row `slot`, and that
no row has edges with two keys. -/
structure KeepsApart {κ : Type*} (m : CsrMatrix) (slot : Nat × Nat → Nat) (n : Nat)
    (key : Nat × Nat → κ) (out : CsrMatrix) : Prop where
  /-- Every write is to one of the output rows. -/
  inRange : ∀ e ∈ m.edges, slot e < n
  xH_eq : out.xH = n
  apart : ∀ e ∈ m.edges, ∀ e' ∈ m.edges, slot e = slot e' → key e = key e'
  /-- With the output rows named by their source rows, the edges are those of the source. -/
  edges_perm : ∃ source : Nat → Nat, (out.edges.map fun e => (source e.1, e.2)).Perm m.edges

/-- The converter keeps the edges apart by a key that tells the source row exactly if no edge
is sent to a row that does not exist and no two edges with different keys to the same row. -/
theorem scatter_keepsApart_iff {κ : Type*} {key : Nat × Nat → κ} {Outside : Nat × Nat → Prop}
    {Clash : Nat × Nat → Nat × Nat → Prop} (hkey : ∀ e e', key e = key e' → e.1 = e'.1)
    (houtside : ∀ e ∈ m.edges, n ≤ slot e ↔ Outside e)
    (hclash : ∀ e ∈ m.edges, ∀ e' ∈ m.edges,
      slot e = slot e' ∧ key e ≠ key e' ↔ Clash e e' ∨ Clash e' e) :
    (∃ out, scatter slot n m.xH m.row m.col = some out ∧ KeepsApart m slot n key out) ↔
      (∀ e ∈ m.edges, ¬ Outside e) ∧ ∀ e ∈ m.edges, ∀ e' ∈ m.edges, ¬ Clash e e' := by
  constructor
  · rintro ⟨out, -, h⟩
    constructor
    · intro e he hout
      exact Nat.not_lt.mpr ((houtside e he).mpr hout) (h.inRange e he)
    · intro e he e' he' hcl
      obtain ⟨hslot, hne⟩ := (hclash e he e' he').mpr (Or.inl hcl)
      exact hne (h.apart e he e' he' hslot)
  · rintro ⟨hout, hcl⟩
    have hlt : ∀ e ∈ m.edges, slot e < n := by
      intro e he
      rw [← Nat.not_le, houtside e he]
      exact hout e he
    have hapart : ∀ e ∈ m.edges, ∀ e' ∈ m.edges, slot e = slot e' → key e = key e' := by
      intro e he e' he' hslot
      by_contra hne
      obtain h | h := (hclash e he e' he').mp ⟨hslot, hne⟩
      · exact hcl e he e' he' h
      · exact hcl e' he' e he h
    obtain ⟨out, heq, hscatters⟩ := scatter_scatters hlt
    refine ⟨out, heq, hlt, hscatters.xH_eq, hapart, ?_⟩
    exact hscatters.edges_perm fun e he e' he' h => hkey e e' (hapart e he e' he' h)

end Converter

end GcnSim
