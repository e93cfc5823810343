import GcnSim.Core.Machine

/-!
# The distributer

`Distribute` with `DIVISION_TYPE` 1 deals the rows of the adjacency out to the
units, so that every unit gets about the same number of edges: a unit takes rows
until it has `unit_edge` edges or the edges run out. The source reads the front of
its queues without a test; a read of an empty queue ends the model with `none`, and so
does an increment of the largest `row`. The row pointers are `uint64_t` values, but the
columns of a row are counted in an `int`.
-/

namespace GcnSim

/-- A CSR matrix of `x_h` rows: `x_h + 1` non-decreasing row pointers from `0` and as many
columns as the last pointer says. There may be no row at all. -/
structure CsrMatrix where
  row : List Nat
  col : List Nat
  row_zero : row.head? = some 0
  row_mono : row.Pairwise (· ≤ ·)
  col_length : col.length = row.getLastD 0

/-- Number of rows, `x_h`. -/
def CsrMatrix.xH (m : CsrMatrix) : Nat := m.row.length - 1

namespace Distributer

/-- What `Distribute` leaves for one unit. -/
structure UnitShare where
  adjrowindex : List Nat
  adjcolindex : List Nat
  /-- `a_row_info.row_start`. -/
  rowStart : Nat
  /-- `a_row_info.row_end`. -/
  rowEnd : Nat
  axwCount : Nat
  deriving DecidableEq, Repr

/-- The local variables of `Distribute` between two units. -/
structure Remaining where
  tmpAdjrow : List Nat
  tmpAdjcol : List Nat
  last : Nat
  row : Nat
  deriving DecidableEq, Repr

/-- `col_size` of a row between the pointers `before` and `back` of its unit. -/
def colSize (before back : Nat) : Int := intOfU64 (u64Sub back (u64OfInt (intOfU64 before)))

/-- The loop that fills one unit, over the rows that remain; `adjrow` and `adjcol` are
what the unit has got so far. A negative `col_size` takes no column. -/
def fill (unitEdge last : Nat) : List Nat → List Nat → Nat → List Nat → List Nat →
    Option (List Nat × List Nat × Remaining)
  | [], _, _, _, _ => none
  | x :: tmpAdjrow, tmpAdjcol, row, adjrow, adjcol =>
    let back := x - last
    let cols := (colSize (adjrow.getLastD 0) back).toNat
    if intMax ≤ row ∨ tmpAdjcol.length < cols then none
    else
      let adjrow := adjrow ++ [back]
      let adjcol := adjcol ++ tmpAdjcol.take cols
      let tmpAdjcol := tmpAdjcol.drop cols
      if tmpAdjcol = [] then
        some (adjrow ++ tmpAdjrow.map (· - last), adjcol, ⟨[], [], last, row + 1⟩)
      else if unitEdge ≤ back then
        some (adjrow, adjcol, ⟨tmpAdjrow, tmpAdjcol, last + back, row + 1⟩)
      else fill unitEdge last tmpAdjrow tmpAdjcol (row + 1) adjrow adjcol

/-- The loop over the units that are still to be filled. -/
def fillUnits (unitEdge : Nat) : Nat → Remaining → Option (List UnitShare)
  | 0, _ => some []
  | n + 1, s =>
    match fill unitEdge s.last s.tmpAdjrow s.tmpAdjcol s.row [0] [] with
    | none => none
    | some (adjrow, adjcol, s') =>
      (fillUnits unitEdge n s').map
        (⟨adjrow, adjcol, s.row, s'.row - 1, adjrow.length - 1⟩ :: ·)

/-- `a_row_info[tot_acc-1].row_end = x_h-1`. -/
def setLastEnd (rowEnd : Nat) : List UnitShare → List UnitShare
  | [] => []
  | [u] => [{ u with rowEnd := rowEnd }]
  | u :: us => u :: setLastEnd rowEnd us

/-- `unit_edge`, `ceil((float)tmp_adjcol.size()/tot_acc)` taken exactly. -/
def unitEdge (m : CsrMatrix) (totAcc : Nat) : Nat := ceilDiv m.col.length totAcc

/-- `Distribute` with `DIVISION_TYPE` 1 for `tot_acc` units. -/
def distribute (m : CsrMatrix) (totAcc : Nat) : Option (List UnitShare) :=
  (fillUnits (unitEdge m totAcc) totAcc ⟨m.row.tail, m.col, 0, 0⟩).map (setLastEnd (m.xH - 1))

end Distributer

end GcnSim
