/-
DisciplinedConvex/Value/Dense.lean

Matrices of floating-point numbers with every entry written down, column after
column.  A dimension may be zero; the number of entries always fits.
-/
import DisciplinedConvex.Error
import DisciplinedConvex.Decimal.Positional

namespace DisciplinedConvex

/-- A matrix given by its entries, column after column. -/
structure Dense where
  rows : UInt64
  cols : UInt64
  entries : Array Float
  size_entries : entries.size = rows.toNat * cols.toNat

namespace Dense

/-- The matrix with these entries.  As documented, it is an error if their number is not the product
of the dimensions; the product is the exact one, also where 64 bits cannot hold it and no list is as
long as that. -/
def ofEntries (rows cols : UInt64) (entries : Array Float) : Except Abort Dense :=
  if h : entries.size = rows.toNat * cols.toNat then .ok ⟨rows, cols, entries, h⟩
  else .error .wrongLength

/-- The matrix with one entry throughout. -/
def filled (rows cols : UInt64) (x : Float) : Dense where
  rows := rows
  cols := cols
  entries := Array.replicate (rows.toNat * cols.toNat) x
  size_entries := Array.size_replicate

/-- The square matrix with ones on the diagonal and zeros elsewhere. -/
def identity (n : UInt64) : Dense where
  rows := n
  cols := n
  entries := Array.ofFn (n := n.toNat * n.toNat) fun k =>
    if k.val / n.toNat = k.val % n.toNat then 1.0 else 0.0
  size_entries := Array.size_ofFn

/-- The entry in a row and a column, zero outside of the matrix. -/
def entry (m : Dense) (row col : Nat) : Float :=
  if row < m.rows.toNat ∧ col < m.cols.toNat then
    m.entries.getD (col * m.rows.toNat + row) 0.0
  else 0.0

/-- The rows between brackets, each a list between brackets. -/
def text (m : Dense) : String :=
  Text.bracketed <| (List.range m.rows.toNat).map fun row =>
    Text.bracketed <| (List.range m.cols.toNat).map fun col =>
      Decimal.floatText (m.entry row col)

/-- The place of an entry lies in the array. -/
theorem place_lt (m : Dense) {row col : Nat} (hr : row < m.rows.toNat) (hc : col < m.cols.toNat) :
    col * m.rows.toNat + row < m.entries.size := by
  have h : (col + 1) * m.rows.toNat ≤ m.cols.toNat * m.rows.toNat :=
    Nat.mul_le_mul_right _ hc
  rw [m.size_entries, Nat.mul_comm m.rows.toNat]
  rw [Nat.succ_mul] at h
  omega

end Dense

end DisciplinedConvex
