/-
DisciplinedConvex/Shape.lean

Shapes of matrices.  Both dimensions are at least one and fit a 64-bit word:
`(1, 1)` is a scalar, `(n, 1)` a column and `(m, n)` a matrix of `m` rows.
Which shapes may meet in an operation is told in `DisciplinedConvex.Shape.Combine`.
-/

namespace DisciplinedConvex

/-- The dimensions of a matrix that has entries. -/
structure Shape where
  rows : UInt64
  cols : UInt64
  rows_pos : 0 < rows := by decide
  cols_pos : 0 < cols := by decide
deriving DecidableEq

namespace Shape

/-- The shape of a single number. -/
def scalar : Shape where
  rows := 1
  cols := 1

instance : Inhabited Shape := ⟨scalar⟩

/-- The shape of these dimensions, if neither is zero. -/
def ofDims? (rows cols : UInt64) : Option Shape :=
  if h : 0 < rows ∧ 0 < cols then some ⟨rows, cols, h.1, h.2⟩ else none

/-- Number of entries, as a 64-bit word. -/
def numel (s : Shape) : UInt64 := s.rows * s.cols

def isScalar (s : Shape) : Bool := s.rows == 1 && s.cols == 1

/-- One column; scalars count. -/
def isColumn (s : Shape) : Bool := s.cols == 1

/-- Rows and columns change places. -/
def transpose (s : Shape) : Shape where
  rows := s.cols
  cols := s.rows
  rows_pos := s.cols_pos
  cols_pos := s.rows_pos

/-! ### Texts -/

/-- The shape as it stands in reports. -/
def text (s : Shape) : String := s!"({s.rows.toNat}, {s.cols.toNat})"

/-- The shape as it stands among the fields of an inspected value. -/
def inspect (s : Shape) : String := "Shape" ++ s.text

instance : ToString Shape := ⟨text⟩

/-! ### Laws -/

theorem ext_dims {s t : Shape} (hr : s.rows = t.rows) (hc : s.cols = t.cols) : s = t := by
  cases s; cases t; simp_all

theorem isScalar_iff (s : Shape) : s.isScalar = true ↔ s = scalar := by
  constructor
  · intro h
    simp only [isScalar, Bool.and_eq_true, beq_iff_eq] at h
    exact ext_dims h.1 h.2
  · rintro rfl
    rfl

@[simp] theorem isScalar_transpose (s : Shape) : s.transpose.isScalar = s.isScalar :=
  Bool.and_comm ..

theorem ofDims?_dims (s : Shape) : ofDims? s.rows s.cols = some s := by
  simp [ofDims?, s.rows_pos, s.cols_pos]

end Shape

end DisciplinedConvex
