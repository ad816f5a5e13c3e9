/-
DisciplinedConvex/Selection.lean

Entries of a matrix picked out by a strided range along each axis.

A `Slice` holds the positions `start, start + step, ...` below `stop`; its
numbers are 64-bit words, and so is the arithmetic on them.  A `Selection` is a
slice of the rows and a slice of the columns.  Keys resolve to selections in
`DisciplinedConvex.Key`; the slices made there are never empty, but a slice
written down by hand may be, and one with step zero cannot be counted.
-/
import DisciplinedConvex.Shape.Combine

namespace DisciplinedConvex

/-- The positions `start, start + step, ...` below `stop`. -/
structure Slice where
  start : UInt64
  stop : UInt64
  step : UInt64
deriving DecidableEq

namespace Slice

/-- The slice that holds `i` alone. -/
def single (i : UInt64) : Slice where
  start := i
  stop := i + 1
  step := 1

/-- The slice that holds every position of an axis. -/
def whole (size : UInt64) : Slice where
  start := 0
  stop := size
  step := 1

/-- Number of positions: the length of the range over the step, rounded up. -/
def count (s : Slice) : Except Abort UInt64 :=
  if s.step = 0 then .error .divisionByZero
  else
    let length := s.stop - s.start
    if length % s.step = 0 then .ok (length / s.step) else .ok (length / s.step + 1)

/-- The `i`-th position, counted from zero. -/
def position (s : Slice) (i : UInt64) : UInt64 := s.start + i * s.step

/-- A slice of one position is written as that position, and the step one is left out. -/
def text (s : Slice) : String :=
  match s.count with
  | .ok 1 => toString s.start.toNat
  | _ =>
    if s.step = 1 then s!"{s.start.toNat}:{s.stop.toNat}"
    else s!"{s.start.toNat}:{s.stop.toNat}:{s.step.toNat}"

/-- The slice with the names of its fields. -/
def inspect (s : Slice) : String :=
  Text.record "AxisRange"
    [("start", toString s.start.toNat), ("stop", toString s.stop.toNat),
      ("step", toString s.step.toNat)]

/-! ### Counting -/

theorem count_single (i : UInt64) : (single i).count = .ok 1 := by
  have h : i + 1 - i = 1 := by
    rw [UInt64.add_comm, UInt64.add_sub_cancel]
  simp only [count, single, h]
  rfl

end Slice

/-- A slice of the rows and a slice of the columns. -/
structure Selection where
  rows : Slice
  cols : Slice
deriving DecidableEq

namespace Selection

/-- The single entry at a place. -/
def entry (row col : UInt64) : Selection where
  rows := Slice.single row
  cols := Slice.single col

/-- The shape of the selected part. -/
def shape (s : Selection) : Except Abort Shape := do
  let rows ← s.rows.count
  let cols ← s.cols.count
  (Shape.ofDims rows cols).mapError .refused

def text (s : Selection) : String :=
  Text.bracketed [s.rows.text, s.cols.text]

theorem shape_entry (row col : UInt64) : (entry row col).shape = .ok Shape.scalar := by
  simp only [shape, entry, Slice.count_single]
  rfl

end Selection

end DisciplinedConvex
