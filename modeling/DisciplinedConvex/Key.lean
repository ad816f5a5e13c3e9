/-
DisciplinedConvex/Key.lean

Keys that ask for entries of a matrix, and how they resolve against a shape.

A key has a selector for each axis.  A key that is made of a single selector
picks rows; on a matrix of one row that selector runs along the columns instead,
so that vectors of either orientation are indexed alike.  Stops beyond the axis
are cut to its size.  The row axis is resolved first.
-/
import DisciplinedConvex.Selection

namespace DisciplinedConvex

/-- What is asked for along one axis. -/
inductive Selector where
  /-- One position. -/
  | index (i : UInt64)
  /-- The positions `start, start + step, ...` below `stop`. -/
  | range (start stop step : UInt64)
  /-- The whole axis. -/
  | all
deriving DecidableEq

namespace Selector

/-- The largest word, which stands for an open end. -/
def endless : UInt64 := 0xFFFFFFFFFFFFFFFF

/-- The positions from `start` to just below `stop`. -/
def between (start stop : UInt64) : Selector := range start stop 1

/-- The positions from `start` on. -/
def startingAt (start : UInt64) : Selector := range start endless 1

/-- The positions below `stop`. -/
def below (stop : UInt64) : Selector := range 0 stop 1

/-- The slice of an axis of the given size that a selector picks. -/
def resolve (s : Selector) (size axis : UInt64) : Except Error Slice :=
  match s with
  | index i =>
    if i < size then .ok (Slice.single i) else .error (.indexOutOfBounds i size axis)
  | range start stop step =>
    if step = 0 then .error .zeroStep
    else if start < min stop size then .ok { start, stop := min stop size, step }
    else .error (.emptySelection axis)
  | all => .ok (Slice.whole size)

def inspect : Selector → String
  | index i => Text.applied "Index" [toString i.toNat]
  | range start stop step =>
    Text.record "Range"
      [("start", toString start.toNat), ("stop", toString stop.toNat),
        ("step", toString step.toNat)]
  | all => "All"

end Selector

/-- What is asked for of a matrix. -/
structure Key where
  row : Selector
  col : Selector
  /-- The row selector stands for whichever axis a vector runs along. -/
  isSingle : Bool
deriving DecidableEq

namespace Key

/-- One selector, for the rows, or for the columns of a matrix of one row. -/
def single (s : Selector) : Key where
  row := s
  col := .all
  isSingle := true

/-- A selector for each axis. -/
def pair (row col : Selector) : Key where
  row := row
  col := col
  isSingle := false

/-- The whole matrix. -/
def all : Key := pair .all .all

/-- The selectors of rows and columns that a key stands for on a shape. -/
def selectors (k : Key) (shape : Shape) : Selector × Selector :=
  if k.isSingle ∧ shape.rows = 1 then (.all, k.row) else (k.row, k.col)

/-- The part of a matrix of the given shape that a key picks. -/
def resolve (k : Key) (shape : Shape) : Except Error Selection := do
  let (row, col) := k.selectors shape
  let rows ← row.resolve shape.rows 0
  let cols ← col.resolve shape.cols 1
  return { rows, cols }

/-- The key with the names of its fields. -/
def inspect (k : Key) : String :=
  Text.record "IndexKey"
    [("row", k.row.inspect), ("col", k.col.inspect),
      ("single_axis", if k.isSingle then "true" else "false")]

end Key

end DisciplinedConvex
