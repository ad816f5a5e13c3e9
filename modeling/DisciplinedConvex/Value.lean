/-
DisciplinedConvex/Value.lean

Numeric values of constants: a number, a dense or a sparse matrix.

The storage is a matter of convenience: shape and sign are read off the entries
alone, and the entries that a sparse matrix leaves out are zero.
-/
import DisciplinedConvex.Shape.Combine
import DisciplinedConvex.Sign
import DisciplinedConvex.Value.Dense
import DisciplinedConvex.Value.Sparse

namespace DisciplinedConvex

/-- The value of a constant. -/
inductive Value where
  | scalar (x : Float)
  | dense (m : Dense)
  | sparse (m : Sparse)

namespace Value

/-- Number of rows; zero is possible. -/
def rows : Value → UInt64
  | scalar _ => 1
  | dense m => m.rows
  | sparse m => m.rows

/-- Number of columns; zero is possible. -/
def cols : Value → UInt64
  | scalar _ => 1
  | dense m => m.cols
  | sparse m => m.cols

/-- The shape, unless a dimension is zero. -/
def shape (v : Value) : Except Error Shape := Shape.ofDims v.rows v.cols

/-- The entry in a row and a column. -/
def entry (v : Value) (row col : Nat) : Float :=
  match v with
  | scalar x => x
  | dense m => m.entry row col
  | sparse m => m.entry row col

/-- The only entry of a value with one row and one column; a stored entry is added to `-0`. -/
def asScalar? (v : Value) : Option Float :=
  match v with
  | scalar x => some x
  | dense m => if m.rows == 1 && m.cols == 1 then some (m.entry 0 0) else none
  | sparse m =>
    if m.rows == 1 && m.cols == 1 then
      some (m.stored.foldl (fun sum t => sum + t.value) (-0.0))
    else none

/-! ### Sign -/

/-- Every entry is at least zero.  What is not a number is not. -/
def isNonneg : Value → Bool
  | scalar x => 0.0 ≤ x
  | dense m => m.entries.all fun x => 0.0 ≤ x
  | sparse m => m.stored.all fun t => 0.0 ≤ t.value

/-- Every entry is at most zero.  What is not a number is not. -/
def isNonpos : Value → Bool
  | scalar x => x ≤ 0.0
  | dense m => m.entries.all fun x => x ≤ 0.0
  | sparse m => m.stored.all fun t => t.value ≤ 0.0

/-- The sign that all entries share. -/
def sign (v : Value) : Sign := Sign.ofBounds v.isNonneg v.isNonpos

/-! ### Text -/

/-- The value as it stands in the text of an expression. -/
def text : Value → String
  | scalar x => Decimal.floatText x
  | dense m =>
    if m.rows == 1 && m.cols == 1 then Decimal.floatText (m.entry 0 0) else m.text
  | sparse m => m.text

end Value

/-! ### Literals -/

/-- A value as it is written down, before its parts are known to fit. -/
inductive Literal where
  | scalar (x : Float)
  | dense (rows cols : UInt64) (entries : Array Float)
  | sparse (rows cols : UInt64) (triplets : List Triplet)
  /-- The same value, formed as soon as the literal is read. -/
  | array (l : Literal)

namespace Literal

/-- A column of numbers. -/
def column (entries : Array Float) : Literal := dense entries.size.toUInt64 1 entries

/-- The value that a literal stands for. -/
def value : Literal → Except Fault Value
  | scalar x => .ok (.scalar x)
  | dense rows cols entries =>
    ((Dense.ofEntries rows cols entries).map .dense).mapError .aborted
  | sparse rows cols triplets =>
    ((Sparse.ofTriplets rows cols triplets).map .sparse).mapError .misplaced
  | array l => l.value

end Literal

end DisciplinedConvex
