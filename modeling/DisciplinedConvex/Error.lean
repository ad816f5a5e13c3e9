/-
DisciplinedConvex/Error.lean

Why something is not built.

`Error` lists the causes for which an operation refuses its operands, `Abort`
the ways in which an operation that is meant not to fail stops after all, and
`Fault` is either of them, or a triplet or register that is not there.  Each
cause has one message.
-/
import DisciplinedConvex.Shape
import DisciplinedConvex.Text.Quoted
import DisciplinedConvex.Text.Record

namespace DisciplinedConvex

/-- Why an operation refuses its operands.  Axis 0 runs along the rows and axis 1 along the
columns. -/
inductive Error where
  /-- The shapes do not fit the operation. -/
  | shapeMismatch (operation : String) (lhs rhs : Shape)
  /-- A dimension is zero. -/
  | invalidShape (rows cols : UInt64)
  /-- A position is not below the size of its axis. -/
  | indexOutOfBounds (index size axis : UInt64)
  /-- A range holds no position of its axis. -/
  | emptySelection (axis : UInt64)
  /-- A range with step zero. -/
  | zeroStep
  /-- Neither factor is constant. -/
  | nonconstantProduct
  /-- The divisor is not a constant scalar. -/
  | invalidDivisor
  /-- The rules do not certify the problem; the text names the offending part. -/
  | notCertified (reason : String)
deriving DecidableEq

namespace Error

/-- The message of an error. -/
def message : Error → String
  | shapeMismatch operation lhs rhs =>
    "Incompatible dimensions for " ++ operation ++ ": " ++ lhs.text ++ " and " ++ rhs.text
  | invalidShape rows cols =>
    s!"Invalid shape ({rows.toNat}, {cols.toNat}): dimensions must be at least 1"
  | indexOutOfBounds index size axis =>
    s!"Index {index.toNat} is out of bounds for axis {axis.toNat} with size {size.toNat}"
  | emptySelection axis => s!"Index selects no entries along axis {axis.toNat}"
  | zeroStep => "Slice step cannot be zero"
  | nonconstantProduct => "Cannot multiply two non-constants."
  | invalidDivisor => "Can only divide by a scalar constant."
  | notCertified reason => "Problem is not DCP: " ++ reason

/-- The short name of the kind of error. -/
def kind : Error → String
  | shapeMismatch .. => "ShapeMismatch"
  | invalidShape .. => "InvalidShape"
  | indexOutOfBounds .. => "IndexOutOfBounds"
  | emptySelection _ => "EmptySelection"
  | zeroStep => "ZeroStep"
  | nonconstantProduct => "NonConstantProduct"
  | invalidDivisor => "InvalidDivisor"
  | notCertified _ => "NotDcp"

/-- The two families of errors that refuse a node, and the rest. -/
inductive Family where
  /-- Dimensions or positions do not fit. -/
  | shape
  /-- The composition has no certified meaning. -/
  | composition
  | other
deriving DecidableEq, Repr

/-- The family of an error. -/
def family : Error → Family
  | shapeMismatch .. | invalidShape .. | indexOutOfBounds .. | emptySelection _ | zeroStep => .shape
  | nonconstantProduct | invalidDivisor => .composition
  | notCertified _ => .other

/-- An error with the names of its fields. -/
def inspect (e : Error) : String :=
  match e with
  | shapeMismatch operation lhs rhs =>
    Text.record e.kind
      [("op", Text.quote operation), ("lhs", lhs.inspect), ("rhs", rhs.inspect)]
  | invalidShape rows cols =>
    Text.record e.kind [("rows", toString rows.toNat), ("cols", toString cols.toNat)]
  | indexOutOfBounds index size axis =>
    Text.record e.kind
      [("index", toString index.toNat), ("dim", toString size.toNat), ("axis", toString axis.toNat)]
  | emptySelection axis => Text.record e.kind [("axis", toString axis.toNat)]
  | zeroStep | nonconstantProduct | invalidDivisor => e.kind
  | notCertified reason => Text.applied e.kind [Text.quote reason]

instance : ToString Error := ⟨message⟩

end Error

/-! ### Aborts and faults -/

/-- Why an operation that is meant not to fail stops. -/
inductive Abort where
  /-- The operands are refused, and the operation has no way to say so. -/
  | refused (cause : Error)
  /-- The positions of a range with step zero are counted. -/
  | divisionByZero
  /-- A dense matrix is given more or fewer entries than its dimensions ask for. -/
  | wrongLength
deriving DecidableEq

/-- The message of an abort. -/
def Abort.message : Abort → String
  | refused cause => cause.message
  | divisionByZero => "attempt to divide by zero"
  | wrongLength =>
    "Allocation from iterator error: the iterator did not yield the correct number of elements."

/-- A triplet of a sparse matrix lies outside its dimensions. -/
inductive Misplaced where
  | row
  | column
deriving DecidableEq, Repr

/-- The message about a misplaced triplet. -/
def Misplaced.message : Misplaced → String
  | row => "Row index out of bounds."
  | column => "Col index out of bounds."

/-- Why a step builds nothing. -/
inductive Fault where
  | rejected (cause : Error)
  | aborted (cause : Abort)
  | misplaced (cause : Misplaced)
  /-- A register that does not hold what the step asks of it. -/
  | badReference
deriving DecidableEq

/-- A rejection becomes an abort, as where an operation has no way to report it. -/
def Fault.insist : Fault → Fault
  | rejected cause => aborted (.refused cause)
  | f => f

end DisciplinedConvex
