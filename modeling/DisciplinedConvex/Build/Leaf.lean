/-
DisciplinedConvex/Build/Leaf.lean

Leaves: variables and constants.
-/
import DisciplinedConvex.Ledger

namespace DisciplinedConvex.Build

/-- A new variable. -/
def newVariable (rows cols : UInt64) (name : Option String) (bounds : List Bound) : Build Expr := do
  let shape ← check (Shape.ofDims rows cols)
  let d := ({ shape, name } : Declaration).declare bounds
  node d.attributes (.var · d)

/-- A constant.  Its shape and sign are read off the value; a value without entries is refused. -/
def constant (v : Value) : Build Expr := do
  let shape ← check v.shape
  node { curvature := .constant, sign := v.sign, shape } (.const · v)

/-- A constant with one entry throughout; a scalar is a plain number. -/
def filled (rows cols : UInt64) (x : Float) : Build Expr := do
  let shape ← check (Shape.ofDims rows cols)
  if shape.isScalar then constant (.scalar x)
  else constant (.dense (Dense.filled shape.rows shape.cols x))

/-- The square matrix with ones on the diagonal. -/
def identity (n : UInt64) : Build Expr := constant (.dense (Dense.identity n))

end DisciplinedConvex.Build
