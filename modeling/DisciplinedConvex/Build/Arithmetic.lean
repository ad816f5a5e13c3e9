/-
DisciplinedConvex/Build/Arithmetic.lean

Sums, products and the other operations on expressions.

Each operation derives the attributes of the new node from those of its
operands, and refuses operands that do not fit before any node is made.  The
constant factor of a product always stands on the left of its node: where it is
given on the right, `a * k` is built as `(kᵀ * aᵀ)ᵀ`.
-/
import DisciplinedConvex.Ledger
import DisciplinedConvex.Key

namespace DisciplinedConvex.Build

/-- The sum `a + b`.  The shapes agree, or one of them is a scalar. -/
def sum (a b : Expr) : Build Expr := do
  let attributes ← check (a.attributes.add b.attributes)
  node attributes (.add · a b)

/-- The negation `-a`. -/
def negation (a : Expr) : Build Expr := node a.attributes.neg (.neg · a)

/-- The difference `a - b`, which is `a + -b`. -/
def difference (a b : Expr) : Build Expr := do
  let c ← negation b
  sum a c

/-- The transpose.  A scalar is its own transpose, and no node is built for it. -/
def transposed (a : Expr) : Build Expr :=
  if a.isScalar then pure a else node a.attributes.transpose (.transpose · a)

/-- The product `k * a` with a constant factor `k`. -/
def scaled (k a : Expr) : Build Expr := do
  let attributes ← check (k.attributes.mul a.attributes)
  node attributes (.mul · k a)

/-- The product `a * b`, of which one factor at least is constant. -/
def product (a b : Expr) : Build Expr := do
  if a.isConstant then scaled a b
  else if b.isConstant then
    let _ ← check (a.shape.times b.shape)
    report (.factorMoved a.shape b.shape)
    let k ← transposed b
    let x ← transposed a
    let p ← scaled k x
    transposed p
  else throw (.rejected .nonconstantProduct)

/-- The quotient `a / k` by a constant scalar `k`. -/
def quotient (a k : Expr) : Build Expr := do
  if k.isConstant && k.isScalar then
    if k.isZero then report (.zeroDivisor k)
    node (a.attributes.div k.attributes) (.div · a k)
  else throw (.rejected .invalidDivisor)

/-- The selected part of a matrix that is no scalar. -/
def selected (a : Expr) (s : Selection) : Build Expr := do
  let shape ← attempt s.shape
  node (a.attributes.select shape) (.index · a s)

/-- The part of `a` that a key picks.  A scalar is returned as it is for any key. -/
def indexed (a : Expr) (key : Key) : Build Expr :=
  if a.isScalar then pure a
  else do
    let s ← check (key.resolve a.shape)
    selected a s

/-- The entry in a row and a column, which have to lie inside `a`. -/
def entry (a : Expr) (row col : UInt64) : Build Expr :=
  if a.isScalar then pure a else selected a (Selection.entry row col)

/-! ### The operations by name -/

/-- The operations on two operands. -/
inductive Operation where
  | sum
  | difference
  | product
  | quotient
deriving DecidableEq, Repr

/-- The operation on two expressions. -/
def Operation.apply (op : Operation) (a b : Expr) : Build Expr :=
  match op with
  | sum => Build.sum a b
  | difference => Build.difference a b
  | product => Build.product a b
  | quotient => Build.quotient a b

end DisciplinedConvex.Build
