/-
DisciplinedConvex/Constraint.lean

Constraints: an equality `lhs = rhs` or an inequality `lhs ≤ rhs`.

A constraint keeps its two sides and the residual `lhs - rhs`, on which alone
its verdict rests: an equality asks for an affine residual, an inequality for a
convex one.
-/
import DisciplinedConvex.Expr.Render
import DisciplinedConvex.Expr.Walk

namespace DisciplinedConvex

/-- The two kinds of constraints. -/
inductive ConstraintKind where
  /-- `lhs = rhs` -/
  | equality
  /-- `lhs ≤ rhs` -/
  | inequality
deriving DecidableEq, Repr

def ConstraintKind.inspect : ConstraintKind → String
  | equality => "Equality"
  | inequality => "Inequality"

/-- A comparison of two expressions that holds entry by entry. -/
structure Constraint where
  kind : ConstraintKind
  lhs : Expr
  rhs : Expr
  /-- The difference `lhs - rhs`. -/
  residual : Expr

namespace Constraint

def isEquality (c : Constraint) : Bool := c.kind == .equality

def isInequality (c : Constraint) : Bool := c.kind == .inequality

/-- The shape of the residual. -/
def shape (c : Constraint) : Shape := c.residual.shape

/-- The rules certify that the constraint is convex. -/
def isCertified (c : Constraint) : Bool :=
  match c.kind with
  | .equality => c.residual.isAffine
  | .inequality => c.residual.isConvex

/-- Both compare the same two nodes in the same way. -/
def sameStructure (c d : Constraint) : Bool :=
  c.kind == d.kind && c.lhs == d.lhs && c.rhs == d.rhs

/-- The two sides. -/
def expressions (c : Constraint) : List Expr := [c.lhs, c.rhs]

/-- The numbers of the variables, in ascending order. -/
def variableIds (c : Constraint) : List Nat := c.residual.variableIds

/-- The constraint with the names of its fields. -/
def inspect (c : Constraint) : String :=
  Text.record "Constraint"
    [("kind", c.kind.inspect), ("lhs", c.lhs.inspect), ("rhs", c.rhs.inspect),
      ("expr", c.residual.inspect)]

end Constraint

end DisciplinedConvex
