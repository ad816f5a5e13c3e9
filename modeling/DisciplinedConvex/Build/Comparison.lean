/-
DisciplinedConvex/Build/Comparison.lean

Constraints built from comparisons.  `a ≥ b` is kept as `b ≤ a`.
-/
import DisciplinedConvex.Build.Arithmetic

namespace DisciplinedConvex.Build

/-- The constraint of a kind on two sides, with its residual. -/
def constraint (kind : ConstraintKind) (lhs rhs : Expr) : Build Constraint := do
  let residual ← difference lhs rhs
  let c : Constraint := { kind, lhs, rhs, residual }
  report (.constrained c)
  return c

/-- The comparisons that make constraints. -/
inductive Comparison where
  /-- `a = b` -/
  | equal
  /-- `a ≤ b` -/
  | atMost
  /-- `a ≥ b` -/
  | atLeast
deriving DecidableEq, Repr

namespace Comparison

/-- The kind of constraint that a comparison makes. -/
def kind : Comparison → ConstraintKind
  | equal => .equality
  | atMost | atLeast => .inequality

/-- The sides of the constraint in the order in which it keeps them. -/
def sides {α : Type} (c : Comparison) (a b : α) : α × α :=
  match c with
  | equal | atMost => (a, b)
  | atLeast => (b, a)

/-- The constraint that `a` and `b` compare so. -/
def constrain (c : Comparison) (a b : Expr) : Build Constraint :=
  constraint c.kind (c.sides a b).1 (c.sides a b).2

end Comparison

/-! ### Problems -/

/-- The expression to minimise in place of an objective: `-f` where `f` is to be maximised. -/
def asMinimization (o : Objective) : Build Expr :=
  match o.sense with
  | .minimize => pure o.expr
  | .maximize => negation o.expr

/-- Asks for the verdict on a problem. -/
def verdict (p : Problem) : Build (Except Error Unit) := do
  report (.checked p.constraints.length)
  return p.verdict

end DisciplinedConvex.Build
