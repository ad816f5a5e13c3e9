/-
DisciplinedConvex/Attributes.lean

Curvature, sign and shape of an expression, kept together.

Each operation on expressions has its counterpart here, and this is the only
place where the rules for curvature, sign and shape meet.
-/
import DisciplinedConvex.Curvature
import DisciplinedConvex.Shape.Combine

namespace DisciplinedConvex

/-- What is known of an expression. -/
structure Attributes where
  curvature : Curvature
  sign : Sign
  shape : Shape
deriving DecidableEq, Inhabited

namespace Attributes

/-- Attributes of `a + b`. -/
def add (a b : Attributes) : Except Error Attributes := do
  let shape ← a.shape.broadcast b.shape
  return { curvature := a.curvature.add b.curvature, sign := a.sign.add b.sign, shape }

/-- Attributes of `-a`. -/
def neg (a : Attributes) : Attributes where
  curvature := a.curvature.neg
  sign := a.sign.neg
  shape := a.shape

/-- Attributes of `k * a`, where `k` is the constant factor. -/
def mul (k a : Attributes) : Except Error Attributes := do
  let shape ← k.shape.times a.shape
  return { curvature := a.curvature.scale k.sign, sign := k.sign.mul a.sign, shape }

/-- Attributes of `a / k`, where `k` is a constant scalar. -/
def div (a k : Attributes) : Attributes where
  curvature := a.curvature.scale k.sign.reciprocal
  sign := a.sign.mul k.sign.reciprocal
  shape := a.shape

/-- Attributes of the transpose. -/
def transpose (a : Attributes) : Attributes :=
  { a with shape := a.shape.transpose }

/-- Attributes of a selection of entries, of the given shape. -/
def select (a : Attributes) (shape : Shape) : Attributes :=
  { a with shape }

/-- The attributes with the names of their fields. -/
def inspect (a : Attributes) : String :=
  Text.record "DcpAttributes"
    [("curvature", a.curvature.inspect), ("sign", a.sign.inspect), ("shape", a.shape.inspect)]

/-! ### Laws -/

theorem add_eq_ok_iff {a b c : Attributes} :
    a.add b = .ok c ↔ ∃ s, a.shape.broadcast b.shape = .ok s ∧
      c = ⟨a.curvature.add b.curvature, a.sign.add b.sign, s⟩ := by
  rcases h : a.shape.broadcast b.shape with e | s <;>
    simp [add, h, bind, Except.bind, pure, Except.pure, eq_comm]

theorem mul_eq_ok_iff {k a c : Attributes} :
    k.mul a = .ok c ↔ ∃ s, k.shape.times a.shape = .ok s ∧
      c = ⟨a.curvature.scale k.sign, k.sign.mul a.sign, s⟩ := by
  rcases h : k.shape.times a.shape with e | s <;>
    simp [mul, h, bind, Except.bind, pure, Except.pure, eq_comm]

end Attributes

end DisciplinedConvex
