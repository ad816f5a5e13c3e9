/-
DisciplinedConvex/Curvature.lean

The curvature of an expression, as far as the composition rules certify it.

Curvatures are ordered by what they promise,

    constant < affine < convex, concave < unknown

with `convex` and `concave` incomparable.  Membership (`isAffine`, `isConvex`,
...) is read off that order, `add` is its least upper bound (`le_iff_add_eq`),
and a curvature that cannot be certified is `unknown`, never an error.
-/
import DisciplinedConvex.Sign

namespace DisciplinedConvex

/-- Curvature of an expression in the variables. -/
inductive Curvature where
  /-- The same at every assignment. -/
  | constant
  /-- Convex and concave at once. -/
  | affine
  | convex
  | concave
  /-- Not certified. -/
  | unknown
deriving DecidableEq, Repr, Inhabited

namespace Curvature

/-- Every curvature, the stronger promises first. -/
def all : List Curvature := [constant, affine, convex, concave, unknown]

theorem mem_all (c : Curvature) : c ∈ all := by
  cases c <;> decide

/-! ### The order by promise -/

/-- Height in the order; `convex` and `concave` stand at the same height. -/
def rank : Curvature → Nat
  | constant => 0
  | affine => 1
  | convex | concave => 2
  | unknown => 3

/-- How two curvatures compare; `convex` and `concave` do not. -/
def compare? (a b : Curvature) : Option Ordering :=
  if a = b then some .eq
  else match compare a.rank b.rank with
    | .eq => none
    | o => some o

instance : LE Curvature where
  le a b := a.compare? b = some .lt ∨ a.compare? b = some .eq

instance : LT Curvature where
  lt a b := a.compare? b = some .lt

instance (a b : Curvature) : Decidable (a ≤ b) :=
  inferInstanceAs (Decidable (_ ∨ _))

instance (a b : Curvature) : Decidable (a < b) :=
  inferInstanceAs (Decidable (_ = _))

/-! ### Membership -/

def isConstant (c : Curvature) : Bool := c == constant

def isAffine (c : Curvature) : Bool := c ≤ affine

def isConvex (c : Curvature) : Bool := c ≤ convex

def isConcave (c : Curvature) : Bool := c ≤ concave

/-- Certified at all. -/
def isCertified (c : Curvature) : Bool := c != unknown

/-! ### Composition -/

/-- Curvature of `-f`: convex and concave change places. -/
def neg : Curvature → Curvature
  | convex => concave
  | concave => convex
  | c => c

/-- Curvature of `f + g`. -/
def add : Curvature → Curvature → Curvature
  | constant, c | c, constant => c
  | affine, c | c, affine => c
  | a, b => if a = b then a else unknown

/-- Curvature of `k * f` for a constant `k` of the given sign.

A zero factor leaves a constant, whatever `f` is.  A factor of unknown sign
keeps a constant constant and loses everything else. -/
def scale : Sign → Curvature → Curvature
  | .zero, _ => constant
  | .nonneg, c => c
  | .nonpos, c => c.neg
  | .unknown, c => if c.isConstant then constant else unknown

instance : Neg Curvature := ⟨neg⟩
instance : Add Curvature := ⟨add⟩

/-! ### Texts -/

/-- The curvature as it stands in reports. -/
def label : Curvature → String
  | constant => "CONSTANT"
  | affine => "AFFINE"
  | convex => "CONVEX"
  | concave => "CONCAVE"
  | unknown => "UNKNOWN"

/-- The curvature as it stands among the fields of an inspected value. -/
def inspect : Curvature → String
  | constant => "Constant"
  | affine => "Affine"
  | convex => "Convex"
  | concave => "Concave"
  | unknown => "Unknown"

instance : ToString Curvature := ⟨label⟩

/-! ### Laws -/

@[simp] theorem add_self (c : Curvature) : add c c = c := by
  cases c <;> rfl

theorem add_comm (a b : Curvature) : add a b = add b a := by
  cases a <;> cases b <;> rfl

theorem add_assoc (a b c : Curvature) : add (add a b) c = add a (add b c) := by
  cases a <;> cases b <;> cases c <;> rfl

theorem neg_eq_constant_iff {c : Curvature} : c.neg = constant ↔ c = constant := by
  cases c <;> decide

/-- A sum is constant only if both terms are. -/
theorem add_eq_constant_iff {a b : Curvature} :
    add a b = constant ↔ a = constant ∧ b = constant := by
  cases a <;> cases b <;> decide

/-- What is scaled is constant already, unless it is scaled by zero. -/
theorem scale_eq_constant_iff {s : Sign} {c : Curvature} :
    scale s c = constant ↔ s = .zero ∨ c = constant := by
  cases s <;> cases c <;> decide

theorem le_iff_add_eq (a b : Curvature) : a ≤ b ↔ add a b = b := by
  cases a <;> cases b <;> decide

theorem isAffine_iff (c : Curvature) : c.isAffine = (c.isConvex && c.isConcave) := by
  cases c <;> decide

end Curvature

end DisciplinedConvex
