/-
DisciplinedConvex/Expr.lean

Expressions over matrix variables.

Every node has a number and carries the attributes that were derived when it
was built.  A node is never changed, so one node may stand at several places:
two occurrences with the same number are the same node, and comparison (`==`)
goes by number.  An expression is made by the operations of
`DisciplinedConvex.Build`, which give each node a number of its own.
-/
import DisciplinedConvex.Attributes
import DisciplinedConvex.Selection
import DisciplinedConvex.Value

namespace DisciplinedConvex

/-- A bound that is declared for every entry of a variable. -/
inductive Bound where
  | nonneg
  | nonpos
deriving DecidableEq, Repr

/-- The sign that a bound declares. -/
def Bound.sign : Bound → Sign
  | nonneg => .nonneg
  | nonpos => .nonpos

/-- What is laid down of a variable when it is introduced. -/
structure Declaration where
  shape : Shape
  name : Option String := none
  bound : Option Bound := none
deriving DecidableEq

namespace Declaration

/-- The declared sign, unknown if no bound is declared. -/
def sign (d : Declaration) : Sign :=
  match d.bound with
  | some b => b.sign
  | none => .unknown

/-- Declares bounds in order; the last one counts. -/
def declare (d : Declaration) (bounds : List Bound) : Declaration :=
  bounds.foldl (fun d b => { d with bound := some b }) d

/-- A variable is affine, of the shape and sign declared for it. -/
def attributes (d : Declaration) : Attributes where
  curvature := .affine
  sign := d.sign
  shape := d.shape

end Declaration

/-- The number of a node and what is known of it.  Numbers have no end; the first `2 ^ 64` of them
are those of a counter of 64 bits, which starts again at zero after that (`Expr.word`). -/
structure Label where
  id : Nat
  attributes : Attributes
deriving DecidableEq

/-- An expression. -/
inductive Expr where
  /-- A variable. -/
  | var (label : Label) (declaration : Declaration)
  /-- A constant. -/
  | const (label : Label) (value : Value)
  /-- `lhs + rhs`; a scalar is added to every entry. -/
  | add (label : Label) (lhs rhs : Expr)
  /-- `-arg`. -/
  | neg (label : Label) (arg : Expr)
  /-- `factor * arg`, where the factor is constant. -/
  | mul (label : Label) (factor arg : Expr)
  /-- `arg / divisor`, where the divisor is a constant scalar. -/
  | div (label : Label) (arg divisor : Expr)
  /-- The transpose of a matrix that is no scalar. -/
  | transpose (label : Label) (arg : Expr)
  /-- The selected entries of a matrix that is no scalar. -/
  | index (label : Label) (arg : Expr) (selection : Selection)

namespace Expr

/-- Number and attributes of the topmost node. -/
def label : Expr → Label
  | var l _ | const l _ | add l _ _ | neg l _ | mul l _ _ | div l _ _ | transpose l _
  | index l _ _ => l

/-- The number of the topmost node. -/
def id (e : Expr) : Nat := e.label.id

/-- The number of the topmost node as a counter of 64 bits gives it. -/
def word (e : Expr) : UInt64 := .ofNat e.id

/-- What is known of the value. -/
def attributes (e : Expr) : Attributes := e.label.attributes

def curvature (e : Expr) : Curvature := e.attributes.curvature

def sign (e : Expr) : Sign := e.attributes.sign

def shape (e : Expr) : Shape := e.attributes.shape

/-- The operands, from left to right. -/
def children : Expr → List Expr
  | var _ _ | const _ _ => []
  | add _ a b | mul _ a b | div _ a b => [a, b]
  | neg _ a | transpose _ a | index _ a _ => [a]

/-- The name of the operation at the top. -/
def kind : Expr → String
  | var .. => "Variable"
  | const .. => "Constant"
  | add .. => "Add"
  | neg .. => "Neg"
  | mul .. => "Mul"
  | div .. => "Div"
  | transpose .. => "Transpose"
  | index .. => "Index"

/-! ### Identity -/

instance : BEq Expr := ⟨fun a b => a.id == b.id⟩

instance : Hashable Expr := ⟨fun e => hash e.id⟩

theorem beq_iff_id_eq (a b : Expr) : (a == b) = true ↔ a.id = b.id :=
  beq_iff_eq (α := Nat)

/-! ### What the attributes say -/

def isConstant (e : Expr) : Bool := e.curvature.isConstant

def isAffine (e : Expr) : Bool := e.curvature.isAffine

def isConvex (e : Expr) : Bool := e.curvature.isConvex

def isConcave (e : Expr) : Bool := e.curvature.isConcave

/-- The curvature is certified. -/
def isCertified (e : Expr) : Bool := e.curvature.isCertified

def isZero (e : Expr) : Bool := e.sign.isZero

def isNonneg (e : Expr) : Bool := e.sign.isNonneg

def isNonpos (e : Expr) : Bool := e.sign.isNonpos

def isScalar (e : Expr) : Bool := e.shape.isScalar

def isColumn (e : Expr) : Bool := e.shape.isColumn

/-- Number of entries of what is no scalar; a scalar is not a sequence of one entry. -/
def length? (e : Expr) : Option UInt64 :=
  if e.isScalar then none else some e.shape.numel

/-- One item for each entry, row by row. -/
def grid {α : Type} (e : Expr) (x : α) : List (List α) :=
  List.replicate e.shape.rows.toNat (List.replicate e.shape.cols.toNat x)

/-! ### Leaves -/

def isVariable : Expr → Bool
  | var .. => true
  | _ => false

/-- The number of a variable. -/
def variableId? : Expr → Option Nat
  | var l _ => some l.id
  | _ => none

/-- Number and shape of a variable. -/
def variableShape? : Expr → Option (Nat × Shape)
  | var l d => some (l.id, d.shape)
  | _ => none

/-- The value of a constant leaf. -/
def value? : Expr → Option Value
  | const _ v => some v
  | _ => none

/-! ### Unfolded size -/

/-- Number of nodes, each counted as often as it occurs. -/
def size : Expr → Nat
  | var _ _ | const _ _ => 1
  | add _ a b | mul _ a b | div _ a b => a.size + b.size + 1
  | neg _ a | transpose _ a | index _ a _ => a.size + 1

theorem size_pos (e : Expr) : 0 < e.size := by
  cases e <;> simp [size]

/-- Number of nodes of all expressions in a list. -/
def sizes : List Expr → Nat
  | [] => 0
  | e :: es => e.size + sizes es

theorem sizes_append (xs ys : List Expr) : sizes (xs ++ ys) = sizes xs + sizes ys := by
  induction xs with
  | nil => simp [sizes]
  | cons e xs ih => simp [sizes, ih, Nat.add_assoc]

theorem size_eq (e : Expr) : e.size = sizes e.children + 1 := by
  cases e <;> simp [size, sizes, children]

end Expr

end DisciplinedConvex
