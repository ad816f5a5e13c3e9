/-
DisciplinedConvex/Expr/Render.lean

The text of an expression.

Sums, products, quotients and negations stand between parentheses under every
operator but the sum; a transpose is written `.T` and a selection between
brackets behind its operand, and a variable without a name is named by its
number.  `text` writes from a stack of pieces, so that depth does not matter;
`rendered` is the same text told by recursion on the expression.
-/
import DisciplinedConvex.Expr

namespace DisciplinedConvex.Expr

/-- Needs parentheses as an operand. -/
def isCompound : Expr → Bool
  | add .. | mul .. | div .. | neg .. => true
  | var .. | const .. | transpose .. | index .. => false

/-- The text of a variable. -/
def variableText (l : Label) (d : Declaration) : String :=
  d.name.getD ("var" ++ toString l.id)

/-! ### With a stack -/

/-- What is still to be written. -/
inductive Piece where
  /-- An expression, as an operand or not. -/
  | expr (e : Expr) (isOperand : Bool)
  | text (s : String)

/-- Bounds the number of pieces that come of a piece. -/
def Piece.weight : Piece → Nat
  | expr e _ => 4 * e.size
  | text _ => 1

/-- Bounds the number of pieces that come of all pieces in a list. -/
def Piece.weights : List Piece → Nat
  | [] => 0
  | p :: ps => p.weight + weights ps

theorem Piece.weights_append (ps qs : List Piece) :
    weights (ps ++ qs) = weights ps + weights qs := by
  induction ps with
  | nil => simp [weights]
  | cons p ps ih => simp [weights, ih, Nat.add_assoc]

/-- The pieces of a node, from left to right, without its parentheses. -/
def pieces : Expr → List Piece
  | var l d => [.text (variableText l d)]
  | const _ v => [.text v.text]
  | add _ a b => [.expr a false, .text " + ", .expr b false]
  | neg _ a => [.text "-", .expr a true]
  | mul _ a b => [.expr a true, .text " * ", .expr b true]
  | div _ a b => [.expr a true, .text " / ", .expr b true]
  | transpose _ a => [.expr a true, .text ".T"]
  | index _ a s => [.expr a true, .text s.text]

theorem weights_pieces (e : Expr) : Piece.weights (pieces e) + 3 ≤ 4 * e.size := by
  cases e <;> simp [pieces, Piece.weights, Piece.weight, size] <;> omega

/-- Writes the pieces on the stack behind the text written so far. -/
def write (out : String) : List Piece → String
  | [] => out
  | .text s :: stack => write (out ++ s) stack
  | .expr e isOperand :: stack =>
    if isOperand && e.isCompound then write (out ++ "(") (pieces e ++ .text ")" :: stack)
    else write out (pieces e ++ stack)
termination_by stack => Piece.weights stack
decreasing_by
  all_goals simp only [Piece.weights_append, Piece.weights, Piece.weight]
  · omega
  · have := weights_pieces e
    omega
  · have := weights_pieces e
    omega

/-- The text of an expression. -/
def text (e : Expr) : String := write "" [.expr e false]

/-! ### By recursion -/

/-- The text between parentheses if it is that of an operand. -/
def enclosed (isOperand : Bool) (s : String) : String :=
  if isOperand then "(" ++ s ++ ")" else s

/-- The text of an expression, as an operand or not: sums, products, quotients and negations are
enclosed as operands, and nothing else is. -/
def rendered (e : Expr) (isOperand : Bool) : String :=
  match e with
  | var l d => variableText l d
  | const _ v => v.text
  | add _ a b => enclosed isOperand (a.rendered false ++ " + " ++ b.rendered false)
  | neg _ a => enclosed isOperand ("-" ++ a.rendered true)
  | mul _ a b => enclosed isOperand (a.rendered true ++ " * " ++ b.rendered true)
  | div _ a b => enclosed isOperand (a.rendered true ++ " / " ++ b.rendered true)
  | transpose _ a => a.rendered true ++ ".T"
  | index _ a s => a.rendered true ++ s.text

/-! ### Fields of a node -/

/-- The node with the names of its fields. -/
def inspect (e : Expr) : String :=
  Text.record "Expr"
    [("id", toString e.id), ("kind", Text.quote e.kind), ("name", Text.quote e.text),
      ("curvature", e.curvature.inspect), ("sign", e.sign.inspect), ("shape", e.shape.inspect)]

instance : ToString Expr := ⟨text⟩

end DisciplinedConvex.Expr
