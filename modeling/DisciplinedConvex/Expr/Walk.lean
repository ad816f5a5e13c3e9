/-
DisciplinedConvex/Expr/Walk.lean

Visiting the nodes of an expression.

`walk` lists the nodes in pre-order, each distinct node once, however often it
occurs.  It keeps the nodes still to be visited on a stack and marks a node when
it is taken off, so that it takes time in the number of distinct nodes.
`preorder` is the same order told by recursion on the expression.
-/
import DisciplinedConvex.Expr
import Std.Data.HashSet

namespace DisciplinedConvex.Expr

/-! ### With a stack -/

/-- Visits what lies on the stack, topmost first, and passes over nodes that were seen before. -/
def visit (seen : Std.HashSet Nat) (visited : Array Expr) : List Expr → Array Expr
  | [] => visited
  | e :: stack =>
    if seen.contains e.id then visit seen visited stack
    else visit (seen.insert e.id) (visited.push e) (e.children ++ stack)
termination_by stack => sizes stack
decreasing_by
  · have := size_pos e
    simp only [sizes]
    omega
  · simp only [sizes_append, sizes, size_eq e]
    omega

/-- The distinct nodes of an expression in pre-order. -/
def walk (e : Expr) : List Expr := (visit ∅ #[] [e]).toList

/-! ### By recursion -/

/-- What was visited so far, and then the nodes of an expression that are not among it. -/
def preorder (visited : List Expr) (e : Expr) : List Expr :=
  if visited.any fun v => v.id == e.id then visited
  else
    match e with
    | var .. | const .. => visited ++ [e]
    | add _ a b | mul _ a b | div _ a b => preorder (preorder (visited ++ [e]) a) b
    | neg _ a | transpose _ a | index _ a _ => preorder (visited ++ [e]) a

/-! ### Variables -/

/-- The numbers of the variables of an expression, in ascending order and without repetitions; since
the walk visits each number once, there are none to erase (`variableIds_eq`). -/
def variableIds (e : Expr) : List Nat := (e.walk.filterMap variableId?).mergeSort.eraseReps

/-- `a` is a node of `e`. -/
inductive Reaches : Expr → Expr → Prop where
  | refl (e : Expr) : Reaches e e
  | child {e c a : Expr} (hc : c ∈ e.children) (ha : Reaches c a) : Reaches e a

/-- The number of distinct nodes in a list. -/
def countDistinct (es : List Expr) : Nat := (Std.HashSet.ofList es).size

end DisciplinedConvex.Expr
