/-
DisciplinedConvex/Session/Step.lean

The steps of a session and what each of them builds.

An operation comes in two forms: the checked form reports why its operands are
refused, the other one stops.  Either way a step that fails builds nothing, and
the numbers that it spent stay spent.

A step reads all that it names, in order, before it completes a value, and completes
all values before it casts one.  A chain is the exception: it does this with its
operand in each link, so a chain without links never looks at it.
-/
import DisciplinedConvex.Build.Entries
import DisciplinedConvex.Session.Register

namespace DisciplinedConvex

open Build

/-- What is done again and again in a chain. -/
inductive Link where
  /-- An operation with the same operand on the right each time; a literal is cast anew. -/
  | operate (op : Operation) (b : Operand)
  | negate
  | transpose
  | index (key : Key)
  /-- The sum with itself. -/
  | double

/-- A step of a session. -/
inductive Step where
  /-- A new variable with a shape, maybe a name, and bounds of which the last counts. -/
  | declare (rows cols : UInt64) (name : Option String) (bounds : List Bound)
  | constant (l : Literal) (isChecked : Bool)
  /-- A constant with one entry throughout. -/
  | filled (rows cols : UInt64) (x : Float)
  /-- The square matrix with ones on the diagonal. -/
  | identity (n : UInt64)
  /-- An operand as an expression. -/
  | cast (a : Operand)
  | operate (op : Operation) (a b : Operand) (isChecked : Bool)
  | negate (a : Nat)
  | transpose (a : Nat)
  | index (a : Nat) (key : Key)
  /-- The `n`-th entry, after all before it. -/
  | entry (a n : Nat)
  /-- A link, `n` times over. -/
  | chain (a : Nat) (link : Link) (n : Nat)
  /-- The `n`-th part of what a register holds. -/
  | part (a n : Nat)
  /-- The expression to minimise in place of the objective of a problem. -/
  | asMinimization (a : Nat)
  | compare (c : Comparison) (a b : Operand)
  /-- A problem with an objective and constraints from registers; its verdict is asked for at
  once. -/
  | pose (sense : Sense) (a : Operand) (constraints : List Nat)
  /-- Two passes over the entries: `n` entries of the first, a second one from there to the end, and
  then the rest of the first. -/
  | entries (a n : Nat)
  /-- Spends a number on nothing. -/
  | freshId
  /-- Empties a register; what is released with it shows nowhere. -/
  | drop (a : Nat)
  /-- Builds nothing. -/
  | idle

/-- What was seen in two passes over the entries of an expression. -/
structure EntryReport where
  /-- Number of entries of the expression. -/
  length : UInt64
  head : List Expr
  /-- Number of entries to come after the head. -/
  remaining : UInt64
  copy : List Expr
  rest : List Expr
  /-- The first pass is finished in the end. -/
  isFinished : Bool

/-- The result of a step that did not fail. -/
inductive Reply where
  | expr (e : Expr)
  | constraint (c : Constraint)
  | problem (p : Problem) (verdict : Except Error Unit)
  | entries (r : EntryReport)
  | number (n : Nat)
  | nothing

/-- What a reply leaves in the register of its step. -/
def Reply.cell : Reply → Cell
  | expr e => .expr e
  | constraint c => .constraint c
  | problem p _ => .problem p
  | entries _ | number _ | nothing => .empty

namespace Step

/-- Looks something up in the registers. -/
def lookUp {α : Type} (x : Except Fault α) : Build α := MonadExcept.ofExcept x

/-- The form of an operation that reports refusals, or the one that stops. -/
def inForm {α : Type} (isChecked : Bool) (b : Build α) : Build α :=
  if isChecked then b else b.insist

/-- Does the same thing `n` times over. -/
def iterate (n : Nat) (f : Expr → Build Expr) (e : Expr) : Build Expr :=
  match n with
  | 0 => pure e
  | n + 1 => do iterate n f (← f e)

/-- One link of a chain. -/
def link (rs : Registers) (l : Link) (acc : Expr) : Build Expr :=
  match l with
  | .operate op b => do
    let b ← lookUp (b.found rs)
    let b ← lookUp b.ready
    op.apply acc (← b.cast)
  | .negate => negation acc
  | .transpose => transposed acc
  | .index key => indexed acc key
  | .double => sum acc acc

/-- The two passes over the entries of an expression. -/
def passes (e : Expr) (n : Nat) : Build EntryReport := do
  let start := Entries.ofExpr e
  let (head, p) ← start.take n
  let (copy, _) ← p.drain
  let (rest, q) ← p.drain
  return {
    length := start.remaining
    head
    remaining := p.remaining
    copy
    rest
    isFinished := q.isFinished }

/-- What a step builds from the registers.  Emptying a register is not a build and left to the
session. -/
def build (rs : Registers) : Step → Build Reply
  | declare rows cols name bounds => do
    return .expr (← (newVariable rows cols name bounds).insist)
  | constant l isChecked => do
    let v ← lookUp l.value
    return .expr (← inForm isChecked (Build.constant v))
  | filled rows cols x => do return .expr (← (Build.filled rows cols x).insist)
  | identity n => do return .expr (← (Build.identity n).insist)
  | cast a => do
    let a ← lookUp (a.found rs)
    let a ← lookUp a.ready
    return .expr (← a.cast)
  | operate op a b isChecked => do
    let a ← lookUp (a.found rs)
    let b ← lookUp (b.found rs)
    let a ← lookUp a.ready
    let b ← lookUp b.ready
    let x ← a.cast
    let y ← b.cast
    return .expr (← inForm isChecked (op.apply x y))
  | negate a => do return .expr (← negation (← lookUp (rs.expr a)))
  | transpose a => do return .expr (← transposed (← lookUp (rs.expr a)))
  | index a key => do return .expr (← indexed (← lookUp (rs.expr a)) key)
  | entry a n => do
    match ← (Entries.ofExpr (← lookUp (rs.expr a))).nth? n with
    | some e => return .expr e
    | none => return .nothing
  | chain a l n => do
    return .expr (← iterate n (link rs l) (← lookUp (rs.expr a)))
  | part a n => do return .expr (← lookUp (rs.part a n))
  | asMinimization a => do
    return .expr (← Build.asMinimization (← lookUp (rs.problem a)).objective)
  | compare c a b => do
    let a ← lookUp (a.found rs)
    let b ← lookUp (b.found rs)
    let a ← lookUp a.ready
    let b ← lookUp b.ready
    let lhs ← (c.sides a b).1.cast
    let rhs ← (c.sides a b).2.cast
    return .constraint (← Build.constraint c.kind lhs rhs)
  | pose sense a constraints => do
    let a ← lookUp (a.found rs)
    let constraints ← lookUp (constraints.mapM rs.constraint)
    let a ← lookUp a.ready
    let p : Problem := { objective := { sense, expr := ← a.cast }, constraints }
    return .problem p (← verdict p)
  | entries a n => do return .entries (← passes (← lookUp (rs.expr a)) n)
  | freshId => do return .number (← Build.freshId)
  | drop _ | idle => return .nothing

end Step

end DisciplinedConvex
