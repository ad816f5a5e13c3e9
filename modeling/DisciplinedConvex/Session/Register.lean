/-
DisciplinedConvex/Session/Register.lean

Registers: what the earlier steps of a session built.

A register holds an expression, a constraint or a problem, or is empty because
its step built nothing.  An operand names a register or is a literal.  It takes
three turns to make an expression of one: it is read, its value is completed, and
the value is cast.  Reading looks up a register and forms the value of a literal,
but the entries of a plain dense literal are counted only on completion.  The last
turn alone spends a number.
-/
import DisciplinedConvex.Build.Leaf
import DisciplinedConvex.Build.Comparison

namespace DisciplinedConvex

/-- What a step left behind. -/
inductive Cell where
  | empty
  | expr (e : Expr)
  | constraint (c : Constraint)
  | problem (p : Problem)

/-- The cells of the steps so far, the first step first. -/
abbrev Registers := Array Cell

namespace Registers

/-- The expression in a register. -/
def expr (rs : Registers) (i : Nat) : Except Fault Expr :=
  match rs[i]? with
  | some (.expr e) => .ok e
  | _ => .error .badReference

/-- The constraint in a register. -/
def constraint (rs : Registers) (i : Nat) : Except Fault Constraint :=
  match rs[i]? with
  | some (.constraint c) => .ok c
  | _ => .error .badReference

/-- The problem in a register. -/
def problem (rs : Registers) (i : Nat) : Except Fault Problem :=
  match rs[i]? with
  | some (.problem p) => .ok p
  | _ => .error .badReference

/-- The `n`-th part of what a register holds: an operand, a side or the residual of a constraint, or
an expression of a problem. -/
def part (rs : Registers) (i n : Nat) : Except Fault Expr :=
  let parts : List Expr :=
    match rs[i]? with
    | some (.expr e) => e.children
    | some (.constraint c) => [c.lhs, c.rhs, c.residual]
    | some (.problem p) => p.expressions
    | some .empty | none => []
  match parts[n]? with
  | some e => .ok e
  | none => .error .badReference

/-- Empties a register.  The memory of the nodes that nothing else leads to is not modelled, and
neither is the stack from which they are released one after the other: a node that something still
leads to is not released and not changed, so no step shows whether others were. -/
def clear (rs : Registers) (i : Nat) : Except Fault Registers :=
  if i < rs.size then .ok (rs.setIfInBounds i .empty) else .error .badReference

end Registers

/-! ### Operands -/

/-- An operand as it is written down. -/
inductive Operand where
  | register (i : Nat)
  | literal (l : Literal)

/-- An operand that was read. -/
inductive Found where
  | expr (e : Expr)
  | value (v : Value)
  /-- A dense literal whose entries are still to be counted. -/
  | dense (rows cols : UInt64) (entries : Array Float)

/-- An operand whose value is complete, before it is cast. -/
inductive Ready where
  | expr (e : Expr)
  | value (v : Value)

/-- Reads an operand. -/
def Operand.found (rs : Registers) : Operand → Except Fault Found
  | register i => (rs.expr i).map .expr
  | literal (.dense rows cols entries) => .ok (.dense rows cols entries)
  | literal l => l.value.map .value

/-- Completes the value of an operand. -/
def Found.ready : Found → Except Fault Ready
  | expr e => .ok (.expr e)
  | value v => .ok (.value v)
  | dense rows cols entries => (Literal.dense rows cols entries).value.map .value

/-- The expression itself, or a new constant.  A value without entries stops the build. -/
def Ready.cast : Ready → Build Expr
  | expr e => pure e
  | value v => (Build.constant v).insist

end DisciplinedConvex
