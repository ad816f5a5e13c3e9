/-
DisciplinedConvex/Build/Entries.lean

The entries of an expression one by one, column after column.

A pass over the entries knows how many are still to come.  Each entry of a
matrix is a node of its own, built when the pass comes to it; a scalar is its
own only entry, and nothing is built.
-/
import DisciplinedConvex.Build.Arithmetic

namespace DisciplinedConvex

/-- A pass over the entries of an expression: the next one and the end. -/
structure Entries where
  expr : Expr
  next : UInt64
  stop : UInt64

namespace Entries

/-- A pass that starts at the first entry. -/
def ofExpr (e : Expr) : Entries where
  expr := e
  next := 0
  stop := e.shape.numel

/-- Number of entries still to come. -/
def remaining (p : Entries) : UInt64 := p.stop - p.next

def isFinished (p : Entries) : Bool := p.stop ≤ p.next

/-- The pass after its next entry. -/
def advance (p : Entries) : Entries := { p with next := p.next + 1 }

/-- Builds the next entry of a pass that is not finished. -/
def build (p : Entries) : Build Expr :=
  Build.entry p.expr (p.next % p.expr.shape.rows) (p.next / p.expr.shape.rows)

theorem toNat_advance {p : Entries} (h : ¬ p.isFinished) :
    p.advance.next.toNat = p.next.toNat + 1 := by
  have hlt : p.next.toNat < p.stop.toNat := by
    simpa [isFinished, UInt64.le_iff_toNat_le] using h
  have := p.stop.toNat_lt
  simp only [advance, UInt64.toNat_add, UInt64.toNat_one]
  omega

/-- Up to `n` entries, and the pass that is left. -/
def take (n : Nat) (p : Entries) : Build (List Expr × Entries) :=
  match n with
  | 0 => pure ([], p)
  | n + 1 =>
    if p.isFinished then pure ([], p)
    else do
      let e ← p.build
      let (es, rest) ← take n p.advance
      return (e :: es, rest)

/-- All entries that are left, and the finished pass. -/
def drain (p : Entries) : Build (List Expr × Entries) := p.take p.remaining.toNat

/-- The entry after `n` others, which are built too; none if the pass ends before. -/
def nth? (n : Nat) (p : Entries) : Build (Option Expr) := do
  let (es, _) ← p.take (n + 1)
  return es[n]?

end Entries

end DisciplinedConvex
