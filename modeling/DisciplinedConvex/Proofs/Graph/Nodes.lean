/-
DisciplinedConvex/Proofs/Graph/Nodes.lean

What holds at each node of whatever a session keeps or hands out.

`Expr.Consistent` speaks of a single node: what it records is derived from what its
operands record, and its operands are fit for its operation.  An expression is
well-formed just where every node that it reaches is so (`wellFormed_iff_consistent`);
hence the invariant of sessions can be read off node by node, at any place in any
register, whatever steps failed on the way (`Session.run_consistent`).
-/
import DisciplinedConvex.Proofs.Graph.Buildable

namespace DisciplinedConvex

/-! ### One node -/

namespace Expr

/-- The node records what is derived from its operands, and its operands fit.  Of the nodes below
its operands nothing is said. -/
def Consistent : Expr → Prop
  | var l d => l.attributes = ⟨.affine, d.sign, d.shape⟩ ∧
      (d.sign = .unknown ∨ d.sign = .nonneg ∨ d.sign = .nonpos)
  | const l v => l.attributes.curvature = .constant ∧ l.attributes.sign = v.sign ∧
      v.shape = .ok l.attributes.shape
  | add l a b => a.attributes.add b.attributes = .ok l.attributes
  | neg l a => l.attributes = a.attributes.neg
  | mul l k a => k.curvature = .constant ∧ k.attributes.mul a.attributes = .ok l.attributes
  | div l a k => k.curvature = .constant ∧ k.shape = .scalar ∧
      l.attributes = a.attributes.div k.attributes
  | transpose l a => a.shape ≠ .scalar ∧ l.attributes = a.attributes.transpose
  | index l a s => a.shape ≠ .scalar ∧ s.Fits a.shape ∧
      ∃ t, s.shape = .ok t ∧ l.attributes = a.attributes.select t

theorem isConstant_iff {e : Expr} : e.isConstant = true ↔ e.curvature = .constant :=
  beq_iff_eq

theorem isScalar_eq_false_iff {e : Expr} : e.isScalar = false ↔ e.shape ≠ .scalar := by
  rw [← Bool.not_eq_true, isScalar, Shape.isScalar_iff]

end Expr

/-- No declaration makes a variable zero. -/
theorem Declaration.sign_cases (d : Declaration) :
    d.sign = .unknown ∨ d.sign = .nonneg ∨ d.sign = .nonpos := by
  unfold sign
  rcases d.bound with _ | _ | _
  · exact .inl rfl
  · exact .inr (.inl rfl)
  · exact .inr (.inr rfl)

namespace Expr

theorem WellFormed.consistent {e : Expr} (he : e.WellFormed) : e.Consistent := by
  cases he with
  | var hl => exact ⟨hl, Declaration.sign_cases _⟩
  | const hshape hcurv hsign => exact ⟨hcurv, hsign, hshape⟩
  | add ha hb hl => exact hl
  | neg ha hl => exact hl
  | mul hk ha hconst hl => exact ⟨isConstant_iff.1 hconst, hl⟩
  | div ha hk hconst hscalar hl =>
    exact ⟨isConstant_iff.1 hconst, (Shape.isScalar_iff _).1 hscalar, hl⟩
  | transpose ha hscalar hl => exact ⟨isScalar_eq_false_iff.1 hscalar, hl⟩
  | index ha hscalar hfits ht hl => exact ⟨isScalar_eq_false_iff.1 hscalar, hfits, _, ht, hl⟩

/-- A consistent node on well-formed operands is well-formed. -/
theorem Consistent.wellFormed {e : Expr} (he : e.Consistent)
    (hc : ∀ c ∈ e.children, c.WellFormed) : e.WellFormed := by
  cases e with
  | var l d => exact .var he.1
  | const l v => exact .const he.2.2 he.1 he.2.1
  | add l a b => exact .add (hc a (by simp [children])) (hc b (by simp [children])) he
  | neg l a => exact .neg (hc a (by simp [children])) he
  | mul l k a =>
    exact .mul (hc k (by simp [children])) (hc a (by simp [children])) (isConstant_iff.2 he.1) he.2
  | div l a k =>
    exact .div (hc a (by simp [children])) (hc k (by simp [children])) (isConstant_iff.2 he.1)
      ((Shape.isScalar_iff _).2 he.2.1) he.2.2
  | transpose l a =>
    exact .transpose (hc a (by simp [children])) (isScalar_eq_false_iff.2 he.1) he.2
  | index l a s =>
    obtain ⟨hscalar, hfits, t, ht, hl⟩ := he
    exact .index (hc a (by simp [children])) (isScalar_eq_false_iff.2 hscalar) hfits ht hl

/-! ### Every node -/

/-- Whatever a well-formed expression reaches is well-formed. -/
theorem WellFormed.reaches {e n : Expr} (he : e.WellFormed) (hn : e.Reaches n) : n.WellFormed := by
  induction hn with
  | refl e => exact he
  | child hc _ ih => exact ih (he.child hc)

/-- Induction from the operands of a node to the node. -/
theorem induction_on_children {p : Expr → Prop} (h : ∀ e, (∀ c ∈ e.children, p c) → p e)
    (e : Expr) : p e := by
  induction e with
  | var l d => exact h _ (by simp [children])
  | const l v => exact h _ (by simp [children])
  | add l a b iha ihb => exact h _ (by simp [children, iha, ihb])
  | neg l a iha => exact h _ (by simp [children, iha])
  | mul l k a ihk iha => exact h _ (by simp [children, ihk, iha])
  | div l a k iha ihk => exact h _ (by simp [children, iha, ihk])
  | transpose l a iha => exact h _ (by simp [children, iha])
  | index l a s iha => exact h _ (by simp [children, iha])

/-- To be well-formed is a matter of the nodes one by one. -/
theorem wellFormed_iff_consistent {e : Expr} :
    e.WellFormed ↔ ∀ n, e.Reaches n → n.Consistent := by
  refine ⟨fun he n hn => (he.reaches hn).consistent, fun h => ?_⟩
  -- what the operands reach is reached from the node
  induction e using induction_on_children with
  | h e ih => exact (h e (.refl e)).wellFormed fun c hc => ih c hc fun n hn => h n (.child hc hn)

end Expr

/-! ### Every node of a session -/

/-- The expressions that a register holds, alone or as parts of a constraint or a problem. -/
def Cell.exprs : Cell → List Expr
  | empty => []
  | expr e => [e]
  | constraint c => [c.lhs, c.rhs, c.residual]
  | problem p => p.objective.expr :: p.constraints.flatMap fun c => [c.lhs, c.rhs, c.residual]

theorem Constraint.WellFormed.exprs {c : Constraint} (hc : c.WellFormed) {e : Expr}
    (he : e ∈ [c.lhs, c.rhs, c.residual]) : e.WellFormed := by
  simp only [List.mem_cons, List.not_mem_nil, or_false] at he
  rcases he with rfl | rfl | rfl
  · exact hc.lhs
  · exact hc.rhs
  · exact hc.residual

/-- The residual records what is derived for the difference of the sides. -/
theorem Constraint.WellFormed.attributes {c : Constraint} (hc : c.WellFormed) :
    c.lhs.attributes.add c.rhs.attributes.neg = .ok c.residual.attributes := by
  obtain ⟨l, m, hr⟩ := hc.difference
  have hwf : (Expr.add l c.lhs (.neg m c.rhs)).WellFormed := hr ▸ hc.residual
  have hneg : m.attributes = c.rhs.attributes.neg :=
    (hwf.child (List.mem_cons_of_mem _ List.mem_cons_self)).consistent
  rw [hr, ← hneg]
  exact hwf.consistent

theorem Cell.WellFormed.exprs {c : Cell} (hc : c.WellFormed) {e : Expr} (he : e ∈ c.exprs) :
    e.WellFormed := by
  cases c with
  | empty => cases he
  | expr a => rwa [List.mem_singleton.1 he]
  | constraint c => exact Constraint.WellFormed.exprs hc he
  | problem p =>
    rcases List.mem_cons.1 he with rfl | he
    · exact Problem.WellFormed.objective hc
    · obtain ⟨d, hd, he⟩ := List.mem_flatMap.1 he
      exact (Problem.WellFormed.constraints hc d hd).exprs he

/-- After any steps, those that fail among them, every node that is reached from a register or
from an answer records what is derived from its operands; its operands are constant, scalar or no
scalar as its operation asks, its selection lies on the axes of its operand, and it has a row and a
column. -/
theorem Session.run_consistent (first : ℕ) (steps : List Step) {e : Expr}
    (he : (∃ (i : ℕ) (c : Cell),
        ((startingAt first).run steps).2.registers[i]? = some c ∧ e ∈ c.exprs) ∨
      ∃ r, .ok r ∈ ((startingAt first).run steps).1 ∧ e ∈ r.exprs)
    {n : Expr} (hn : e.Reaches n) :
    n.Consistent ∧ 1 ≤ n.shape.rows ∧ 1 ≤ n.shape.cols := by
  have hrun := run_wellFormed (s := startingAt first) Registers.wellFormed_empty steps
  have hwf : e.WellFormed := by
    rcases he with ⟨i, c, hc, hmem⟩ | ⟨r, hr, hmem⟩
    · exact (hrun.1 i c hc).exprs hmem
    · exact (hrun.2 r hr).exprs hmem
  exact ⟨Expr.wellFormed_iff_consistent.1 hwf n hn, n.shape.rows_pos, n.shape.cols_pos⟩

/-- The first and the last of three rows, under a constraint, after a step that failed. -/
theorem Session.run_consistent_rows :
    let steps : List Step := [
      .declare 3 2 none [],
      .index 0 (.pair (.range 0 9 2) .all),
      .operate .sum (.register 0) (.register 1) true,
      .compare .atLeast (.register 1) (.literal (.scalar 1.0))]
    ∃ c l a s, ((startingAt 0).run steps).2.registers[3]? = some (.constraint c) ∧
      c.residual.Reaches (.index l a s) ∧ s.rows = ⟨0, 3, 2⟩ ∧
      (Expr.index l a s).Consistent ∧
      1 ≤ l.attributes.shape.rows ∧ 1 ≤ l.attributes.shape.cols := by
  intro steps
  obtain ⟨c, l, a, s, hc, hr, hs⟩ : ∃ c l a s,
      ((startingAt 0).run steps).2.registers[3]? = some (.constraint c) ∧
        c.residual.Reaches (.index l a s) ∧ s.rows = ⟨0, 3, 2⟩ :=
    ⟨_, _, _, _, rfl,
      .child (List.mem_cons_of_mem _ List.mem_cons_self) (.child List.mem_cons_self (.refl _)), rfl⟩
  have hmem : c.residual ∈ (Cell.constraint c).exprs := by simp [Cell.exprs]
  exact ⟨c, l, a, s, hc, hr, hs, run_consistent 0 steps (.inl ⟨3, _, hc, hmem⟩) hr⟩

end DisciplinedConvex
