/-
DisciplinedConvex/Proofs/Graph/WellFormed.lean

Well-formed expressions, and that every builder keeps to them.

In a well-formed expression each node records the attributes that are derived
from its operands, the factor of a product and the divisor of a quotient are
constant, the divisor is a scalar, transposes and selections are taken of what is
no scalar, and a selection lies on the axes of its operand.  The builders of
`DisciplinedConvex.Build` make well-formed expressions of well-formed ones, and
none of them looks at a ledger to do so.
-/
import Mathlib
import DisciplinedConvex.Build.Entries
import DisciplinedConvex.Build.Leaf
import DisciplinedConvex.Build.Comparison
import DisciplinedConvex.Proofs.Graph.Outcome
import DisciplinedConvex.Proofs.Indexing.Slice

namespace DisciplinedConvex

/-- Every node records what is derived from its operands, and its operands fit. -/
inductive Expr.WellFormed : Expr → Prop
  | var {l : Label} {d : Declaration} (hl : l.attributes = d.attributes) : WellFormed (.var l d)
  | const {l : Label} {v : Value} (hshape : v.shape = .ok l.attributes.shape)
      (hcurv : l.attributes.curvature = .constant) (hsign : l.attributes.sign = v.sign) :
      WellFormed (.const l v)
  | add {l : Label} {a b : Expr} (ha : a.WellFormed) (hb : b.WellFormed)
      (hl : a.attributes.add b.attributes = .ok l.attributes) : WellFormed (.add l a b)
  | neg {l : Label} {a : Expr} (ha : a.WellFormed) (hl : l.attributes = a.attributes.neg) :
      WellFormed (.neg l a)
  | mul {l : Label} {k a : Expr} (hk : k.WellFormed) (ha : a.WellFormed)
      (hconst : k.isConstant = true) (hl : k.attributes.mul a.attributes = .ok l.attributes) :
      WellFormed (.mul l k a)
  | div {l : Label} {a k : Expr} (ha : a.WellFormed) (hk : k.WellFormed)
      (hconst : k.isConstant = true) (hscalar : k.isScalar = true)
      (hl : l.attributes = a.attributes.div k.attributes) : WellFormed (.div l a k)
  | transpose {l : Label} {a : Expr} (ha : a.WellFormed) (hscalar : a.isScalar = false)
      (hl : l.attributes = a.attributes.transpose) : WellFormed (.transpose l a)
  | index {l : Label} {a : Expr} {s : Selection} {t : Shape} (ha : a.WellFormed)
      (hscalar : a.isScalar = false) (hfits : s.Fits a.shape) (ht : s.shape = .ok t)
      (hl : l.attributes = a.attributes.select t) : WellFormed (.index l a s)

/-- The operands of a well-formed expression are well-formed. -/
theorem Expr.WellFormed.child {e c : Expr} (he : e.WellFormed) (hc : c ∈ e.children) :
    c.WellFormed := by
  cases he with
  | var hl => cases hc
  | const hshape hcurv hsign => cases hc
  | add ha hb hl =>
    simp only [children, List.mem_cons, List.not_mem_nil, or_false] at hc
    rcases hc with rfl | rfl <;> assumption
  | neg ha hl => rwa [List.mem_singleton.1 hc]
  | mul hk ha hconst hl =>
    simp only [children, List.mem_cons, List.not_mem_nil, or_false] at hc
    rcases hc with rfl | rfl <;> assumption
  | div ha hk hconst hscalar hl =>
    simp only [children, List.mem_cons, List.not_mem_nil, or_false] at hc
    rcases hc with rfl | rfl <;> assumption
  | transpose ha hscalar hl => rwa [List.mem_singleton.1 hc]
  | index ha hscalar hfits ht hl => rwa [List.mem_singleton.1 hc]

/-- The sides of a constraint are well-formed, and its residual is their difference. -/
structure Constraint.WellFormed (c : Constraint) : Prop where
  residual : c.residual.WellFormed
  difference : ∃ l m, c.residual = .add l c.lhs (.neg m c.rhs)

theorem Constraint.WellFormed.lhs {c : Constraint} (hc : c.WellFormed) : c.lhs.WellFormed := by
  obtain ⟨l, m, hr⟩ := hc.difference
  refine hc.residual.child ?_
  rw [hr]
  exact List.mem_cons_self

theorem Constraint.WellFormed.rhs {c : Constraint} (hc : c.WellFormed) : c.rhs.WellFormed := by
  obtain ⟨l, m, hr⟩ := hc.difference
  have hneg : (Expr.neg m c.rhs).WellFormed := by
    refine hc.residual.child ?_
    rw [hr]
    exact List.mem_cons_of_mem _ List.mem_cons_self
  exact hneg.child List.mem_cons_self

/-- The objective and the constraints of a problem are well-formed. -/
structure Problem.WellFormed (p : Problem) : Prop where
  objective : p.objective.expr.WellFormed
  constraints : ∀ c ∈ p.constraints, c.WellFormed

theorem Problem.WellFormed.expressions {p : Problem} (hp : p.WellFormed) {e : Expr}
    (he : e ∈ p.expressions) : e.WellFormed := by
  simp only [Problem.expressions, List.mem_cons, List.mem_map] at he
  rcases he with rfl | ⟨c, hc, rfl⟩
  · exact hp.objective
  · exact (hp.constraints c hc).residual

namespace Build

/-! ### Leaves -/

theorem newVariable_wellFormed (rows cols : UInt64) (name : Option String) (bounds : List Bound) :
    (newVariable rows cols name bounds).Yields Expr.WellFormed :=
  (yields_check _).bind fun _ _ => yields_node fun _ => .var rfl

theorem constant_wellFormed (v : Value) : (constant v).Yields Expr.WellFormed :=
  (yields_check _).bind fun _ hs => yields_node fun _ => .const hs rfl rfl

theorem filled_wellFormed (rows cols : UInt64) (x : Float) :
    (filled rows cols x).Yields Expr.WellFormed := by
  refine (yields_check _).bind fun s _ => ?_
  split
  · exact constant_wellFormed _
  · exact constant_wellFormed _

theorem identity_wellFormed (n : UInt64) : (identity n).Yields Expr.WellFormed :=
  constant_wellFormed _

/-! ### Operations -/

variable {a b k : Expr}

theorem sum_wellFormed (ha : a.WellFormed) (hb : b.WellFormed) : (sum a b).Yields Expr.WellFormed :=
  (yields_check _).bind fun _ hl => yields_node fun _ => .add ha hb hl

theorem negation_wellFormed (ha : a.WellFormed) : (negation a).Yields Expr.WellFormed :=
  yields_node fun _ => .neg ha rfl

theorem difference_wellFormed (ha : a.WellFormed) (hb : b.WellFormed) :
    (difference a b).Yields Expr.WellFormed :=
  (negation_wellFormed hb).bind fun _ hc => sum_wellFormed ha hc

/-- A transpose keeps the curvature. -/
theorem transposed_wellFormed (ha : a.WellFormed) :
    (transposed a).Yields fun t : Expr => t.WellFormed ∧ t.isConstant = a.isConstant := by
  unfold transposed
  split
  · exact yields_pure ⟨ha, rfl⟩
  · rename_i hs
    exact yields_node fun _ => ⟨.transpose ha (Bool.eq_false_iff.2 hs) rfl, rfl⟩

theorem scaled_wellFormed (hk : k.WellFormed) (ha : a.WellFormed) (hconst : k.isConstant = true) :
    (scaled k a).Yields Expr.WellFormed :=
  (yields_check _).bind fun _ hl => yields_node fun _ => .mul hk ha hconst hl

theorem product_wellFormed (ha : a.WellFormed) (hb : b.WellFormed) :
    (product a b).Yields Expr.WellFormed := by
  unfold product
  split
  · rename_i hconst
    exact scaled_wellFormed ha hb hconst
  split
  · rename_i hconst
    refine (yields_check _).bind fun _ _ => ?_
    refine (yields_report _).bind fun _ _ => ?_
    refine (transposed_wellFormed hb).bind fun k hk => ?_
    refine (transposed_wellFormed ha).bind fun x hx => ?_
    refine (scaled_wellFormed hk.1 hx.1 (hk.2.trans hconst)).bind fun p hp => ?_
    exact (transposed_wellFormed hp).mono fun _ ht => ht.1
  · exact yields_throw _

theorem quotient_wellFormed (ha : a.WellFormed) (hk : k.WellFormed) :
    (quotient a k).Yields Expr.WellFormed := by
  unfold quotient
  split
  · rename_i h
    rw [Bool.and_eq_true] at h
    have hnode : (node (a.attributes.div k.attributes) (.div · a k)).Yields Expr.WellFormed :=
      yields_node fun _ => .div ha hk h.1 h.2 rfl
    split
    · exact (yields_report _).bind fun _ _ => hnode
    · exact hnode
  · exact yields_throw _

theorem selected_wellFormed {s : Selection} (ha : a.WellFormed) (hscalar : a.isScalar = false)
    (hs : s.Fits a.shape) : (selected a s).Yields Expr.WellFormed :=
  (yields_attempt _).bind fun _ ht => yields_node fun _ => .index ha hscalar hs ht rfl

theorem indexed_wellFormed (ha : a.WellFormed) (key : Key) :
    (indexed a key).Yields Expr.WellFormed := by
  unfold indexed
  split
  · exact yields_pure ha
  · rename_i h
    refine (yields_check _).bind fun s hs => ?_
    exact selected_wellFormed ha (Bool.eq_false_iff.2 h) (Key.resolve_fits hs)

theorem entry_wellFormed {row col : UInt64} (ha : a.WellFormed) (hr : row < a.shape.rows)
    (hc : col < a.shape.cols) : (entry a row col).Yields Expr.WellFormed := by
  unfold entry
  split
  · exact yields_pure ha
  · rename_i h
    exact selected_wellFormed ha (Bool.eq_false_iff.2 h) (Selection.entry_fits hr hc)

theorem operation_wellFormed (op : Operation) (ha : a.WellFormed) (hb : b.WellFormed) :
    (op.apply a b).Yields Expr.WellFormed := by
  cases op with
  | sum => exact sum_wellFormed ha hb
  | difference => exact difference_wellFormed ha hb
  | product => exact product_wellFormed ha hb
  | quotient => exact quotient_wellFormed ha hb

/-! ### Constraints and problems -/

/-- The residual of a constraint is the difference of its sides. -/
theorem constraint_wellFormed (kind : ConstraintKind) (ha : a.WellFormed) (hb : b.WellFormed) :
    (constraint kind a b).Yields Constraint.WellFormed := by
  have hr : (difference a b).Yields fun r => r.WellFormed ∧ ∃ l m, r = .add l a (.neg m b) := by
    have hneg : (negation b).Yields fun c => ∃ m, c.WellFormed ∧ c = .neg m b :=
      yields_node fun id => ⟨_, .neg hb rfl, rfl⟩
    refine hneg.bind fun c hc => ?_
    obtain ⟨m, hc, rfl⟩ := hc
    exact (yields_check _).bind fun _ hl => yields_node fun _ => ⟨.add ha hc hl, _, m, rfl⟩
  refine hr.bind fun r hr => ?_
  exact (yields_report _).bind fun _ _ => yields_pure ⟨hr.1, hr.2⟩

/-- A constraint keeps its kind and its sides, and the shapes of these fit. -/
theorem constraint_yields (kind : ConstraintKind) (a b : Expr) :
    (constraint kind a b).Yields fun c =>
      c.kind = kind ∧ c.lhs = a ∧ c.rhs = b ∧ ∃ s, a.shape.broadcast b.shape = .ok s := by
  have hneg : (negation b).Yields fun c => c.shape = b.shape := yields_node fun _ => rfl
  have hsum (c : Expr) (hc : c.shape = b.shape) :
      (sum a c).Yields fun _ => ∃ s, a.shape.broadcast b.shape = .ok s := by
    refine (yields_check _).bind fun m hm => yields_node fun _ => ?_
    obtain ⟨s, hs, -⟩ := Attributes.add_eq_ok_iff.1 hm
    exact ⟨s, hc ▸ hs⟩
  refine (hneg.bind hsum).bind fun r hr => ?_
  exact (yields_report _).bind fun _ _ => yields_pure ⟨rfl, rfl, rfl, hr⟩

theorem asMinimization_wellFormed {o : Objective} (ho : o.expr.WellFormed) :
    (asMinimization o).Yields Expr.WellFormed := by
  unfold asMinimization
  split
  · exact yields_pure ho
  · exact negation_wellFormed ho

end Build

/-! ### Entries one by one -/

namespace Entries

open Build

/-- A pass over a well-formed expression that ends at its last entry. -/
structure WellFormed (p : Entries) : Prop where
  expr : p.expr.WellFormed
  stop : p.stop = p.expr.shape.numel

theorem ofExpr_wellFormed {e : Expr} (he : e.WellFormed) : (ofExpr e).WellFormed := ⟨he, rfl⟩

theorem WellFormed.advance {p : Entries} (hp : p.WellFormed) : p.advance.WellFormed :=
  ⟨hp.expr, hp.stop⟩

/-- The entry that a pass comes to lies inside of the expression, also where the number of entries
does not fit a word. -/
theorem WellFormed.build {p : Entries} (hp : p.WellFormed) (h : p.isFinished = false) :
    p.build.Yields Expr.WellFormed := by
  have hnext : p.next.toNat < p.stop.toNat := by
    simpa [isFinished, UInt64.le_iff_toNat_le] using h
  have hstop : p.stop.toNat ≤ p.expr.shape.rows.toNat * p.expr.shape.cols.toNat := by
    rw [hp.stop, Shape.numel, UInt64.toNat_mul]
    exact Nat.mod_le _ _
  have hrows : 0 < p.expr.shape.rows.toNat := UInt64.lt_iff_toNat_lt.1 p.expr.shape.rows_pos
  refine entry_wellFormed hp.expr ?_ ?_
  · rw [UInt64.lt_iff_toNat_lt, UInt64.toNat_mod]
    exact Nat.mod_lt _ hrows
  · rw [UInt64.lt_iff_toNat_lt, UInt64.toNat_div]
    exact Nat.div_lt_of_lt_mul (hnext.trans_le hstop)

theorem take_wellFormed (n : ℕ) {p : Entries} (hp : p.WellFormed) :
    (p.take n).Yields fun r => (∀ e ∈ r.1, e.WellFormed) ∧ r.2.WellFormed := by
  induction n generalizing p with
  | zero => exact yields_pure ⟨by simp, hp⟩
  | succ n ih =>
    unfold take
    split
    · exact yields_pure ⟨by simp, hp⟩
    · rename_i hfin
      refine (hp.build (Bool.eq_false_iff.2 hfin)).bind fun e he => ?_
      refine (ih hp.advance).bind fun r hr => ?_
      exact yields_pure ⟨by simpa using ⟨he, hr.1⟩, hr.2⟩

theorem nth?_wellFormed (n : ℕ) {p : Entries} (hp : p.WellFormed) :
    (p.nth? n).Yields fun r => ∀ e ∈ r, e.WellFormed := by
  refine (take_wellFormed (n + 1) hp).bind fun r hr => ?_
  exact yields_pure fun e he => hr.1 e (List.mem_of_getElem? he)

end Entries

end DisciplinedConvex
