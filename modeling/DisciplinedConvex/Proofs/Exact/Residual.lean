/-
DisciplinedConvex/Proofs/Exact/Residual.lean

A constraint says what was compared, and is judged by its sides.

All that is said of a constraint is read off its residual: where it holds, whether it is
certified, and which variables are in it.  `Constraint.Faithful` states what comes of
this in terms of the two expressions that were compared, in the order in which they were
written.  A comparison is refused for the shapes of its operands or else makes a constraint
that is faithful to it (`Session.comparison_faithful`).
-/
import DisciplinedConvex.Proofs.Exact.Comparison
import DisciplinedConvex.Proofs.Graph.Affine
import DisciplinedConvex.Proofs.Soundness.Curvature
import DisciplinedConvex.Proofs.Traversal.Walk

namespace DisciplinedConvex

open Build

variable {K : Type} [OrderedField K] {cmp : Comparison} {a b : Expr} {c : Constraint}

/-! ### Sides -/

namespace Build.Comparison

/-- The kind of constraint asks of the sides what the comparison asks of its operands. -/
theorem relates_sides_iff (cmp : Comparison) (p q : K) :
    cmp.kind.Relates (cmp.sides p q).1 (cmp.sides p q).2 ↔ cmp.Relates p q := by
  cases cmp <;> exact Iff.rfl

/-- What holds of both operands holds of both sides. -/
theorem and_sides_iff {α : Type} (cmp : Comparison) {p : α → Prop} {a b : α} :
    p (cmp.sides a b).1 ∧ p (cmp.sides a b).2 ↔ p a ∧ p b := by
  cases cmp with
  | equal => exact Iff.rfl
  | atMost => exact Iff.rfl
  | atLeast => exact and_comm

theorem or_sides_iff {α : Type} (cmp : Comparison) {p : α → Prop} {a b : α} :
    p (cmp.sides a b).1 ∨ p (cmp.sides a b).2 ↔ p a ∨ p b := by
  cases cmp with
  | equal => exact Iff.rfl
  | atMost => exact Iff.rfl
  | atLeast => exact or_comm

theorem sides_map {α β : Type} (cmp : Comparison) (f : α → β) (a b : α) :
    cmp.sides (f a) (f b) = (f (cmp.sides a b).1, f (cmp.sides a b).2) := by
  cases cmp <;> rfl

end Build.Comparison

/-! ### Residuals -/

/-- The sides of an equality are affine; of an inequality the left one is convex and the right one
concave. -/
def ConstraintKind.Certifies : ConstraintKind → Expr → Expr → Prop
  | equality, lhs, rhs => lhs.isAffine = true ∧ rhs.isAffine = true
  | inequality, lhs, rhs => lhs.isConvex = true ∧ rhs.isConcave = true

namespace Constraint.WellFormed

theorem shape (hc : c.WellFormed) : c.lhs.shape.broadcast c.rhs.shape = .ok c.shape := by
  obtain ⟨s, hs, hattr⟩ := Attributes.add_eq_ok_iff.1 hc.attributes
  have hshape : c.shape = s := congrArg Attributes.shape hattr
  rw [hshape]
  exact hs

/-- At every assignment at which both sides have values so has the residual, entry by entry the
difference. -/
theorem eval_residual (hc : c.WellFormed) {x : Assignment K} {u w : Mat K}
    (hu : c.lhs.eval x = .ok u) (hw : c.rhs.eval x = .ok w) :
    c.residual.eval x = .ok (.ofFn c.shape.rows.toNat c.shape.cols.toNat
      fun i j => u.spread i j + -w.spread i j) := by
  obtain ⟨l, m, hr⟩ := hc.difference
  have hus := hc.lhs.hasShape hu
  have hws := hc.rhs.hasShape hw
  have hneg : (Expr.neg m c.rhs).eval x = .ok w.neg := Expr.eval_neg_eq_ok_iff.2 ⟨w, hw, rfl⟩
  have hsum := Mat.add_of_hasShape hus hws.neg hc.shape
  simp only [Mat.spread_neg] at hsum
  rw [hr]
  exact Expr.eval_add_eq_ok_iff.2 ⟨u, w.neg, hu, hneg, hsum⟩

theorem isCertified_iff (hc : c.WellFormed) :
    c.isCertified = true ↔ c.kind.Certifies c.lhs c.rhs := by
  have hcurv : c.residual.curvature = c.lhs.curvature.add c.rhs.curvature.neg := by
    obtain ⟨s, -, hattr⟩ := Attributes.add_eq_ok_iff.1 hc.attributes
    exact congrArg Attributes.curvature hattr
  unfold isCertified ConstraintKind.Certifies Expr.isAffine Expr.isConvex Expr.isConcave
  rw [hcurv]
  cases c.kind with
  | equality => rw [Curvature.isAffine_add, Curvature.isAffine_neg, Bool.and_eq_true]
  | inequality => rw [Curvature.isConvex_add, Curvature.isConvex_neg, Bool.and_eq_true]

/-- Nothing is lost below the residual. -/
theorem reaches_residual (hc : c.WellFormed) {n : Expr} (hn : c.lhs.Reaches n ∨ c.rhs.Reaches n) :
    c.residual.Reaches n := by
  obtain ⟨l, m, hr⟩ := hc.difference
  rw [hr]
  rcases hn with hn | hn
  · exact .child List.mem_cons_self hn
  · exact .child (List.mem_cons_of_mem _ List.mem_cons_self) (.child List.mem_cons_self hn)

/-- The variables below the residual are those below the sides. -/
theorem reaches_residual_iff (hc : c.WellFormed) {n : Expr} (hn : n.isVariable = true) :
    c.residual.Reaches n ↔ c.lhs.Reaches n ∨ c.rhs.Reaches n := by
  refine ⟨fun h => ?_, hc.reaches_residual⟩
  obtain ⟨l, m, hr⟩ := hc.difference
  rw [hr] at h
  -- neither the sum nor the negation is a variable
  rcases h with _ | ⟨hside, h⟩
  · cases hn
  simp only [Expr.children, List.mem_cons, List.not_mem_nil, or_false] at hside
  rcases hside with rfl | rfl
  · exact .inl h
  · rcases h with _ | ⟨hrhs, h⟩
    · cases hn
    · exact .inr (List.mem_singleton.1 hrhs ▸ h)

section Variables

variable (hc : c.WellFormed)
  (hid : ∀ n m, c.residual.Reaches n → c.residual.Reaches m → n.id = m.id → n = m) {i : ℕ}

include hc hid

/-- The variables of a constraint are those that its sides reach. -/
theorem mem_variableIds_iff_reaches :
    i ∈ c.variableIds ↔
      ∃ n, (c.lhs.Reaches n ∨ c.rhs.Reaches n) ∧ n.isVariable = true ∧ n.id = i :=
  (Expr.mem_variableIds_iff hid).trans
    (exists_congr fun _ => and_congr_left fun h => hc.reaches_residual_iff h.1)

theorem mem_variableIds_iff :
    i ∈ c.variableIds ↔ i ∈ c.lhs.variableIds ∨ i ∈ c.rhs.variableIds := by
  have hside {e : Expr} (he : ∀ n, e.Reaches n → c.residual.Reaches n) :
      i ∈ e.variableIds ↔ ∃ n, e.Reaches n ∧ n.isVariable = true ∧ n.id = i :=
    Expr.mem_variableIds_iff fun n m hn hm => hid n m (he n hn) (he m hm)
  rw [hc.mem_variableIds_iff_reaches hid, hside fun n hn => hc.reaches_residual (.inl hn),
    hside fun n hn => hc.reaches_residual (.inr hn), ← exists_or]
  exact exists_congr fun n => or_and_right

end Variables

end Constraint.WellFormed

/-! ### What a comparison makes -/

/-- The constraint keeps the operands of a comparison as its sides and their difference as its
residual; the residual compares with zero as the operands do; and verdict and variables are those of
the operands. -/
structure Constraint.Faithful (c : Constraint) (cmp : Comparison) (a b : Expr) : Prop where
  kind : c.kind = cmp.kind
  lhs : c.lhs = (cmp.sides a b).1
  rhs : c.rhs = (cmp.sides a b).2
  residual : ∃ l m, c.residual = .add l c.lhs (.neg m c.rhs)
  shape : c.lhs.shape.broadcast c.rhs.shape = .ok c.shape
  /-- Where both operands have values, entries of the residual relate to zero just where those of
  the operands are related as was written. -/
  holds : ∀ (K : Type) [OrderedField K] (x : Assignment K) (u w : Mat K),
    a.eval x = .ok u → b.eval x = .ok w →
    ∃ v, c.residual.eval x = .ok v ∧ v.HasShape c.shape ∧
      ((∀ i < c.shape.rows.toNat, ∀ j < c.shape.cols.toNat, c.kind.Relates (v.entry i j) 0) ↔
        ∀ i < c.shape.rows.toNat, ∀ j < c.shape.cols.toNat,
          cmp.Relates (u.spread i j) (w.spread i j))
  isCertified : c.isCertified = true ↔ c.kind.Certifies c.lhs c.rhs
  ascending : c.variableIds.Pairwise (· < ·)
  mem_variableIds : ∀ i, i ∈ c.variableIds ↔ i ∈ a.variableIds ∨ i ∈ b.variableIds
  /-- These are the variables that either operand reaches. -/
  mem_variableIds_reaches : ∀ i, i ∈ c.variableIds ↔
    ∃ n, (a.Reaches n ∨ b.Reaches n) ∧ n.isVariable = true ∧ n.id = i

/-- A well-formed constraint is faithful if it keeps the sides, and numbers tell the nodes below
it. -/
theorem Constraint.WellFormed.faithful (hc : c.WellFormed)
    (hid : ∀ n m, c.residual.Reaches n → c.residual.Reaches m → n.id = m.id → n = m)
    (hkind : c.kind = cmp.kind) (hlhs : c.lhs = (cmp.sides a b).1)
    (hrhs : c.rhs = (cmp.sides a b).2) : c.Faithful cmp a b where
  kind := hkind
  lhs := hlhs
  rhs := hrhs
  residual := hc.difference
  shape := hc.shape
  holds K _ x u w hu hw := by
    have hsides : c.lhs.eval x = .ok (cmp.sides u w).1 ∧ c.rhs.eval x = .ok (cmp.sides u w).2 := by
      rw [hlhs, hrhs]
      cases cmp with
      | equal => exact ⟨hu, hw⟩
      | atMost => exact ⟨hu, hw⟩
      | atLeast => exact ⟨hw, hu⟩
    refine ⟨_, hc.eval_residual hsides.1 hsides.2, Mat.hasShape_ofFn _ _, ?_⟩
    refine forall₂_congr fun i hi => forall₂_congr fun j hj => ?_
    rw [Mat.entry_ofFn, if_pos ⟨hi, hj⟩, hkind, ConstraintKind.relates_sub_iff,
      ← cmp.relates_sides_iff, cmp.sides_map (Mat.spread · i j)]
  isCertified := hc.isCertified_iff
  ascending := c.residual.pairwise_variableIds
  mem_variableIds i := by
    rw [hc.mem_variableIds_iff hid, hlhs, hrhs]
    exact cmp.or_sides_iff (p := fun e : Expr => i ∈ e.variableIds)
  mem_variableIds_reaches i := by
    rw [hc.mem_variableIds_iff_reaches hid, hlhs, hrhs]
    exact exists_congr fun n => and_congr_left' (cmp.or_sides_iff (p := (Expr.Reaches · n)))

/-! ### In sessions -/

/-- Two sides are refused for their shapes and for nothing else. -/
theorem Build.perform_constraint_eq_error_iff (kind : ConstraintKind) (l : Ledger) {f : Fault} :
    ((constraint kind a b).perform l).1 = .error f ↔
      (a.shape ≠ b.shape ∧ a.isScalar = false ∧ b.isScalar = false) ∧
        f = .rejected (.shapeMismatch "elementwise operation" a.shape b.shape) := by
  rcases Shape.broadcast_or_mismatch a.shape b.shape with
    ⟨r, hr, hra, hrb, -⟩ | ⟨hsa, hsb, hne, herr⟩
  · obtain ⟨c, l', hc⟩ := perform_constraint kind hr l
    rw [hc]
    refine ⟨nofun, fun h => ?_⟩
    exact absurd ((hra h.1.2.1).symm.trans (hrb h.1.2.2)) h.1.1
  · -- the negation is built, and the sum is refused
    have hattr (i : ℕ) : a.attributes.add (Expr.neg ⟨i, b.attributes.neg⟩ b).attributes =
        .error (.shapeMismatch "elementwise operation" a.shape b.shape) := by
      rw [Attributes.add]
      show (a.shape.broadcast b.shape >>= _) = _
      rw [herr]
      rfl
    have hperform : ((constraint kind a b).perform l).1 =
        .error (.rejected (.shapeMismatch "elementwise operation" a.shape b.shape)) := by
      rw [constraint, difference, negation, perform_bind, perform_bind, perform_node]
      dsimp only
      rw [sum, perform_bind, perform_check, hattr]
      rfl
    rw [hperform, Except.error.injEq, eq_comm]
    exact (and_iff_right ⟨hne, hsa, hsb⟩).symm

/-- Registers are compared by what they hold. -/
theorem Step.build_compare {rs : Registers} {i j : ℕ} (hi : rs.expr i = .ok a)
    (hj : rs.expr j = .ok b) :
    (Step.compare cmp (.register i) (.register j)).build rs =
      .constraint <$> cmp.constrain a b := by
  have hfound {k : ℕ} {e : Expr} (hk : rs.expr k = .ok e) :
      lookUp ((Operand.register k).found rs) = pure (.expr e) := by
    rw [Operand.found, hk]
    rfl
  have hready (e : Expr) : lookUp (Found.expr e).ready = pure (.expr e) := rfl
  have hcast (e : Expr) : (Ready.expr e).cast = pure e := rfl
  simp only [build, hfound hi, hfound hj, hready, pure_bind, cmp.sides_map Ready.expr, hcast,
    Comparison.constrain, map_eq_pure_bind]

namespace Session

/-- Two expressions that a session shows, however much they share, are compared: this fails just
where their shapes differ and neither of them is a scalar, and names both shapes in the order in
which the constraint would keep them; and else it makes a constraint that is faithful to the
comparison, the same for `a ≥ b` as for `b ≤ a`.  A step of the session that compares two registers
answers with what comes of this. -/
theorem comparison_faithful {first : ℕ} {steps : List Step} {a b : Expr}
    (ha : Shows first steps a) (hb : Shows first steps b) (cmp : Comparison) :
    let s := ((startingAt first).run steps).2
    let result := ((cmp.constrain a b).perform s.ledger).1
    (∀ f, result = .error f ↔ (a.shape ≠ b.shape ∧ a.isScalar = false ∧ b.isScalar = false) ∧
      f = .rejected (.shapeMismatch "elementwise operation" (cmp.sides a b).1.shape
        (cmp.sides a b).2.shape)) ∧
    (∀ c, result = .ok c → c.Faithful cmp a b) ∧
    Comparison.atLeast.constrain a b = Comparison.atMost.constrain b a ∧
    ∀ i j, s.registers.expr i = .ok a → s.registers.expr j = .ok b →
      (s.step (.compare cmp (.register i) (.register j))).1 = result.map .constraint := by
  intro s result
  obtain ⟨-, hs, -⟩ := run_accounted (accounted_startingAt first) steps
  have hlists : s.ledger.Lists (cmp.sides a b).1 ∧ s.ledger.Lists (cmp.sides a b).2 :=
    cmp.and_sides_iff.2 ⟨ha.lists, hb.lists⟩
  have hwf : (cmp.sides a b).1.WellFormed ∧ (cmp.sides a b).2.WellFormed :=
    cmp.and_sides_iff.2 ⟨ha.wellFormed, hb.wellFormed⟩
  have hkeeps := constraint_keeps cmp.kind hlists.1 hlists.2 hs.orderly
  refine ⟨fun f => ?_, fun c hc => ?_, rfl, fun i j hi hj => ?_⟩
  · have hsides : ((cmp.sides a b).1.shape ≠ (cmp.sides a b).2.shape ∧
          (cmp.sides a b).1.isScalar = false ∧ (cmp.sides a b).2.isScalar = false) ↔
        a.shape ≠ b.shape ∧ a.isScalar = false ∧ b.isScalar = false := by
      cases cmp with
      | equal => exact Iff.rfl
      | atMost => exact Iff.rfl
      | atLeast => exact and_congr ne_comm and_comm
    rw [← hsides]
    exact perform_constraint_eq_error_iff cmp.kind s.ledger
  · rcases hperform : (constraint cmp.kind (cmp.sides a b).1 (cmp.sides a b).2).perform s.ledger
      with ⟨r, l⟩
    obtain rfl : r = .ok c := (congrArg Prod.fst hperform).symm.trans hc
    have hcwf : c.WellFormed := constraint_wellFormed cmp.kind hwf.1 hwf.2 _ _ _ hperform
    rw [hperform] at hkeeps
    obtain ⟨-, hl, hbuilt⟩ := hkeeps
    have hresidual : l.Lists c.residual := hbuilt c rfl c.residual (by simp)
    -- the sides and the residual are in one ledger, where numbers tell the nodes
    have hid (n m : Expr) (hn : c.residual.Reaches n) (hm : c.residual.Reaches m)
        (h : n.id = m.id) : n = m :=
      hl.eq_of_id_eq (hl.reaches hresidual hn).1 (hl.reaches hresidual hm).1 h
    obtain ⟨hkind, hlhs, hrhs, -⟩ := constraint_yields _ _ _ _ _ _ hperform
    exact hcwf.faithful hid hkind hlhs hrhs
  · rw [step_compare, Step.build_compare hi hj, map_eq_pure_bind, perform_bind]
    show _ = Except.map Reply.constraint ((cmp.constrain a b).perform s.ledger).1
    rcases (cmp.constrain a b).perform s.ledger with ⟨f | c, l⟩ <;> rfl

/-- A scalar and a column in which it is a term, and a longer column that the first one cannot be
compared with. -/
theorem comparison_faithful_shared :
    let steps : List Step := [
      .declare 1 1 (some "t") [],
      .declare 2 1 (some "x") [],
      .operate .sum (.register 1) (.register 0) true,
      .declare 3 1 (some "y") []]
    let l := ((startingAt 0).run steps).2.ledger
    ∃ t x y c, Shows 0 steps t ∧ Shows 0 steps x ∧ Shows 0 steps y ∧
      ((Comparison.atLeast.constrain t x).perform l).1 = .ok c ∧ c.Faithful .atLeast t x ∧
      c.lhs = x ∧ c.rhs = t ∧
      ((Comparison.atLeast.constrain x y).perform l).1 =
        .error (.rejected (.shapeMismatch "elementwise operation" y.shape x.shape)) := by
  intro steps l
  obtain ⟨t, x, y, c, ht, hx, hy, hc, hshapes⟩ : ∃ t x y c,
      .ok (.expr t) ∈ ((startingAt 0).run steps).1 ∧
      .ok (.expr x) ∈ ((startingAt 0).run steps).1 ∧
      .ok (.expr y) ∈ ((startingAt 0).run steps).1 ∧
      ((Comparison.atLeast.constrain t x).perform l).1 = .ok c ∧
      x.shape ≠ y.shape ∧ x.isScalar = false ∧ y.isScalar = false :=
    ⟨_, _, _, _, List.mem_of_getElem? (i := 0) rfl, List.mem_of_getElem? (i := 2) rfl,
      List.mem_of_getElem? (i := 3) rfl, rfl, by decide, rfl, rfl⟩
  have hshown {e : Expr} (he : .ok (.expr e) ∈ ((startingAt 0).run steps).1) : Shows 0 steps e :=
    ⟨e, .inr ⟨.expr e, he, List.mem_singleton_self e⟩, .refl e⟩
  have hfaithful := (comparison_faithful (hshown ht) (hshown hx) .atLeast).2.1 c hc
  have hmismatch := (comparison_faithful (hshown hx) (hshown hy) .atLeast).1
  exact ⟨t, x, y, c, hshown ht, hshown hx, hshown hy, hc, hfaithful, hfaithful.lhs, hfaithful.rhs,
    (hmismatch _).2 ⟨hshapes, rfl⟩⟩

end Session

end DisciplinedConvex
