/-
DisciplinedConvex/Proofs/Exact/Comparison.lean

When a constraint holds at an assignment.

A constraint holds where both sides have values and these compare entry by entry,
a scalar with every entry of the other side.  It is read on its own sides; that
the residual tells the same is a theorem (`holds_iff_residual`), and so is that a
comparison in a session means what it is written as, whichever way round its
sides are kept (`Step.compare_yields`, `holds_iff_of_sides`).
-/
import DisciplinedConvex.Proofs.Exact.Evaluation
import DisciplinedConvex.Proofs.Graph.Buildable

namespace DisciplinedConvex

variable {K : Type} [OrderedField K]

namespace Mat

/-- The dimensions fit, and the entries are related place by place; a scalar stands for a matrix
with its number throughout. -/
def Related (r : K → K → Prop) (a b : Mat K) : Prop :=
  ∃ rows cols, common a b = .ok (rows, cols) ∧
    ∀ i < rows, ∀ j < cols, r (a.spread i j) (b.spread i j)

variable {a b : Mat K}

theorem common_comm (a b : Mat K) : common a b = common b a := by
  unfold common
  by_cases hd : a.rows = b.rows ∧ a.cols = b.cols
  · rw [if_pos (.inl hd), if_pos (.inl ⟨hd.1.symm, hd.2.symm⟩), hd.1, hd.2]
  have hd' : ¬(b.rows = a.rows ∧ b.cols = a.cols) := fun h => hd ⟨h.1.symm, h.2.symm⟩
  by_cases hb : b.IsScalar
  · have ha : ¬a.IsScalar := fun ha => hd ⟨ha.1.trans hb.1.symm, ha.2.trans hb.2.symm⟩
    rw [if_pos (.inr hb), if_neg (not_or.2 ⟨hd', ha⟩), if_pos hb]
  · rw [if_neg (not_or.2 ⟨hd, hb⟩)]
    by_cases ha : a.IsScalar
    · rw [if_pos ha, if_pos (.inr ha)]
    · rw [if_neg ha, if_neg (not_or.2 ⟨hd', ha⟩), if_neg hb]

/-- Read from right to left, a relation is the converse one. -/
theorem related_comm {r : K → K → Prop} : Related r a b ↔ Related (fun p q => r q p) b a := by
  unfold Related
  rw [common_comm]

theorem spread_neg (a : Mat K) (i j : ℕ) : a.neg.spread i j = -a.spread i j := by
  show (if a.IsScalar then -a.number else -a.entry i j) = -a.spread i j
  unfold spread
  split <;> rfl

end Mat

/-! ### Constraints -/

/-- What a kind of constraint asks of an entry on the left and one on the right. -/
def ConstraintKind.Relates : ConstraintKind → K → K → Prop
  | equality => fun p q => p = q
  | inequality => fun p q => p ≤ q

/-- Both sides have values, and these compare as the constraint says. -/
def Constraint.Holds (c : Constraint) (x : Assignment K) : Prop :=
  ∃ u w, c.lhs.eval x = .ok u ∧ c.rhs.eval x = .ok w ∧ u.Related c.kind.Relates w

theorem ConstraintKind.relates_sub_iff (kind : ConstraintKind) (p q : K) :
    kind.Relates (p + -q) 0 ↔ kind.Relates p q := by
  rw [← sub_eq_add_neg]
  cases kind with
  | equality => exact sub_eq_zero
  | inequality => exact sub_nonpos

theorem ConstraintKind.relates_self (kind : ConstraintKind) (p : K) : kind.Relates p p := by
  cases kind with
  | equality => exact rfl
  | inequality => exact le_rfl

/-- Two matrices compare as their difference compares with zero. -/
theorem Mat.related_iff_add_neg {kind : ConstraintKind} {a b : Mat K} :
    a.Related kind.Relates b ↔ ∃ v, a.add b.neg = .ok v ∧ ∀ i j, kind.Relates (v.entry i j) 0 := by
  have hcommon : common a b.neg = common a b := rfl
  unfold Related add
  rw [hcommon]
  rcases common a b with f | ⟨rows, cols⟩
  · constructor
    · rintro ⟨_, _, h, -⟩
      cases h
    · rintro ⟨_, h, -⟩
      cases h
  constructor
  · rintro ⟨_, _, hd, h⟩
    cases hd
    refine ⟨_, rfl, fun i j => ?_⟩
    rw [entry_ofFn, spread_neg]
    split
    · rename_i hin
      exact (kind.relates_sub_iff _ _).2 (h i hin.1 j hin.2)
    · exact kind.relates_self 0
  · rintro ⟨v, hv, h⟩
    cases hv
    refine ⟨rows, cols, rfl, fun i hi j hj => ?_⟩
    have hij := h i j
    rw [entry_ofFn, if_pos ⟨hi, hj⟩, spread_neg] at hij
    exact (kind.relates_sub_iff _ _).1 hij

/-- The residual has a value that compares with zero just where the constraint holds. -/
theorem Constraint.WellFormed.holds_iff_residual {c : Constraint} (hc : c.WellFormed)
    {x : Assignment K} :
    c.Holds x ↔ ∃ v, c.residual.eval x = .ok v ∧ ∀ i j, c.kind.Relates (v.entry i j) 0 := by
  obtain ⟨l, m, hr⟩ := hc.difference
  rw [hr]
  constructor
  · rintro ⟨u, w, hu, hw, h⟩
    obtain ⟨v, hv, hrel⟩ := Mat.related_iff_add_neg.1 h
    have hneg := Expr.eval_neg_eq_ok_iff (l := m).2 ⟨w, hw, rfl⟩
    exact ⟨v, Expr.eval_add_eq_ok_iff.2 ⟨u, _, hu, hneg, hv⟩, hrel⟩
  · rintro ⟨v, hv, hrel⟩
    obtain ⟨u, w', hu, hw', hsum⟩ := Expr.eval_add_eq_ok_iff.1 hv
    obtain ⟨w, hw, rfl⟩ := Expr.eval_neg_eq_ok_iff.1 hw'
    exact ⟨u, w, hu, hw, Mat.related_iff_add_neg.2 ⟨v, hsum, hrel⟩⟩

/-! ### Comparisons as they are written -/

namespace Build.Comparison

/-- What a comparison says of an entry of the first expression and one of the second. -/
def Relates : Comparison → K → K → Prop
  | equal => fun p q => p = q
  | atMost => fun p q => p ≤ q
  | atLeast => fun p q => p ≥ q

/-- Both expressions have values, and these compare as written. -/
def Holds (cmp : Comparison) (a b : Expr) (x : Assignment K) : Prop :=
  ∃ u w, a.eval x = .ok u ∧ b.eval x = .ok w ∧ u.Related cmp.Relates w

/-- A constraint that keeps the sides of a comparison, the other way round for `a ≥ b`, holds just
where the comparison does. -/
theorem holds_iff_of_sides {cmp : Comparison} {a b : Expr} {c : Constraint}
    (hkind : c.kind = cmp.kind) (hlhs : c.lhs = (cmp.sides a b).1)
    (hrhs : c.rhs = (cmp.sides a b).2) {x : Assignment K} : c.Holds x ↔ cmp.Holds a b x := by
  unfold Constraint.Holds Holds
  rw [hkind, hlhs, hrhs]
  cases cmp with
  | equal => exact Iff.rfl
  | atMost => exact Iff.rfl
  | atLeast =>
    constructor
    · rintro ⟨u, w, hu, hw, h⟩
      exact ⟨w, u, hw, hu, Mat.related_comm.1 h⟩
    · rintro ⟨u, w, hu, hw, h⟩
      exact ⟨w, u, hw, hu, Mat.related_comm.1 h⟩

end Build.Comparison

/-! ### Comparisons in a session -/

open Build

/-- The expressions that an operand may stand for: what its register holds, or a constant. -/
def Operand.Denotes (rs : Registers) : Operand → Expr → Prop
  | register i, e => rs.expr i = .ok e
  | literal l, e => ∃ v i, l.value = .ok v ∧ e = .const i v

theorem constant_yields (v : Value) : (constant v).Yields fun e => ∃ i, e = .const i v :=
  (yields_check _).bind fun _ _ => yields_node fun _ => ⟨_, rfl⟩

/-- A literal is cast to a constant of its value. -/
theorem Literal.cast_yields {l : Literal} {r : Ready} {rs : Registers}
    (h : l.value.map .value = .ok r) : r.cast.Yields ((Operand.literal l).Denotes rs) := by
  rcases hv : l.value with f | v
  · rw [hv] at h
    cases h
  · rw [hv] at h
    cases h
    refine (constant_yields v).insist.mono fun e he => ?_
    obtain ⟨i, rfl⟩ := he
    exact ⟨v, i, hv, rfl⟩

/-- What is cast after an operand was read and completed is what the operand stands for. -/
theorem Operand.cast_yields {rs : Registers} {a : Operand} {f : Found} {r : Ready}
    (hf : a.found rs = .ok f) (hr : f.ready = .ok r) : r.cast.Yields (a.Denotes rs) := by
  unfold Operand.found at hf
  split at hf
  · rename_i i
    rcases he : rs.expr i with _ | e
    · rw [he] at hf
      cases hf
    · rw [he] at hf
      cases hf
      cases hr
      exact yields_pure he
  · -- a dense literal, whose entries are counted only now
    cases hf
    exact Literal.cast_yields hr
  · rename_i l _
    rcases hv : l.value with _ | v
    · rw [hv] at hf
      cases hf
    · rw [hv] at hf
      cases hf
      cases hr
      exact Literal.cast_yields (by rw [hv]; rfl)

/-- The constraint that a comparison makes keeps what its operands stand for as its sides. -/
theorem Step.compare_yields (rs : Registers) (cmp : Comparison) (a b : Operand) :
    ((Step.compare cmp a b).build rs).Yields fun r =>
      ∃ c e f, r = .constraint c ∧ a.Denotes rs e ∧ b.Denotes rs f ∧
        c.kind = cmp.kind ∧ c.lhs = (cmp.sides e f).1 ∧ c.rhs = (cmp.sides e f).2 := by
  refine (yields_lookUp _).bind fun fa hfa => (yields_lookUp _).bind fun fb hfb => ?_
  refine (yields_lookUp _).bind fun ra hra => (yields_lookUp _).bind fun rb hrb => ?_
  have hca := Operand.cast_yields hfa hra
  have hcb := Operand.cast_yields hfb hrb
  -- the sides are cast in the order in which they are kept
  cases cmp with
  | equal | atMost =>
    refine hca.bind fun e he => hcb.bind fun f hf => ?_
    refine (constraint_yields _ e f).bind fun c hc => ?_
    exact yields_pure ⟨c, e, f, rfl, he, hf, hc.1, hc.2.1, hc.2.2.1⟩
  | atLeast =>
    refine hcb.bind fun f hf => hca.bind fun e he => ?_
    refine (constraint_yields _ f e).bind fun c hc => ?_
    exact yields_pure ⟨c, e, f, rfl, he, hf, hc.1, hc.2.1, hc.2.2.1⟩

end DisciplinedConvex
