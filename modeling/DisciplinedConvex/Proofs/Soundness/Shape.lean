/-
DisciplinedConvex/Proofs/Soundness/Shape.lean

The value of an expression has the shape that is recorded for it.

Evaluating a well-formed expression ends in one of two ways (`eval_cases`): in a
matrix of the recorded shape, or at a divisor that is zero.  Dimensions always
fit, and no position lies outside.
-/
import DisciplinedConvex.Proofs.Exact.Evaluation
import DisciplinedConvex.Proofs.Graph.WellFormed

namespace DisciplinedConvex

variable {K : Type} [OrderedField K]

theorem Value.hasShape_exact {v : Value} {s : Shape} (h : v.shape = .ok s) :
    (v.exact : Mat K).HasShape s := by
  simp only [Value.shape, Shape.ofDims, Shape.ofDims?] at h
  split at h
  · rename_i t ht
    split at ht
    · cases ht
      cases h
      exact ⟨rfl, rfl⟩
    · cases ht
  · cases h

namespace Expr

theorem shape_of_add {l : Label} {a b : Expr}
    (hl : a.attributes.add b.attributes = .ok l.attributes) :
    a.shape.broadcast b.shape = .ok l.attributes.shape := by
  obtain ⟨s, hs, hattr⟩ := Attributes.add_eq_ok_iff.1 hl
  rw [hattr]
  exact hs

theorem shape_of_mul {l : Label} {k a : Expr}
    (hl : k.attributes.mul a.attributes = .ok l.attributes) :
    k.shape.times a.shape = .ok l.attributes.shape := by
  obtain ⟨s, hs, hattr⟩ := Attributes.mul_eq_ok_iff.1 hl
  rw [hattr]
  exact hs

/-- An expression has a value of the recorded shape, or a divisor in it is zero. -/
theorem WellFormed.eval_cases {e : Expr} (he : e.WellFormed) (x : Assignment K) :
    (∃ v, e.eval x = .ok v ∧ v.HasShape e.shape) ∨ e.eval x = .error .zeroDivisor := by
  -- on the derivation; an operand without a value leaves the node without one, for the same reason
  induction he with
  | @var l d hl =>
    have hs : (Expr.var l d).shape = d.shape := congrArg Attributes.shape hl
    exact .inl ⟨_, rfl, hs ▸ Mat.hasShape_ofFn _ _⟩
  | const hshape hcurv hsign => exact .inl ⟨_, rfl, Value.hasShape_exact hshape⟩
  | add ha hb hl iha ihb =>
    rcases iha with ⟨u, hu, hus⟩ | hu
    · rcases ihb with ⟨w, hw, hws⟩ | hw
      · have hv := Mat.add_of_hasShape hus hws (shape_of_add hl)
        exact .inl ⟨_, eval_add_eq_ok_iff.2 ⟨u, w, hu, hw, hv⟩, Mat.hasShape_ofFn _ _⟩
      · exact .inr (by rw [eval, hu, hw]; rfl)
    · exact .inr (by rw [eval, hu]; rfl)
  | @neg l a ha hl iha =>
    have hs : (Expr.neg l a).shape = a.shape := by
      show l.attributes.shape = _
      rw [hl]
      rfl
    rcases iha with ⟨u, hu, hus⟩ | hu
    · exact .inl ⟨_, eval_neg_eq_ok_iff.2 ⟨u, hu, rfl⟩, hs ▸ hus.neg⟩
    · exact .inr (by rw [eval, hu]; rfl)
  | mul hk ha hconst hl ihk iha =>
    rcases ihk with ⟨u, hu, hus⟩ | hu
    · rcases iha with ⟨w, hw, hws⟩ | hw
      · obtain ⟨v, hv, hvs⟩ := Mat.mul_of_hasShape hus hws (shape_of_mul hl)
        exact .inl ⟨v, eval_mul_eq_ok_iff.2 ⟨u, w, hu, hw, hv⟩, hvs⟩
      · exact .inr (by rw [eval, hu, hw]; rfl)
    · exact .inr (by rw [eval, hu]; rfl)
  | @div l a k ha hk hconst hscalar hl iha ihk =>
    have hs : (Expr.div l a k).shape = a.shape := by
      show l.attributes.shape = _
      rw [hl]
      rfl
    rcases iha with ⟨u, hu, hus⟩ | hu
    · rcases ihk with ⟨w, hw, hws⟩ | hw
      · -- the one place where a value may be missing
        by_cases hzero : w.number = 0
        · refine .inr ?_
          rw [eval, hu, hw]
          exact (if_pos (hws.isScalar_iff.2 hscalar)).trans (if_pos hzero)
        · obtain ⟨v, hv, hvs⟩ := Mat.div_of_hasShape hus hws hscalar hzero
          exact .inl ⟨v, eval_div_eq_ok_iff.2 ⟨u, w, hu, hw, hv⟩, hs ▸ hvs⟩
      · exact .inr (by rw [eval, hu, hw]; rfl)
    · exact .inr (by rw [eval, hu]; rfl)
  | @transpose l a ha hscalar hl iha =>
    have hs : (Expr.transpose l a).shape = a.shape.transpose := congrArg Attributes.shape hl
    rcases iha with ⟨u, hu, hus⟩ | hu
    · exact .inl ⟨_, eval_transpose_eq_ok_iff.2 ⟨u, hu, rfl⟩, hs ▸ hus.transpose⟩
    · exact .inr (by rw [eval, hu]; rfl)
  | @index l a s t ha hscalar hfits ht hl iha =>
    have hs : (Expr.index l a s).shape = t := congrArg Attributes.shape hl
    rcases iha with ⟨u, hu, hus⟩ | hu
    · refine .inl ⟨_, eval_index_eq_ok_iff.2 ⟨u, hu, Mat.select_of_hasShape hus hfits ht⟩, ?_⟩
      exact hs ▸ Mat.hasShape_ofFn _ _
    · exact .inr (by rw [eval, hu]; rfl)

theorem WellFormed.hasShape {e : Expr} (he : e.WellFormed) {x : Assignment K} {v : Mat K}
    (hv : e.eval x = .ok v) : v.HasShape e.shape := by
  rcases he.eval_cases x with ⟨w, hw, hs⟩ | herr
  · rw [hv] at hw
    cases hw
    exact hs
  · rw [hv] at herr
    cases herr

end Expr

end DisciplinedConvex
