/-
DisciplinedConvex/Proofs/Replacement/Attributes.lean

Attributes that are alike: the same shape and the same curvature, while the signs may
differ as far as a given relation of signs allows.

Signs are read where a constant factor scales, and the reciprocal that a quotient takes
is not monotone: `zero ≤ nonneg`, but the reciprocal of `zero` is `unknown`.  What
carries the relation through products and quotients is that constants have the very
same sign on both sides (`Attributes.Alike.constant`), even constants that contain
variables, such as a variable taken zero times.
-/
import DisciplinedConvex.Attributes
import DisciplinedConvex.Proofs.Replacement.Agreement

namespace DisciplinedConvex

/-! ### Relations of signs -/

/-- A relation of signs that every sign has to itself and that the operations keep, where a factor
is of one sign on both sides. -/
structure Sign.Correspondence where
  rel : Sign → Sign → Prop
  refl (s : Sign) : rel s s
  neg {s t : Sign} : rel s t → rel s.neg t.neg
  add {s t s' t' : Sign} : rel s t → rel s' t' → rel (s.add s') (t.add t')
  mul {s t : Sign} (k : Sign) : rel s t → rel (k.mul s) (k.mul t)

namespace Sign.Correspondence

/-- Any two signs. -/
def any : Correspondence where
  rel _ _ := True
  refl _ := trivial
  neg _ := trivial
  add _ _ := trivial
  mul _ _ := trivial

/-- The second sign promises at least what the first one does. -/
def sharper : Correspondence where
  rel s t := t ≤ s
  refl := le_refl
  neg := neg_le_neg
  add := add_le_add
  mul := mul_le_mul_left

end Sign.Correspondence

/-! ### Attributes -/

/-- The same shape and curvature, and related signs; the same sign where both are constant. -/
structure Attributes.Alike (σ : Sign.Correspondence) (a a' : Attributes) : Prop where
  shape : a.shape = a'.shape
  curvature : a.curvature = a'.curvature
  sign : σ.rel a.sign a'.sign
  constant : a.curvature = .constant → a.sign = a'.sign

namespace Attributes.Alike

variable {σ : Sign.Correspondence} {a a' b b' k k' : Attributes}

theorem add (ha : a.Alike σ a') (hb : b.Alike σ b') :
    Agree (Attributes.Alike σ) (a.add b) (a'.add b') := by
  unfold Attributes.add
  rw [ha.shape, hb.shape]
  refine (Agree.of_eq rfl).bind ?_
  rintro s _ rfl
  have hcurv : a.curvature.add b.curvature = a'.curvature.add b'.curvature := by
    rw [ha.curvature, hb.curvature]
  refine .ok ⟨rfl, hcurv, σ.add ha.sign hb.sign, fun h => ?_⟩
  obtain ⟨hca, hcb⟩ := Curvature.add_eq_constant_iff.1 h
  exact congrArg₂ Sign.add (ha.constant hca) (hb.constant hcb)

theorem neg (ha : a.Alike σ a') : a.neg.Alike σ a'.neg where
  shape := ha.shape
  curvature := congrArg Curvature.neg ha.curvature
  sign := σ.neg ha.sign
  constant h := congrArg Sign.neg (ha.constant (Curvature.neg_eq_constant_iff.1 h))

/-- A zero factor makes a constant of anything, but it also makes zero of any sign. -/
theorem scaled_constant (ha : a.Alike σ a') {s : Sign} (h : a.curvature.scale s = .constant) :
    s.mul a.sign = s.mul a'.sign := by
  rcases Curvature.scale_eq_constant_iff.1 h with rfl | hc
  · rfl
  · rw [ha.constant hc]

theorem mul (hk : k.Alike σ k') (hconst : k.curvature = .constant) (ha : a.Alike σ a') :
    Agree (Attributes.Alike σ) (k.mul a) (k'.mul a') := by
  unfold Attributes.mul
  -- the factor is constant, so that both sides are scaled by the same sign
  rw [hk.shape, ha.shape, ← hk.constant hconst]
  refine (Agree.of_eq rfl).bind ?_
  rintro s _ rfl
  exact .ok ⟨rfl, congrArg (Curvature.scale _) ha.curvature, σ.mul k.sign ha.sign,
    ha.scaled_constant⟩

theorem div (ha : a.Alike σ a') (hk : k.Alike σ k') (hconst : k.curvature = .constant) :
    (a.div k).Alike σ (a'.div k') := by
  unfold Attributes.div
  -- equal signs have equal reciprocals; of signs that are related only, this would not hold
  rw [← hk.constant hconst, Sign.mul_comm a.sign, Sign.mul_comm a'.sign]
  exact ⟨ha.shape, congrArg (Curvature.scale _) ha.curvature, σ.mul _ ha.sign, ha.scaled_constant⟩

theorem transpose (ha : a.Alike σ a') : a.transpose.Alike σ a'.transpose :=
  ⟨congrArg Shape.transpose ha.shape, ha.curvature, ha.sign, ha.constant⟩

theorem select (ha : a.Alike σ a') (t : Shape) : (a.select t).Alike σ (a'.select t) :=
  ⟨rfl, ha.curvature, ha.sign, ha.constant⟩

end Attributes.Alike

end DisciplinedConvex
