/-
DisciplinedConvex/Proofs/Soundness/Product.lean

A product does not show on which side its constant factor was given.

Where the constant factor is on the right, `a * k` is built as `(kᵀ * aᵀ)ᵀ`.  The
result has the value of `a * k`, and errors, shape, sign and curvature are those of
the direct product; only the nodes tell the two apart.
-/
import DisciplinedConvex.Proofs.Graph.Buildable
import DisciplinedConvex.Proofs.Graph.Built
import DisciplinedConvex.Proofs.Soundness.Shape

namespace DisciplinedConvex

variable {K : Type} [OrderedField K]

/-! ### Values -/

/-- Transposing both factors and changing their order transposes the product. -/
theorem Mat.mul_transpose {a b v : Mat K} (h : a.mul b = .ok v) :
    b.transpose.mul a.transpose = .ok v.transpose := by
  have hscalar (m : Mat K) : m.transpose.IsScalar ↔ m.IsScalar := and_comm
  simp only [mul, hscalar] at h ⊢
  by_cases ha : a.IsScalar
  · rw [if_pos ha] at h
    cases h
    by_cases hb : b.IsScalar
    · -- two scalars: the product of their numbers is the only entry
      rw [if_pos hb, transpose_of_isScalar ha, transpose_of_isScalar hb]
      refine congrArg Except.ok (Mat.ext (ha.1.trans hb.2.symm) (ha.2.trans hb.1.symm) ?_)
      funext i j
      simp only [entry_transpose, entry_scale, entry_of_isScalar ha, entry_of_isScalar hb]
      split_ifs <;> first | exact mul_comm .. | tauto | simp
    · rw [if_neg hb, if_pos ha]
      rfl
  · rw [if_neg ha] at h
    by_cases hb : b.IsScalar
    · rw [if_pos hb] at h ⊢
      cases h
      rfl
    · rw [if_neg hb] at h
      rw [if_neg hb, if_neg ha]
      split_ifs at h with hinner
      cases h
      have hinner' : b.transpose.cols = a.transpose.rows := hinner.symm
      rw [if_pos hinner']
      refine congrArg Except.ok (Mat.ext rfl rfl ?_)
      funext i j
      simp only [entry_product, entry_transpose, mul_comm (b.entry _ _)]
      show ∑ n ∈ Finset.range b.rows, _ = _
      rw [← hinner]

namespace Expr

/-- What stands for a transpose has the transposed value. -/
theorem Transposes.eval {a t : Expr} {built : List Expr} (h : a.Transposes t built)
    (ha : a.WellFormed) {x : Assignment K} {v : Mat K} (hv : a.eval x = .ok v) :
    t.eval x = .ok v.transpose := by
  cases h with
  | matrix hs id => exact eval_transpose_eq_ok_iff.2 ⟨v, hv, rfl⟩
  | scalar hs =>
    rw [Mat.transpose_of_isScalar ((ha.hasShape hv).isScalar_iff.2 hs)]
    exact hv

theorem Transposes.wellFormed {a t : Expr} {built : List Expr} (h : a.Transposes t built)
    (ha : a.WellFormed) : t.WellFormed := by
  cases h with
  | matrix hs id => exact .transpose ha hs rfl
  | scalar hs => exact ha

end Expr

/-! ### What a product is -/

/-- What stands for the product of two expressions, and the nodes that are built for it.  The
constant factor is the left operand of the one product node among them. -/
inductive Expr.Multiplies (a b : Expr) : Expr → List Expr → Prop
  | left (ha : a.isConstant = true) {i : Label}
      (hi : a.attributes.mul b.attributes = .ok i.attributes) :
      Multiplies a b (.mul i a b) [.mul i a b]
  | right (ha : a.isConstant = false) (hb : b.isConstant = true) {k y e : Expr}
      {ks ys es : List Expr} (hk : b.Transposes k ks) (hy : a.Transposes y ys) {i : Label}
      (hi : k.attributes.mul y.attributes = .ok i.attributes)
      (he : (Expr.mul i k y).Transposes e es) :
      Multiplies a b e (ks ++ ys ++ [.mul i k y] ++ es)

theorem Curvature.scale_of_isConstant {c : Curvature} (h : c.isConstant = true) (s : Sign) :
    Curvature.scale s c = .constant := by
  cases c with
  | constant => cases s <;> rfl
  | _ => cases h

theorem Expr.Transposes.isConstant {a t : Expr} {built : List Expr} (h : a.Transposes t built) :
    t.isConstant = a.isConstant := by
  show t.attributes.curvature.isConstant = _
  rw [h.attributes]
  rfl

namespace Expr.Multiplies

variable {a b e : Expr} {built : List Expr} {s : Shape}

/-- The attributes of a product do not show which way it was built. -/
theorem attributes (h : a.Multiplies b e built) (hs : a.shape.times b.shape = .ok s) :
    e.attributes = ⟨if a.isConstant then b.curvature.scale a.sign else a.curvature.scale b.sign,
      a.sign.mul b.sign, s⟩ := by
  cases h with
  | @left ha i hi =>
    obtain ⟨r, hr, hattr⟩ := Attributes.mul_eq_ok_iff.1 hi
    obtain rfl : r = s := Except.ok.inj (hr.symm.trans hs)
    rw [if_pos ha]
    exact hattr
  | @right ha hb k y e ks ys es hk hy i hi he =>
    rw [hk.attributes, hy.attributes] at hi
    obtain ⟨r, hr, hattr⟩ := Attributes.mul_eq_ok_iff.1 hi
    obtain rfl : r = s.transpose := Except.ok.inj (hr.symm.trans (Shape.times_transpose hs))
    have hm : (Expr.mul i k y).attributes = i.attributes := rfl
    rw [he.attributes, hm, hattr, if_neg (Bool.eq_false_iff.1 ha), Sign.mul_comm a.sign]
    rfl

theorem curvature_left (h : a.Multiplies b e built) (hs : a.shape.times b.shape = .ok s)
    (ha : a.isConstant = true) : e.curvature = b.curvature.scale a.sign := by
  rw [curvature, h.attributes hs, if_pos ha]

theorem curvature_right (h : a.Multiplies b e built) (hs : a.shape.times b.shape = .ok s)
    (hb : b.isConstant = true) : e.curvature = a.curvature.scale b.sign := by
  rw [curvature, h.attributes hs]
  by_cases ha : a.isConstant = true
  · -- either rule makes a product of constants constant
    rw [if_pos ha]
    exact (Curvature.scale_of_isConstant hb _).trans (Curvature.scale_of_isConstant ha _).symm
  · rw [if_neg ha]

/-- Under at most one transpose there is a product node, and its left operand is constant. -/
theorem factor (h : a.Multiplies b e built) :
    ∃ i k y, (e = .mul i k y ∨ ∃ j, e = .transpose j (.mul i k y)) ∧ k.isConstant = true := by
  cases h with
  | @left ha i hi => exact ⟨i, a, b, .inl rfl, ha⟩
  | @right ha hb k y e ks ys es hk hy i hi he =>
    refine ⟨i, k, y, ?_, hk.isConstant.trans hb⟩
    cases he with
    | scalar hs => exact .inl rfl
    | matrix hs id => exact .inr ⟨_, rfl⟩

/-- The value is the product of the values of both factors. -/
theorem eval (h : a.Multiplies b e built) (ha : a.WellFormed) (hb : b.WellFormed)
    (hs : a.shape.times b.shape = .ok s) {x : Assignment K} {u w : Mat K}
    (hu : a.eval x = .ok u) (hw : b.eval x = .ok w) :
    ∃ v, u.mul w = .ok v ∧ e.eval x = .ok v := by
  obtain ⟨v, hv, -⟩ := Mat.mul_of_hasShape (ha.hasShape hu) (hb.hasShape hw) hs
  refine ⟨v, hv, ?_⟩
  cases h with
  | left hconst hi => exact eval_mul_eq_ok_iff.2 ⟨u, w, hu, hw, hv⟩
  | @right hnot hconst k y e ks ys es hk hy i hi he =>
    have hmul : (Expr.mul i k y).WellFormed :=
      .mul (hk.wellFormed hb) (hy.wellFormed ha) (hk.isConstant.trans hconst) hi
    have hval : (Expr.mul i k y).eval x = .ok v.transpose :=
      eval_mul_eq_ok_iff.2 ⟨_, _, hk.eval hb hw, hy.eval ha hu, Mat.mul_transpose hv⟩
    rw [← Mat.transpose_transpose v]
    exact he.eval hmul hval

end Expr.Multiplies

/-! ### Building a product -/

/-- Shapes that do not fit are told apart from factors that are not constant. -/
theorem Shape.times_ne_nonconstantProduct (s t : Shape) :
    s.times t ≠ .error .nonconstantProduct := by
  unfold Shape.times Shape.product
  intro h
  split_ifs at h
  cases h

namespace Build

variable {a b : Expr} {s : Shape}

/-- Factors of fitting shapes have attributes that fit. -/
theorem mul_attributes_of_times {k y : Expr} (h : k.shape.times y.shape = .ok s) :
    ∃ attributes, k.attributes.mul y.attributes = .ok attributes :=
  ⟨_, Attributes.mul_eq_ok_iff.2 ⟨s, h, rfl⟩⟩

theorem perform_product_left (ha : a.isConstant = true) (hs : a.shape.times b.shape = .ok s)
    (l : Ledger) :
    ∃ e built l', (product a b).perform l = (.ok e, l') ∧ a.Multiplies b e built ∧
      l.Gains built l' := by
  obtain ⟨attributes, hattr⟩ := mul_attributes_of_times hs
  obtain ⟨l', hl', hgains⟩ := perform_scaled hattr l
  refine ⟨_, _, l', ?_, .left ha hattr, hgains⟩
  rw [product, if_pos ha]
  exact hl'

/-- The product that is built inside of the rewritten form never fails, and the rewritten form goes
on from there to transpose it. -/
theorem perform_product_inner (ha : a.isConstant = false) (hb : b.isConstant = true)
    (hs : a.shape.times b.shape = .ok s) (l : Ledger) :
    ∃ k y i ks ys l',
      (do let k ← transposed b; let y ← transposed a; product k y : Build Expr).perform
        (l.report (.factorMoved a.shape b.shape)) = (.ok (.mul i k y), l') ∧
      (product a b).perform l = (transposed (.mul i k y)).perform l' ∧
      b.Transposes k ks ∧ a.Transposes y ys ∧ k.attributes.mul y.attributes = .ok i.attributes ∧
      l.Gains (ks ++ ys ++ [.mul i k y]) l' := by
  have hreport := Ledger.gains_report (e := .factorMoved a.shape b.shape) rfl l
  obtain ⟨k, ks, l₁, hk, hkt, hkg⟩ := perform_transposed b (l.report (.factorMoved a.shape b.shape))
  obtain ⟨y, ys, l₂, hy, hyt, hyg⟩ := perform_transposed a l₁
  have hshape : k.shape.times y.shape = .ok s.transpose := by
    show k.attributes.shape.times y.attributes.shape = _
    rw [hkt.attributes, hyt.attributes]
    exact Shape.times_transpose hs
  obtain ⟨attributes, hattr⟩ := mul_attributes_of_times hshape
  obtain ⟨l₃, hm, hmg⟩ := perform_scaled hattr l₂
  refine ⟨k, y, ⟨l₂.next, attributes⟩, ks, ys, l₃, ?_, ?_, hkt, hyt, hattr, ?_⟩
  · simp only [perform_bind, hk, hy]
    rw [product, if_pos (hkt.isConstant.trans hb)]
    exact hm
  · rw [product, if_neg (Bool.eq_false_iff.1 ha), if_pos hb]
    simp only [perform_bind, perform_check, hs, Except.mapError, perform_report, hk, hy, hm]
  · exact ((hreport.trans hkg).trans hyg).trans hmg

theorem perform_product_right (ha : a.isConstant = false) (hb : b.isConstant = true)
    (hs : a.shape.times b.shape = .ok s) (l : Ledger) :
    ∃ e built l', (product a b).perform l = (.ok e, l') ∧ a.Multiplies b e built ∧
      l.Gains built l' := by
  obtain ⟨k, y, i, ks, ys, l₁, -, hrest, hkt, hyt, hattr, hgains⟩ :=
    perform_product_inner ha hb hs l
  obtain ⟨e, es, l₂, he, het, heg⟩ := perform_transposed (.mul i k y) l₁
  exact ⟨e, _, l₂, hrest.trans he, .right ha hb hkt hyt hattr het, hgains.trans heg⟩

/-- Shapes that do not fit are refused as they were given, and nothing is built. -/
theorem perform_product_of_error (hconst : a.isConstant = true ∨ b.isConstant = true) {err : Error}
    (h : a.shape.times b.shape = .error err) (l : Ledger) :
    (product a b).perform l = (.error (.rejected err), l) := by
  by_cases ha : a.isConstant = true
  · rw [product, if_pos ha]
    exact perform_scaled_of_error h l
  · have hb := hconst.resolve_left ha
    rw [product, if_neg ha, if_pos hb, perform_bind, perform_check, h]
    rfl

theorem perform_product_of_not_isConstant (ha : a.isConstant = false) (hb : b.isConstant = false)
    (l : Ledger) : (product a b).perform l = (.error (.rejected .nonconstantProduct), l) := by
  rw [product, if_neg (Bool.eq_false_iff.1 ha), if_neg (Bool.eq_false_iff.1 hb)]
  rfl

theorem perform_product (hconst : a.isConstant = true ∨ b.isConstant = true)
    (hs : a.shape.times b.shape = .ok s) (l : Ledger) :
    ∃ e built l', (product a b).perform l = (.ok e, l') ∧ a.Multiplies b e built ∧
      l.Gains built l' := by
  rcases ha : a.isConstant
  · exact perform_product_right ha (hconst.resolve_left (by simp [ha])) hs l
  · exact perform_product_left ha hs l

/-- That no factor is constant is reported just where it is so: the error of the shapes is another
one. -/
theorem perform_product_nonconstant_iff (a b : Expr) (l : Ledger) :
    ((product a b).perform l).1 = .error (.rejected .nonconstantProduct) ↔
      a.isConstant = false ∧ b.isConstant = false := by
  constructor
  · intro h
    by_contra hnot
    have hconst : a.isConstant = true ∨ b.isConstant = true := by
      rw [← Bool.not_eq_true, ← Bool.not_eq_true] at hnot
      tauto
    rcases hs : a.shape.times b.shape with err | s
    · rw [perform_product_of_error hconst hs] at h
      cases h
      exact Shape.times_ne_nonconstantProduct _ _ hs
    · obtain ⟨e, built, l', he, -, -⟩ := perform_product hconst hs l
      rw [he] at h
      cases h
  · rintro ⟨ha, hb⟩
    rw [perform_product_of_not_isConstant ha hb]

/-- With a constant factor a product is refused for its shapes, and for nothing else. -/
theorem perform_product_error_iff (hconst : a.isConstant = true ∨ b.isConstant = true) (l : Ledger)
    (f : Fault) :
    ((product a b).perform l).1 = .error f ↔
      ∃ err, a.shape.times b.shape = .error err ∧ f = .rejected err := by
  constructor
  · intro h
    rcases hs : a.shape.times b.shape with err | s
    · rw [perform_product_of_error hconst hs] at h
      cases h
      exact ⟨err, rfl, rfl⟩
    · obtain ⟨e, built, l', he, -, -⟩ := perform_product hconst hs l
      rw [he] at h
      cases h
  · rintro ⟨err, hs, rfl⟩
    rw [perform_product_of_error hconst hs]

/-- A product is refused where neither factor is constant, or else with the error of the shapes as
they were given.  If it is not refused, then shape, sign, curvature and value are those of the
direct product, whichever factor is constant; its nodes are one product with the constant factor on
the left and the transposes around it; and no step of the rewritten form can fail. -/
theorem product_transparent {a b : Expr} (ha : a.Buildable) (hb : b.Buildable) (l : Ledger) :
    (((product a b).perform l).1 = .error (.rejected .nonconstantProduct) ↔
      a.isConstant = false ∧ b.isConstant = false) ∧
    (a.isConstant = true ∨ b.isConstant = true →
      (∀ f, ((product a b).perform l).1 = .error f ↔
        ∃ err, a.shape.times b.shape = .error err ∧ f = .rejected err) ∧
      ∀ s, a.shape.times b.shape = .ok s →
        ∃ e built l', (product a b).perform l = (.ok e, l') ∧
          l.Gains built l' ∧ a.Multiplies b e built ∧
          e.shape = s ∧ e.sign = a.sign.mul b.sign ∧
          (a.isConstant = true → e.curvature = b.curvature.scale a.sign) ∧
          (b.isConstant = true → e.curvature = a.curvature.scale b.sign) ∧
          (∃ i k y, (e = .mul i k y ∨ ∃ j, e = .transpose j (.mul i k y)) ∧ k.isConstant = true) ∧
          ∀ (x : Assignment K) u w, a.eval x = .ok u → b.eval x = .ok w →
            ∃ v, u.mul w = .ok v ∧ e.eval x = .ok v) ∧
    (a.isConstant = false → b.isConstant = true → ∀ s, a.shape.times b.shape = .ok s →
      ∃ p l', (do let k ← transposed b; let y ← transposed a; product k y : Build Expr).perform
          (l.report (.factorMoved a.shape b.shape)) = (.ok p, l') ∧
        (product a b).perform l = (transposed p).perform l') := by
  refine ⟨perform_product_nonconstant_iff a b l,
    fun hconst => ⟨perform_product_error_iff hconst l, fun s hs => ?_⟩, fun hna hcb s hs => ?_⟩
  · obtain ⟨e, built, l', he, hmul, hgains⟩ := perform_product hconst hs l
    refine ⟨e, built, l', he, hgains, hmul, ?_, ?_, hmul.curvature_left hs,
      hmul.curvature_right hs, hmul.factor, fun x u w hu hw => ?_⟩
    · rw [Expr.shape, hmul.attributes hs]
    · rw [Expr.sign, hmul.attributes hs]
    · exact hmul.eval ha.wellFormed hb.wellFormed hs hu hw
  · obtain ⟨k, y, i, ks, ys, l', hinner, hrest, -⟩ := perform_product_inner hna hcb hs l
    exact ⟨_, l', hinner, hrest⟩

/-- The column times `-2`, with the constant on the right. -/
theorem product_transparent_column :
    let minusTwo : Expr := .const ⟨1, .constant, .nonpos, .scalar⟩ (.scalar (-2.0))
    ∃ e built l', (product Expr.column minusTwo).perform (.startingAt 2) = (.ok e, l') ∧
      Expr.column.Multiplies minusTwo e built ∧
      e.shape = Expr.column.shape ∧ e.sign = .nonpos ∧ e.curvature = .affine ∧
      ∀ (x : Assignment ℚ) u w, Expr.column.eval x = .ok u → minusTwo.eval x = .ok w →
        ∃ v, u.mul w = .ok v ∧ e.eval x = .ok v := by
  intro minusTwo
  have hconst : minusTwo.Buildable := .of_answer 1 [.constant (.scalar (-2.0)) true] 0 rfl
  have htransparent := product_transparent (K := ℚ) Expr.column_buildable hconst (.startingAt 2)
  obtain ⟨e, built, l', he, -, hmul, hshape, hsign, -, hcurv, -, hvalue⟩ :=
    (htransparent.2.1 (.inr rfl)).2 _ rfl
  exact ⟨e, built, l', he, hmul, hshape, hsign, hcurv rfl, hvalue⟩

end Build

end DisciplinedConvex
