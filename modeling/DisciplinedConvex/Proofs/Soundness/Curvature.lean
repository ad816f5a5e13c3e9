/-
DisciplinedConvex/Proofs/Soundness/Curvature.lean

The curvature that is recorded for an expression is a curvature of its value.

`Curvature.Allows c p q u v w` compares three numbers: the values at two
assignments and the value between them, at weights `p` and `q`.  Each rule for
curvatures is sound for the operation on matrices that it belongs to; the rule for
a product needs the sign of the factor to be sound as well.  That a factor or a
divisor is constant is used of its values, since it may contain variables.

The induction (`WellFormed.curved`) starts from a value at the first assignment
and gives the values at the other two, so that it settles where an expression has
a value along with how the values compare.
-/
import DisciplinedConvex.Proofs.Soundness.Sign

namespace DisciplinedConvex

variable {K : Type} [OrderedField K]

namespace Curvature

/-- Of the numbers `u` and `v` at two points and `w` in between, what the curvature promises. -/
structure Allows (c : Curvature) (p q u v w : K) : Prop where
  constant : c.isConstant = true → u = v
  convex : c.isConvex = true → w ≤ p * u + q * v
  concave : c.isConcave = true → p * u + q * v ≤ w

/-! ### What the results of the rules promise -/

theorem isConstant_neg (c : Curvature) : c.neg.isConstant = c.isConstant := by
  cases c <;> rfl

theorem isConvex_neg (c : Curvature) : c.neg.isConvex = c.isConcave := by
  cases c <;> rfl

theorem isConcave_neg (c : Curvature) : c.neg.isConcave = c.isConvex := by
  cases c <;> rfl

theorem isConstant_add (c d : Curvature) :
    (c.add d).isConstant = (c.isConstant && d.isConstant) := by
  cases c <;> cases d <;> rfl

theorem isConvex_add (c d : Curvature) : (c.add d).isConvex = (c.isConvex && d.isConvex) := by
  cases c <;> cases d <;> rfl

theorem isConcave_add (c d : Curvature) :
    (c.add d).isConcave = (c.isConcave && d.isConcave) := by
  cases c <;> cases d <;> rfl

theorem isConvex_of_isConstant {c : Curvature} (h : c.isConstant = true) : c.isConvex = true := by
  cases c <;> first | rfl | cases h

theorem isConcave_of_isConstant {c : Curvature} (h : c.isConstant = true) : c.isConcave = true := by
  cases c <;> first | rfl | cases h

/-! ### Numbers -/

variable {c d : Curvature} {p q u v w u' v' w' : K}

/-- Numbers that agree satisfy every curvature. -/
theorem allows_of_eq (huv : u = v) (hw : w = p * u + q * v) (c : Curvature) : c.Allows p q u v w :=
  ⟨fun _ => huv, fun _ => hw.le, fun _ => hw.ge⟩

theorem allows_affine (hw : w = p * u + q * v) : affine.Allows p q u v w :=
  ⟨nofun, fun _ => hw.le, fun _ => hw.ge⟩

theorem allows_unknown (p q u v w : K) : unknown.Allows p q u v w := ⟨nofun, nofun, nofun⟩

theorem Allows.eq_mix (h : c.Allows p q u v w) (hc : c.isConstant = true) : w = p * u + q * v :=
  le_antisymm (h.convex (isConvex_of_isConstant hc)) (h.concave (isConcave_of_isConstant hc))

/-- What is constant is the same in between. -/
theorem Allows.eq_between (h : c.Allows p q u v w) (hc : c.isConstant = true) (hpq : p + q = 1) :
    w = u := by
  rw [h.eq_mix hc, ← h.constant hc, ← add_mul, hpq, one_mul]

theorem Allows.neg (h : c.Allows p q u v w) : c.neg.Allows p q (-u) (-v) (-w) := by
  have hmix : p * -u + q * -v = -(p * u + q * v) := by ring
  refine ⟨fun hc => ?_, fun hc => ?_, fun hc => ?_⟩
  · rw [isConstant_neg] at hc
    rw [h.constant hc]
  · rw [isConvex_neg] at hc
    rw [hmix]
    exact neg_le_neg (h.concave hc)
  · rw [isConcave_neg] at hc
    rw [hmix]
    exact neg_le_neg (h.convex hc)

theorem Allows.add (h : c.Allows p q u v w) (h' : d.Allows p q u' v' w') :
    (c.add d).Allows p q (u + u') (v + v') (w + w') := by
  have hmix : p * (u + u') + q * (v + v') = (p * u + q * v) + (p * u' + q * v') := by ring
  refine ⟨fun hc => ?_, fun hc => ?_, fun hc => ?_⟩
  · rw [isConstant_add, Bool.and_eq_true] at hc
    rw [h.constant hc.1, h'.constant hc.2]
  · rw [isConvex_add, Bool.and_eq_true] at hc
    rw [hmix]
    exact add_le_add (h.convex hc.1) (h'.convex hc.2)
  · rw [isConcave_add, Bool.and_eq_true] at hc
    rw [hmix]
    exact add_le_add (h.concave hc.1) (h'.concave hc.2)

theorem Allows.scale_nonneg {k : K} (hk : 0 ≤ k) (h : c.Allows p q u v w) :
    c.Allows p q (k * u) (k * v) (k * w) := by
  have hmix : p * (k * u) + q * (k * v) = k * (p * u + q * v) := by ring
  refine ⟨fun hc => ?_, fun hc => ?_, fun hc => ?_⟩
  · rw [h.constant hc]
  · rw [hmix]
    exact mul_le_mul_of_nonneg_left (h.convex hc) hk
  · rw [hmix]
    exact mul_le_mul_of_nonneg_left (h.concave hc) hk

/-- The rule for a factor, given that its sign is sound. -/
theorem Allows.scale {s : Sign} {k : K} (hk : s.Allows k) (h : c.Allows p q u v w) :
    (Curvature.scale s c).Allows p q (k * u) (k * v) (k * w) := by
  cases s with
  | zero =>
    rw [Sign.allows_zero_iff.1 hk]
    exact allows_of_eq (by ring) (by ring) _
  | nonneg => exact h.scale_nonneg (hk.nonneg rfl)
  | nonpos =>
    -- scaled by `-k` first, and then turned around
    have hneg := (h.scale_nonneg (neg_nonneg.2 (hk.nonpos rfl))).neg
    have hback (r : K) : -(-k * r) = k * r := by ring
    rw [hback, hback, hback] at hneg
    exact hneg
  | unknown =>
    by_cases hc : c.isConstant = true
    · refine allows_of_eq (by rw [h.constant hc]) ?_ _
      rw [h.eq_mix hc]
      ring
    · have hs : Curvature.scale .unknown c = unknown := if_neg hc
      rw [hs]
      exact allows_unknown ..

/-- A sum of any number of terms that share a curvature. -/
theorem Allows.sum {S : Finset ℕ} {f g h : ℕ → K} (hS : ∀ n ∈ S, c.Allows p q (f n) (g n) (h n)) :
    c.Allows p q (∑ n ∈ S, f n) (∑ n ∈ S, g n) (∑ n ∈ S, h n) := by
  have hmix : p * ∑ n ∈ S, f n + q * ∑ n ∈ S, g n = ∑ n ∈ S, (p * f n + q * g n) := by
    rw [Finset.mul_sum, Finset.mul_sum, Finset.sum_add_distrib]
  refine ⟨fun hc => ?_, fun hc => ?_, fun hc => ?_⟩
  · exact Finset.sum_congr rfl fun n hn => (hS n hn).constant hc
  · rw [hmix]
    exact Finset.sum_le_sum fun n hn => (hS n hn).convex hc
  · rw [hmix]
    exact Finset.sum_le_sum fun n hn => (hS n hn).concave hc

/-! ### Matrices -/

/-- Of matrices at two points and in between, every entry is as the curvature promises. -/
def Describes (c : Curvature) (p q : K) (a b m : Mat K) : Prop :=
  ∀ i j, c.Allows p q (a.entry i j) (b.entry i j) (m.entry i j)

variable {a b m a' b' m' : Mat K} {s t r : Shape}

theorem describes_ofFn {rows cols : ℕ} {f g h : ℕ → ℕ → K}
    (H : ∀ i j, c.Allows p q (f i j) (g i j) (h i j)) :
    c.Describes p q (Mat.ofFn rows cols f) (Mat.ofFn rows cols g) (Mat.ofFn rows cols h) := by
  intro i j
  simp only [Mat.entry_ofFn]
  split
  · exact H i j
  · exact allows_of_eq rfl (by ring) c

/-- What is constant is one matrix at all three points. -/
theorem Describes.eq (h : c.Describes p q a b m) (hc : c.isConstant = true) (hpq : p + q = 1)
    (ha : a.HasShape s) (hb : b.HasShape s) (hm : m.HasShape s) : b = a ∧ m = a := by
  have hba := hb.dims_eq ha
  have hma := hm.dims_eq ha
  refine ⟨Mat.ext hba.1 hba.2 ?_, Mat.ext hma.1 hma.2 ?_⟩
  · funext i j
    exact ((h i j).constant hc).symm
  · funext i j
    exact (h i j).eq_between hc hpq

theorem Describes.neg (h : c.Describes p q a b m) : c.neg.Describes p q a.neg b.neg m.neg :=
  fun i j => (h i j).neg

theorem Describes.transpose (h : c.Describes p q a b m) :
    c.Describes p q a.transpose b.transpose m.transpose :=
  fun i j => h j i

theorem Describes.scale {σ : Sign} {k : K} (hk : σ.Allows k) (h : c.Describes p q a b m) :
    (Curvature.scale σ c).Describes p q (Mat.scale k a) (Mat.scale k b) (Mat.scale k m) :=
  fun i j => (h i j).scale hk

/-- A scalar that is no factor itself, times a constant matrix. -/
theorem Describes.scale_number {σ : Sign} {k : Mat K} (hk : σ.Describes k)
    (h : c.Describes p q a b m) :
    (Curvature.scale σ c).Describes p q
      (Mat.scale a.number k) (Mat.scale b.number k) (Mat.scale m.number k) := by
  intro i j
  simp only [Mat.entry_scale, mul_comm _ (k.entry i j)]
  exact (h 0 0).scale (hk i j)

theorem Describes.product {σ : Sign} {k : Mat K} (hk : σ.Describes k)
    (h : c.Describes p q a b m) :
    (Curvature.scale σ c).Describes p q (k.product a) (k.product b) (k.product m) :=
  fun i j => Allows.sum (S := Finset.range k.cols) fun n _ => (h n j).scale (hk i n)

/-- Matrices of one shape are spread in one way. -/
theorem Describes.spread (h : c.Describes p q a b m) (ha : a.HasShape s) (hb : b.HasShape s)
    (hm : m.HasShape s) (i j : ℕ) :
    c.Allows p q (a.spread i j) (b.spread i j) (m.spread i j) := by
  simp only [Mat.spread, ha.isScalar_iff, hb.isScalar_iff, hm.isScalar_iff]
  split
  · exact h 0 0
  · exact h i j

theorem Describes.add (h : c.Describes p q a b m) (h' : d.Describes p q a' b' m')
    (ha : a.HasShape s) (hb : b.HasShape s) (hm : m.HasShape s)
    (ha' : a'.HasShape t) (hb' : b'.HasShape t) (hm' : m'.HasShape t)
    (hst : s.broadcast t = .ok r) {v : Mat K} (hv : a.add a' = .ok v) :
    ∃ v' w, b.add b' = .ok v' ∧ m.add m' = .ok w ∧ (c.add d).Describes p q v v' w := by
  rw [Mat.add_of_hasShape ha ha' hst] at hv
  cases hv
  refine ⟨_, _, Mat.add_of_hasShape hb hb' hst, Mat.add_of_hasShape hm hm' hst, ?_⟩
  exact describes_ofFn fun i j => (h.spread ha hb hm i j).add (h'.spread ha' hb' hm' i j)

theorem Describes.select {sel : Selection} (h : c.Describes p q a b m) (ha : a.HasShape s)
    (hb : b.HasShape s) (hm : m.HasShape s) (hsel : sel.Fits s) (ht : sel.shape = .ok t)
    {v : Mat K} (hv : a.select sel = .ok v) :
    ∃ v' w, b.select sel = .ok v' ∧ m.select sel = .ok w ∧ c.Describes p q v v' w := by
  rw [Mat.select_of_hasShape ha hsel ht] at hv
  cases hv
  refine ⟨_, _, Mat.select_of_hasShape hb hsel ht, Mat.select_of_hasShape hm hsel ht, ?_⟩
  exact describes_ofFn fun i j => h _ _

/-- The three products are of one kind, since the shapes are. -/
theorem Describes.mul {σ : Sign} {k v : Mat K} (hk : σ.Describes k) (h : c.Describes p q a b m)
    (ha : a.HasShape s) (hb : b.HasShape s) (hm : m.HasShape s) (hv : k.mul a = .ok v) :
    ∃ v' w, k.mul b = .ok v' ∧ k.mul m = .ok w ∧
      (Curvature.scale σ c).Describes p q v v' w := by
  have hba : b.IsScalar ↔ a.IsScalar := hb.isScalar_iff.trans ha.isScalar_iff.symm
  have hma : m.IsScalar ↔ a.IsScalar := hm.isScalar_iff.trans ha.isScalar_iff.symm
  unfold Mat.mul at *
  split_ifs at hv with hscalar hother hinner
  · cases hv
    exact ⟨_, _, if_pos hscalar, if_pos hscalar, h.scale (hk 0 0)⟩
  · cases hv
    rw [if_neg hscalar, if_pos (hba.2 hother), if_neg hscalar, if_pos (hma.2 hother)]
    exact ⟨_, _, rfl, rfl, h.scale_number hk⟩
  · cases hv
    have hinner' : k.cols = b.rows := hinner.trans (ha.dims_eq hb).1
    have hinner'' : k.cols = m.rows := hinner.trans (ha.dims_eq hm).1
    rw [if_neg hscalar, if_neg (mt hba.1 hother), if_pos hinner',
      if_neg hscalar, if_neg (mt hma.1 hother), if_pos hinner'']
    exact ⟨_, _, rfl, rfl, h.product hk⟩

theorem Describes.div {σ : Sign} {k v : Mat K} (hk : σ.Describes k) (h : c.Describes p q a b m)
    (hv : a.div k = .ok v) :
    ∃ v' w, b.div k = .ok v' ∧ m.div k = .ok w ∧
      (Curvature.scale σ.reciprocal c).Describes p q v v' w := by
  obtain ⟨hscalar, hne⟩ := Mat.divisor_of_div hv
  rw [Mat.div_eq_scale hscalar hne] at hv
  cases hv
  exact ⟨_, _, Mat.div_eq_scale hscalar hne, Mat.div_eq_scale hscalar hne,
    h.scale (hk 0 0).reciprocal⟩

end Curvature

/-! ### Expressions -/

namespace Expr

/-- An expression that has a value at one assignment has one at any other and in between, and these
values are to each other as the recorded curvature promises. -/
theorem WellFormed.curved {e : Expr} (he : e.WellFormed) {x y : Assignment K}
    (hx : x.Respects e) {p q : K} (hpq : p + q = 1) {u : Mat K} (hu : e.eval x = .ok u) :
    ∃ v w, e.eval y = .ok v ∧ e.eval (p • x + q • y) = .ok w ∧
      e.curvature.Describes p q u v w := by
  -- on the derivation, for every value at the first assignment
  induction he generalizing u with
  | @var l d hl =>
    cases hu
    have hc : (Expr.var l d).curvature = .affine := congrArg Attributes.curvature hl
    refine ⟨_, _, rfl, rfl, fun i j => ?_⟩
    rw [hc]
    exact Curvature.allows_affine (x.entry_matrix_mix y p q l.id d.shape i j)
  | const hshape hcurv hsign =>
    cases hu
    refine ⟨_, _, rfl, rfl, fun i j => Curvature.allows_of_eq rfl ?_ _⟩
    rw [← add_mul, hpq, one_mul]
  | @add l a b ha hb hl iha ihb =>
    obtain ⟨ua, ub, hua, hub, hsum⟩ := eval_add_eq_ok_iff.1 hu
    obtain ⟨va, wa, hva, hwa, hca⟩ := iha (hx.child List.mem_cons_self) hua
    obtain ⟨vb, wb, hvb, hwb, hcb⟩ :=
      ihb (hx.child (List.mem_cons_of_mem _ List.mem_cons_self)) hub
    obtain ⟨s, hs, hattr⟩ := Attributes.add_eq_ok_iff.1 hl
    have hc : (Expr.add l a b).curvature = a.curvature.add b.curvature :=
      congrArg Attributes.curvature hattr
    obtain ⟨v, w, hv, hw, hcv⟩ := hca.add hcb
      (ha.hasShape hua) (ha.hasShape hva) (ha.hasShape hwa)
      (hb.hasShape hub) (hb.hasShape hvb) (hb.hasShape hwb) hs hsum
    refine ⟨v, w, eval_add_eq_ok_iff.2 ⟨va, vb, hva, hvb, hv⟩,
      eval_add_eq_ok_iff.2 ⟨wa, wb, hwa, hwb, hw⟩, ?_⟩
    rw [hc]
    exact hcv
  | @neg l a ha hl iha =>
    obtain ⟨ua, hua, rfl⟩ := eval_neg_eq_ok_iff.1 hu
    obtain ⟨va, wa, hva, hwa, hca⟩ := iha (hx.child List.mem_cons_self) hua
    have hc : (Expr.neg l a).curvature = a.curvature.neg := congrArg Attributes.curvature hl
    refine ⟨_, _, eval_neg_eq_ok_iff.2 ⟨va, hva, rfl⟩, eval_neg_eq_ok_iff.2 ⟨wa, hwa, rfl⟩, ?_⟩
    rw [hc]
    exact hca.neg
  | @mul l k a hk ha hconst hl ihk iha =>
    obtain ⟨uk, ua, huk, hua, hprod⟩ := eval_mul_eq_ok_iff.1 hu
    have hxk := hx.child (c := k) List.mem_cons_self
    obtain ⟨vk, wk, hvk, hwk, hck⟩ := ihk hxk huk
    obtain ⟨va, wa, hva, hwa, hca⟩ :=
      iha (hx.child (List.mem_cons_of_mem _ List.mem_cons_self)) hua
    obtain ⟨s, -, hattr⟩ := Attributes.mul_eq_ok_iff.1 hl
    have hc : (Expr.mul l k a).curvature = a.curvature.scale k.sign :=
      congrArg Attributes.curvature hattr
    -- the factor is one matrix at all three points, whatever it is made of
    obtain ⟨rfl, rfl⟩ := hck.eq hconst hpq (hk.hasShape huk) (hk.hasShape hvk) (hk.hasShape hwk)
    obtain ⟨v, w, hv, hw, hcv⟩ := hca.mul (hk.describes hxk huk)
      (ha.hasShape hua) (ha.hasShape hva) (ha.hasShape hwa) hprod
    refine ⟨v, w, eval_mul_eq_ok_iff.2 ⟨_, va, hvk, hva, hv⟩,
      eval_mul_eq_ok_iff.2 ⟨_, wa, hwk, hwa, hw⟩, ?_⟩
    rw [hc]
    exact hcv
  | @div l a k ha hk hconst hscalar hl iha ihk =>
    obtain ⟨ua, uk, hua, huk, hquot⟩ := eval_div_eq_ok_iff.1 hu
    have hxk := hx.child (c := k) (List.mem_cons_of_mem _ List.mem_cons_self)
    obtain ⟨va, wa, hva, hwa, hca⟩ := iha (hx.child List.mem_cons_self) hua
    obtain ⟨vk, wk, hvk, hwk, hck⟩ := ihk hxk huk
    have hc : (Expr.div l a k).curvature = a.curvature.scale k.sign.reciprocal :=
      congrArg Attributes.curvature hl
    -- so is the divisor, and where it is zero does not depend on the assignment
    obtain ⟨rfl, rfl⟩ := hck.eq hconst hpq (hk.hasShape huk) (hk.hasShape hvk) (hk.hasShape hwk)
    obtain ⟨v, w, hv, hw, hcv⟩ := hca.div (hk.describes hxk huk) hquot
    refine ⟨v, w, eval_div_eq_ok_iff.2 ⟨va, _, hva, hvk, hv⟩,
      eval_div_eq_ok_iff.2 ⟨wa, _, hwa, hwk, hw⟩, ?_⟩
    rw [hc]
    exact hcv
  | @transpose l a ha hscalar hl iha =>
    obtain ⟨ua, hua, rfl⟩ := eval_transpose_eq_ok_iff.1 hu
    obtain ⟨va, wa, hva, hwa, hca⟩ := iha (hx.child List.mem_cons_self) hua
    have hc : (Expr.transpose l a).curvature = a.attributes.transpose.curvature :=
      congrArg Attributes.curvature hl
    refine ⟨_, _, eval_transpose_eq_ok_iff.2 ⟨va, hva, rfl⟩,
      eval_transpose_eq_ok_iff.2 ⟨wa, hwa, rfl⟩, ?_⟩
    rw [hc]
    exact hca.transpose
  | @index l a s t ha hscalar hfits ht hl iha =>
    obtain ⟨ua, hua, hsel⟩ := eval_index_eq_ok_iff.1 hu
    obtain ⟨va, wa, hva, hwa, hca⟩ := iha (hx.child List.mem_cons_self) hua
    have hc : (Expr.index l a s).curvature = (a.attributes.select t).curvature :=
      congrArg Attributes.curvature hl
    obtain ⟨v, w, hv, hw, hcv⟩ := hca.select
      (ha.hasShape hua) (ha.hasShape hva) (ha.hasShape hwa) hfits ht hsel
    refine ⟨v, w, eval_index_eq_ok_iff.2 ⟨va, hva, hv⟩, eval_index_eq_ok_iff.2 ⟨wa, hwa, hw⟩, ?_⟩
    rw [hc]
    exact hcv

/-- Whether an expression has a value is the same at all assignments that obey what is declared,
and its values at two of them and in between are as the recorded curvature says. -/
theorem Buildable.curvature_sound {e : Expr} (he : e.Buildable) {x y : Assignment K}
    (hx : x.Respects e) (hy : y.Respects e) {t : K} (h0 : 0 ≤ t) (h1 : t ≤ 1) :
    (t • x + (1 - t) • y).Respects e ∧
    ((∃ u, e.eval x = .ok u) ↔ ∃ v, e.eval y = .ok v) ∧
    ∀ u v, e.eval x = .ok u → e.eval y = .ok v →
      ∃ w, e.eval (t • x + (1 - t) • y) = .ok w ∧
        u.HasShape e.shape ∧ v.HasShape e.shape ∧ w.HasShape e.shape ∧
        (e.isConstant = true → u = v) ∧
        (e.isAffine = true → ∀ i j, w.entry i j = t * u.entry i j + (1 - t) * v.entry i j) ∧
        (e.isConvex = true → ∀ i j, w.entry i j ≤ t * u.entry i j + (1 - t) * v.entry i j) ∧
        (e.isConcave = true → ∀ i j, t * u.entry i j + (1 - t) * v.entry i j ≤ w.entry i j) := by
  have hwf := he.wellFormed
  have hone : t + (1 - t) = 1 := add_sub_cancel t 1
  refine ⟨hx.mix hy h0 (sub_nonneg.2 h1), ⟨?_, ?_⟩, fun u v hu hv => ?_⟩
  · rintro ⟨u, hu⟩
    obtain ⟨v, w, hv, -, -⟩ := hwf.curved (y := y) hx hone hu
    exact ⟨v, hv⟩
  · rintro ⟨v, hv⟩
    obtain ⟨u, w, hu, -, -⟩ := hwf.curved (y := x) hy hone hv
    exact ⟨u, hu⟩
  · obtain ⟨v', w, hv', hw, hc⟩ := hwf.curved (y := y) hx hone hu
    obtain rfl : v = v' := Except.ok.inj (hv.symm.trans hv')
    refine ⟨w, hw, hwf.hasShape hu, hwf.hasShape hv, hwf.hasShape hw, fun h => ?_, fun h i j => ?_,
      fun h i j => (hc i j).convex h, fun h i j => (hc i j).concave h⟩
    · exact (hc.eq h hone (hwf.hasShape hu) (hwf.hasShape hv) (hwf.hasShape hw)).1.symm
    · rw [isAffine, Curvature.isAffine_iff, Bool.and_eq_true] at h
      exact le_antisymm ((hc i j).convex h.1) ((hc i j).concave h.2)

/-- The scaled column halfway between two assignments. -/
theorem scaledColumn_curvature_sound :
    let x : Assignment ℚ := fun _ i _ => if i = 0 then 3 else 5
    let y : Assignment ℚ := fun _ _ _ => 1
    ((1 / 2 : ℚ) • x + (1 - 1 / 2 : ℚ) • y).Respects scaledColumn ∧
    ((∃ u, scaledColumn.eval x = .ok u) ↔ ∃ v, scaledColumn.eval y = .ok v) ∧
    ∀ u v, scaledColumn.eval x = .ok u → scaledColumn.eval y = .ok v →
      ∃ w, scaledColumn.eval ((1 / 2 : ℚ) • x + (1 - 1 / 2 : ℚ) • y) = .ok w ∧
        u.HasShape scaledColumn.shape ∧ v.HasShape scaledColumn.shape ∧
        w.HasShape scaledColumn.shape ∧
        (scaledColumn.isConstant = true → u = v) ∧
        (scaledColumn.isAffine = true →
          ∀ i j, w.entry i j = 1 / 2 * u.entry i j + (1 - 1 / 2) * v.entry i j) ∧
        (scaledColumn.isConvex = true →
          ∀ i j, w.entry i j ≤ 1 / 2 * u.entry i j + (1 - 1 / 2) * v.entry i j) ∧
        (scaledColumn.isConcave = true →
          ∀ i j, 1 / 2 * u.entry i j + (1 - 1 / 2) * v.entry i j ≤ w.entry i j) := by
  intro x y
  have hx : x.Respects scaledColumn := respects_scaledColumn fun i j => by
    show (0 : ℚ) ≤ if i = 0 then 3 else 5
    split <;> norm_num
  have hy : y.Respects scaledColumn := respects_scaledColumn fun _ _ => zero_le_one
  exact Buildable.curvature_sound scaledColumn_buildable hx hy (by norm_num) (by norm_num)

end Expr

end DisciplinedConvex
