/-
DisciplinedConvex/Proofs/Graph/Live.lean

Curvature told by paths.

A node is live in an expression if a path leads to it that goes below no product with
a zero factor; one node may be live at one place and not at another.  The curvature
that is recorded node by node says three things about live nodes
(`Buildable.curvature_told`):

    constant   no variable is live
    unknown    a live product or quotient loses track of a variable
    affine     anything else

so nothing is lost on the way up, and nothing is made up.
-/
import DisciplinedConvex.Proofs.Graph.Nodes

namespace DisciplinedConvex

/-! ### The curvatures that are recorded -/

namespace Curvature

/-- The curvatures that composition from variables and constants gives: there is no other source of
convexity. -/
def Composed (c : Curvature) : Prop := c = constant ∨ c = affine ∨ c = unknown

instance (c : Curvature) : Decidable c.Composed :=
  inferInstanceAs (Decidable (_ ∨ _))

variable {c d : Curvature}

theorem Composed.neg_eq (hc : c.Composed) : c.neg = c := by
  rcases hc with rfl | rfl | rfl <;> rfl

theorem Composed.add (hc : c.Composed) (hd : d.Composed) : (c.add d).Composed := by
  rcases hc with rfl | rfl | rfl <;> rcases hd with rfl | rfl | rfl <;> decide

theorem Composed.add_eq_unknown_iff (hc : c.Composed) (hd : d.Composed) :
    c.add d = unknown ↔ c = unknown ∨ d = unknown := by
  rcases hc with rfl | rfl | rfl <;> rcases hd with rfl | rfl | rfl <;> decide

theorem Composed.scale (hc : c.Composed) (s : Sign) : (c.scale s).Composed := by
  rcases hc with rfl | rfl | rfl <;> cases s <;> decide

/-- A factor of unknown sign loses what is not constant, and a factor of any other sign, zero apart,
keeps what was lost before. -/
theorem Composed.scale_eq_unknown_iff (hc : c.Composed) {s : Sign} :
    c.scale s = unknown ↔ (s = .unknown ∧ c ≠ constant) ∨ (s ≠ .zero ∧ c = unknown) := by
  rcases hc with rfl | rfl | rfl <;> cases s <;> decide

end Curvature

namespace Sign

theorem reciprocal_ne_zero (s : Sign) : s.reciprocal ≠ zero := by
  cases s <;> decide

theorem reciprocal_eq_unknown_iff {s : Sign} :
    s.reciprocal = unknown ↔ s = unknown ∨ s = zero := by
  cases s <;> decide

end Sign

namespace Expr

/-! ### Live nodes -/

/-- A product whose factor is zero; what stands below it does not count. -/
def Vanishes : Expr → Prop
  | mul _ k _ => k.sign = .zero
  | _ => False

/-- Some path leads to the node that goes below no product with a zero factor. -/
inductive Live : Expr → Expr → Prop where
  | refl (e : Expr) : Live e e
  | child {e c n : Expr} (he : ¬e.Vanishes) (hc : c ∈ e.children) (hn : Live c n) : Live e n

variable {e a b k n m : Expr} {l : Label}

theorem Live.trans (hn : e.Live n) (hm : n.Live m) : e.Live m := by
  induction hn with
  | refl e => exact hm
  | child he hc _ ih => exact .child he hc (ih hm)

theorem Live.reaches (hn : e.Live n) : e.Reaches n := by
  induction hn with
  | refl e => exact .refl e
  | child _ hc _ ih => exact .child hc ih

/-- A path stops at once or goes on from an operand. -/
theorem exists_live_iff {q : Expr → Prop} :
    (∃ n, e.Live n ∧ q n) ↔
      q e ∨ (¬e.Vanishes ∧ ∃ c ∈ e.children, ∃ n, c.Live n ∧ q n) := by
  constructor
  · rintro ⟨n, hn, hq⟩
    cases hn with
    | refl => exact .inl hq
    | child he hc hn => exact .inr ⟨he, _, hc, n, hn, hq⟩
  · rintro (hq | ⟨he, c, hc, n, hn, hq⟩)
    · exact ⟨e, .refl e, hq⟩
    · exact ⟨n, .child he hc hn, hq⟩

/-- A variable is live in the expression. -/
def HasLiveVariable (e : Expr) : Prop := ∃ n, e.Live n ∧ n.isVariable = true

/-- The node scales by what is of unknown sign, or divides by what may be zero, and a variable is
live in what is scaled. -/
def Degrades : Expr → Prop
  | mul _ k a => k.sign = .unknown ∧ a.HasLiveVariable
  | div _ a k => (k.sign = .unknown ∨ k.sign = .zero) ∧ a.HasLiveVariable
  | _ => False

/-- A live node degrades. -/
def IsDegraded (e : Expr) : Prop := ∃ n, e.Live n ∧ n.Degrades

theorem hasLiveVariable_iff :
    e.HasLiveVariable ↔
      e.isVariable = true ∨ (¬e.Vanishes ∧ ∃ c ∈ e.children, c.HasLiveVariable) :=
  exists_live_iff

theorem isDegraded_iff :
    e.IsDegraded ↔ e.Degrades ∨ (¬e.Vanishes ∧ ∃ c ∈ e.children, c.IsDegraded) :=
  exists_live_iff

theorem hasLiveVariable_mul_iff :
    (mul l k a).HasLiveVariable ↔ k.sign ≠ .zero ∧ (k.HasLiveVariable ∨ a.HasLiveVariable) :=
  hasLiveVariable_iff.trans (by simp [children, Vanishes, isVariable])

theorem isDegraded_mul_iff :
    (mul l k a).IsDegraded ↔ (k.sign = .unknown ∧ a.HasLiveVariable) ∨
      (k.sign ≠ .zero ∧ (k.IsDegraded ∨ a.IsDegraded)) :=
  isDegraded_iff.trans (by simp [children, Vanishes, Degrades])

theorem hasLiveVariable_div_iff :
    (div l a k).HasLiveVariable ↔ a.HasLiveVariable ∨ k.HasLiveVariable :=
  hasLiveVariable_iff.trans (by simp [children, Vanishes, isVariable])

theorem isDegraded_div_iff :
    (div l a k).IsDegraded ↔ ((k.sign = .unknown ∨ k.sign = .zero) ∧ a.HasLiveVariable) ∨
      a.IsDegraded ∨ k.IsDegraded :=
  isDegraded_iff.trans (by simp [children, Vanishes, Degrades])

/-! ### One node after the other -/

/-- The curvature of the expression says of its live nodes what it should. -/
structure Told (e : Expr) : Prop where
  composed : e.curvature.Composed
  constant_iff : e.curvature = .constant ↔ ¬e.HasLiveVariable
  unknown_iff : e.curvature = .unknown ↔ e.IsDegraded

/-- No variable is live in a constant, and nothing degrades. -/
theorem Told.of_constant (he : e.Told) (h : e.curvature = .constant) :
    ¬e.HasLiveVariable ∧ ¬e.IsDegraded := by
  refine ⟨he.constant_iff.1 h, fun hd => ?_⟩
  have hu := he.unknown_iff.2 hd
  rw [h] at hu
  cases hu

theorem told_var {d : Declaration} (h : (var l d).curvature = .affine) : (var l d).Told where
  composed := .inr (.inl h)
  constant_iff := by
    rw [hasLiveVariable_iff]
    simp [h, isVariable]
  unknown_iff := by
    rw [isDegraded_iff]
    simp [h, Degrades, children]

theorem told_const {v : Value} (h : (const l v).curvature = .constant) : (const l v).Told where
  composed := .inl h
  constant_iff := by
    rw [hasLiveVariable_iff]
    simp [h, isVariable, children]
  unknown_iff := by
    rw [isDegraded_iff]
    simp [h, Degrades, children]

/-- A node with one operand keeps the curvature of the operand. -/
theorem Told.single (ha : a.Told) (hc : e.children = [a]) (h : e.curvature = a.curvature) :
    e.Told := by
  obtain ⟨hv, hvar, hd⟩ : ¬e.Vanishes ∧ e.isVariable = false ∧ ¬e.Degrades := by
    cases e <;> simp_all [children, Vanishes, isVariable, Degrades]
  refine ⟨h ▸ ha.composed, ?_, ?_⟩
  · rw [h, ha.constant_iff, hasLiveVariable_iff (e := e)]
    simp [hc, hv, hvar]
  · rw [h, ha.unknown_iff, isDegraded_iff (e := e)]
    simp [hc, hv, hd]

theorem Told.add (ha : a.Told) (hb : b.Told)
    (h : (Expr.add l a b).curvature = a.curvature.add b.curvature) : (Expr.add l a b).Told where
  composed := h ▸ ha.composed.add hb.composed
  constant_iff := by
    rw [h, Curvature.add_eq_constant_iff, ha.constant_iff, hb.constant_iff, hasLiveVariable_iff
      (e := Expr.add l a b)]
    simp [children, Vanishes, isVariable]
  unknown_iff := by
    rw [h, ha.composed.add_eq_unknown_iff hb.composed, ha.unknown_iff, hb.unknown_iff,
      isDegraded_iff (e := Expr.add l a b)]
    simp [children, Vanishes, Degrades]

/-- The factor of a product is constant, so that all that is live stands in the other operand. -/
theorem Told.mul (hk : k.Told) (ha : a.Told) (hconst : k.curvature = .constant)
    (h : (Expr.mul l k a).curvature = a.curvature.scale k.sign) : (Expr.mul l k a).Told := by
  obtain ⟨hvar, hdeg⟩ := hk.of_constant hconst
  -- both sides now speak of the sign of the factor and of the other operand alone
  refine ⟨h ▸ ha.composed.scale k.sign, ?_, ?_⟩
  · rw [h, Curvature.scale_eq_constant_iff, ha.constant_iff, hasLiveVariable_mul_iff]
    tauto
  · rw [h, ha.composed.scale_eq_unknown_iff, Ne, ha.constant_iff, not_not, ha.unknown_iff,
      isDegraded_mul_iff]
    tauto

/-- To divide is to scale by what is never known to be zero. -/
theorem Told.div (ha : a.Told) (hk : k.Told) (hconst : k.curvature = .constant)
    (h : (Expr.div l a k).curvature = a.curvature.scale k.sign.reciprocal) :
    (Expr.div l a k).Told := by
  obtain ⟨hvar, hdeg⟩ := hk.of_constant hconst
  have hzero := k.sign.reciprocal_ne_zero
  refine ⟨h ▸ ha.composed.scale _, ?_, ?_⟩
  · rw [h, Curvature.scale_eq_constant_iff, ha.constant_iff, hasLiveVariable_div_iff]
    tauto
  · rw [h, ha.composed.scale_eq_unknown_iff, Ne, ha.constant_iff, not_not, ha.unknown_iff,
      Sign.reciprocal_eq_unknown_iff, isDegraded_div_iff]
    tauto

/-- On the nodes of a well-formed expression, from the leaves up. -/
theorem WellFormed.told (he : e.WellFormed) : e.Told := by
  induction he with
  | var hl => exact told_var (congrArg Attributes.curvature hl)
  | const hshape hcurv hsign => exact told_const hcurv
  | add ha hb hl iha ihb =>
    obtain ⟨s, -, hl⟩ := Attributes.add_eq_ok_iff.1 hl
    exact iha.add ihb (congrArg Attributes.curvature hl)
  | neg ha hl iha =>
    exact iha.single rfl ((congrArg Attributes.curvature hl).trans iha.composed.neg_eq)
  | mul hk ha hconst hl ihk iha =>
    obtain ⟨s, -, hl⟩ := Attributes.mul_eq_ok_iff.1 hl
    exact ihk.mul iha (isConstant_iff.1 hconst) (congrArg Attributes.curvature hl)
  | div ha hk hconst hscalar hl iha ihk =>
    exact iha.div ihk (isConstant_iff.1 hconst) (congrArg Attributes.curvature hl)
  | @transpose l a ha hscalar hl iha =>
    have hcurv : l.attributes.curvature = a.attributes.transpose.curvature := by rw [hl]
    exact iha.single rfl hcurv
  | @index l a s t ha hscalar hfits ht hl iha =>
    have hcurv : l.attributes.curvature = (a.attributes.select t).curvature := by rw [hl]
    exact iha.single rfl hcurv

/-! ### Curvature -/

/-- What is neither constant nor unknown is affine. -/
theorem Told.affine_iff (he : e.Told) :
    e.curvature = .affine ↔ e.HasLiveVariable ∧ ¬e.IsDegraded := by
  have hvar : e.HasLiveVariable ↔ e.curvature ≠ .constant := by
    rw [Ne, he.constant_iff, not_not]
  rw [hvar, ← he.unknown_iff]
  rcases he.composed with h | h | h <;> simp [h]

/-- In what a session builds, the curvature is constant just where no variable is live, unknown
just where a live node degrades, and affine in all other cases; without variables it is constant,
and what is live and unknown makes all of it unknown. -/
theorem Buildable.curvature_told (he : e.Buildable) :
    (e.curvature = .constant ↔ ¬e.HasLiveVariable) ∧
    (e.curvature = .unknown ↔ e.IsDegraded) ∧
    (e.curvature = .affine ↔ e.HasLiveVariable ∧ ¬e.IsDegraded) ∧
    ((∀ n, e.Reaches n → n.isVariable = false) → e.curvature = .constant) ∧
    ∀ n, e.Live n → n.curvature = .unknown → e.curvature = .unknown := by
  have htold := he.wellFormed.told
  refine ⟨htold.constant_iff, htold.unknown_iff, htold.affine_iff, fun hnone => ?_,
    fun n hn hu => ?_⟩
  · refine htold.constant_iff.2 ?_
    rintro ⟨n, hn, hvar⟩
    simp [hnone n hn.reaches] at hvar
  · -- what degrades in the part is live in the whole
    have hpart := (he.wellFormed.reaches hn.reaches).told
    obtain ⟨m, hm, hd⟩ := hpart.unknown_iff.1 hu
    exact htold.unknown_iff.2 ⟨m, hn.trans hm, hd⟩

/-- A column times a matrix with entries of either sign; this taken zero times, and that added to
the column; and both sums added up. -/
theorem curvature_told_column :
    let steps : List Step := [
      .declare 2 1 none [],
      .operate .product (.literal (.dense 2 2 #[1.0, -1.0, 0.0, 1.0])) (.register 0) true,
      .operate .product (.literal (.scalar 0.0)) (.register 1) true,
      .operate .sum (.register 2) (.register 0) true,
      .operate .sum (.register 3) (.register 1) true]
    ∃ a b c d, ((Session.startingAt 0).run steps).1[1]? = some (.ok (.expr a)) ∧
      ((Session.startingAt 0).run steps).1[2]? = some (.ok (.expr b)) ∧
      ((Session.startingAt 0).run steps).1[3]? = some (.ok (.expr c)) ∧
      ((Session.startingAt 0).run steps).1[4]? = some (.ok (.expr d)) ∧
      b.Reaches a ∧ ¬b.HasLiveVariable ∧ c.HasLiveVariable ∧ ¬c.IsDegraded ∧ d.IsDegraded := by
  intro steps
  obtain ⟨a, b, c, d, ha, hb, hc, hd, hreach, hbc, hcc, hdc⟩ : ∃ a b c d,
      ((Session.startingAt 0).run steps).1[1]? = some (.ok (.expr a)) ∧
      ((Session.startingAt 0).run steps).1[2]? = some (.ok (.expr b)) ∧
      ((Session.startingAt 0).run steps).1[3]? = some (.ok (.expr c)) ∧
      ((Session.startingAt 0).run steps).1[4]? = some (.ok (.expr d)) ∧
      b.Reaches a ∧ b.curvature = .constant ∧ c.curvature = .affine ∧ d.curvature = .unknown :=
    ⟨_, _, _, _, rfl, rfl, rfl, rfl, .child (List.mem_cons_of_mem _ List.mem_cons_self) (.refl _),
      by decide +kernel, by decide +kernel, by decide +kernel⟩
  have hb' := (Buildable.curvature_told (.of_answer 0 steps 2 hb)).1.1 hbc
  obtain ⟨hvar, hdeg⟩ := (Buildable.curvature_told (.of_answer 0 steps 3 hc)).2.2.1.1 hcc
  have hd' := (Buildable.curvature_told (.of_answer 0 steps 4 hd)).2.1.1 hdc
  exact ⟨a, b, c, d, ha, hb, hc, hd, hreach, hb', hvar, hdeg, hd'⟩

end Expr

end DisciplinedConvex
