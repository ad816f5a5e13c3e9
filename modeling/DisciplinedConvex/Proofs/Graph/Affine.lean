/-
DisciplinedConvex/Proofs/Graph/Affine.lean

Only what is affine is certified.

Variables are affine and values are constant, and of these no operation makes
anything convex or concave: the rules for curvatures that are one and not the other
are never reached.  So convex, concave, affine and certified are one and the same
(`Curvature.Composed.isConvex_eq` and the like), an objective is judged alike in
either sense, and a constraint is certified just where both of its sides are affine,
whichever comparison it was made by (`Session.verdicts_coincide`).

What is known to be zero is constant (`Expr.WellFormed.zeroConstant`).  This is
not told by a single node: a product is zero where one of its factors is, and then
it is constant because that factor was.
-/
import DisciplinedConvex.Proofs.Graph.Live

namespace DisciplinedConvex

/-! ### Curvature and sign -/

namespace Curvature

variable {c : Curvature}

theorem isAffine_neg (c : Curvature) : c.neg.isAffine = c.isAffine := by
  cases c <;> rfl

theorem isAffine_add (c d : Curvature) : (c.add d).isAffine = (c.isAffine && d.isAffine) := by
  cases c <;> cases d <;> rfl

theorem Composed.isConvex_eq (hc : c.Composed) : c.isConvex = c.isAffine := by
  rcases hc with rfl | rfl | rfl <;> rfl

theorem Composed.isConcave_eq (hc : c.Composed) : c.isConcave = c.isAffine := by
  rcases hc with rfl | rfl | rfl <;> rfl

theorem Composed.isCertified_eq (hc : c.Composed) : c.isCertified = c.isAffine := by
  rcases hc with rfl | rfl | rfl <;> rfl

end Curvature

namespace Sign

theorem neg_eq_zero_iff {a : Sign} : a.neg = zero ↔ a = zero := by
  cases a <;> decide

/-- Terms of different signs never add up to what is known to be zero. -/
theorem add_eq_zero_iff {a b : Sign} : a.add b = zero ↔ a = zero ∧ b = zero := by
  cases a <;> cases b <;> decide

theorem mul_eq_zero_iff {a b : Sign} : a.mul b = zero ↔ a = zero ∨ b = zero := by
  cases a <;> cases b <;> decide

end Sign

/-- What is known to be zero does not vary. -/
def Attributes.ZeroConstant (a : Attributes) : Prop := a.sign = .zero → a.curvature = .constant

namespace Attributes.ZeroConstant

variable {a b k c : Attributes}

theorem add (ha : a.ZeroConstant) (hb : b.ZeroConstant) (h : a.add b = .ok c) :
    c.ZeroConstant := by
  obtain ⟨s, -, rfl⟩ := add_eq_ok_iff.1 h
  intro hz
  obtain ⟨hza, hzb⟩ := Sign.add_eq_zero_iff.1 hz
  exact Curvature.add_eq_constant_iff.2 ⟨ha hza, hb hzb⟩

theorem neg (ha : a.ZeroConstant) : a.neg.ZeroConstant :=
  fun hz => Curvature.neg_eq_constant_iff.2 (ha (Sign.neg_eq_zero_iff.1 hz))

/-- Either factor may be the one that is zero. -/
theorem mul (ha : a.ZeroConstant) (h : k.mul a = .ok c) : c.ZeroConstant := by
  obtain ⟨s, -, rfl⟩ := mul_eq_ok_iff.1 h
  intro hz
  exact Curvature.scale_eq_constant_iff.2 ((Sign.mul_eq_zero_iff.1 hz).imp_right ha)

theorem div (ha : a.ZeroConstant) (k : Attributes) : (a.div k).ZeroConstant := by
  intro hz
  have hza := (Sign.mul_eq_zero_iff.1 hz).resolve_right k.sign.reciprocal_ne_zero
  exact Curvature.scale_eq_constant_iff.2 (.inr (ha hza))

end Attributes.ZeroConstant

/-- On the nodes, from the leaves up: no variable is declared to be zero. -/
theorem Expr.WellFormed.zeroConstant {e : Expr} (he : e.WellFormed) :
    e.label.attributes.ZeroConstant := by
  -- on the nodes: a sum is zero where both terms are, a product where one factor is
  induction he with
  | @var l d hl =>
    intro hz
    have hd : d.sign = .zero := by rwa [label, hl] at hz
    rcases d.sign_cases with h | h | h <;> rw [hd] at h <;> cases h
  | const hshape hcurv hsign => exact fun _ => hcurv
  | add ha hb hl iha ihb => exact iha.add ihb hl
  | neg ha hl iha =>
    rw [label, hl]
    exact iha.neg
  | mul hk ha hconst hl ihk iha => exact iha.mul hl
  | div ha hk hconst hscalar hl iha ihk =>
    rw [label, hl]
    exact iha.div _
  | transpose ha hscalar hl iha =>
    rw [label, hl]
    exact iha
  | index ha hscalar hfits ht hl iha =>
    rw [label, hl]
    exact iha

/-! ### Constraints and problems -/

/-- The residual is never convex alone, so an equality and an inequality ask the same of it. -/
theorem Constraint.WellFormed.isCertified_eq_residual {c : Constraint} (hc : c.WellFormed) :
    c.isCertified = c.residual.isAffine := by
  unfold isCertified
  split
  · rfl
  · exact hc.residual.told.composed.isConvex_eq

/-- The residual is affine just where both sides are. -/
theorem Constraint.WellFormed.isCertified_eq {c : Constraint} (hc : c.WellFormed) :
    c.isCertified = (c.lhs.isAffine && c.rhs.isAffine) := by
  obtain ⟨s, -, hattr⟩ := Attributes.add_eq_ok_iff.1 hc.attributes
  calc c.isCertified
      = c.residual.attributes.curvature.isAffine := hc.isCertified_eq_residual
    _ = (c.lhs.curvature.add c.rhs.curvature.neg).isAffine := by rw [hattr]; rfl
    _ = (c.lhs.isAffine && c.rhs.isAffine) := by
        rw [Curvature.isAffine_add, Curvature.isAffine_neg]
        rfl

theorem Objective.isCertified_eq {o : Objective} (ho : o.expr.WellFormed) :
    o.isCertified = o.expr.isAffine := by
  unfold isCertified
  split
  · exact ho.told.composed.isConvex_eq
  · exact ho.told.composed.isConcave_eq

theorem Problem.WellFormed.isCertified_iff {p : Problem} (hp : p.WellFormed) :
    p.isCertified = true ↔ p.objective.expr.isAffine = true ∧
      ∀ c ∈ p.constraints, c.lhs.isAffine = true ∧ c.rhs.isAffine = true := by
  rw [isCertified_iff_verdict, verdict_eq_ok_iff, Objective.isCertified_eq hp.objective]
  refine and_congr_right fun _ => forall₂_congr fun c hc => ?_
  rw [(hp.constraints c hc).isCertified_eq, Bool.and_eq_true]

/-! ### Comparisons in a session -/

open Build

/-- The shapes fit either way round. -/
theorem Shape.broadcast_comm_isOk {s t r : Shape} (h : s.broadcast t = .ok r) :
    ∃ r', t.broadcast s = .ok r' := by
  unfold broadcast at h ⊢
  split_ifs at h ⊢ <;> simp_all

namespace Build

/-- A build of two parts has a result just where both parts have one. -/
theorem perform_bind_eq_ok_iff {α β : Type} {b : Build α} {f : α → Build β} {l l' : Ledger}
    {c : β} :
    (b >>= f).perform l = (.ok c, l') ↔
      ∃ a l₁, b.perform l = (.ok a, l₁) ∧ (f a).perform l₁ = (.ok c, l') := by
  rw [perform_bind]
  rcases b.perform l with ⟨e | a, l₁⟩ <;> simp

theorem perform_lookUp_eq_ok_iff {α : Type} {x : Except Fault α} {l l' : Ledger} {a : α} :
    (Step.lookUp x).perform l = (.ok a, l') ↔ x = .ok a ∧ l' = l := by
  have hperform : (Step.lookUp x).perform l = (x, l) := by cases x <;> rfl
  rw [hperform, Prod.mk.injEq, eq_comm (a := l)]

/-- Where the shapes fit, nothing else can go wrong. -/
theorem perform_constraint (kind : ConstraintKind) {a b : Expr} {s : Shape}
    (h : a.shape.broadcast b.shape = .ok s) (l : Ledger) :
    ∃ c l', (constraint kind a b).perform l = (.ok c, l') := by
  have hattr (i : ℕ) : a.attributes.add (Expr.neg ⟨i, b.attributes.neg⟩ b).attributes =
      .ok ⟨a.curvature.add b.curvature.neg, a.sign.add b.sign.neg, s⟩ :=
    Attributes.add_eq_ok_iff.2 ⟨s, h, rfl⟩
  obtain ⟨r, l', hr⟩ : ∃ r l', (difference a b).perform l = (.ok r, l') := by
    rw [difference, negation, perform_bind, perform_node]
    dsimp only
    rw [sum, perform_bind, perform_check, hattr]
    exact ⟨_, _, rfl⟩
  exact ⟨_, _, perform_bind_eq_ok_iff.2 ⟨r, l', hr, rfl⟩⟩

/-- All that a constant knows it has from its value. -/
theorem constant_yields_attributes (v : Value) :
    (Build.constant v).Yields fun e =>
      ∃ s, v.shape = .ok s ∧ e.attributes = ⟨.constant, v.sign, s⟩ :=
  (yields_check _).bind fun s hs => yields_node fun _ => ⟨s, hs, rfl⟩

end Build

/-- The operand is cast in any ledger, to an expression with these attributes. -/
def Ready.Casts (r : Ready) (attributes : Attributes) : Prop :=
  ∀ l, ∃ e l', r.cast.perform l = (.ok e, l') ∧ e.attributes = attributes

/-- What is cast once is cast always: of a constant only the number depends on the ledger. -/
theorem Ready.casts_of_perform {r : Ready} {l l' : Ledger} {e : Expr}
    (h : r.cast.perform l = (.ok e, l')) : r.Casts e.attributes := by
  intro l₁
  cases r with
  | expr a =>
    cases h
    exact ⟨_, l₁, rfl, rfl⟩
  | value v =>
    obtain ⟨s, hs, he⟩ := (constant_yields_attributes v).insist _ _ _ h
    rw [he, cast, perform_insist, Build.constant, perform_bind, perform_check, hs]
    exact ⟨_, _, rfl, rfl⟩

/-- The operand is there and complete, and it is cast to an expression with these attributes. -/
def Operand.Makes (rs : Registers) (a : Operand) (attributes : Attributes) : Prop :=
  ∃ f r, a.found rs = .ok f ∧ f.ready = .ok r ∧ r.Casts attributes

/-- When two operands are compared at all, and what comes of it, is a matter of what they make: of
the ledger and of the comparison nothing remains. -/
theorem Step.compare_answers_iff {rs : Registers} (h : rs.WellFormed) (cmp : Comparison)
    {a b : Operand} {l : Ledger} {verdict : Bool} :
    (∃ c l', ((Step.compare cmp a b).build rs).perform l = (.ok (.constraint c), l') ∧
        c.isCertified = verdict) ↔
      ∃ A B s, a.Makes rs A ∧ b.Makes rs B ∧ A.shape.broadcast B.shape = .ok s ∧
        verdict = (A.curvature.isAffine && B.curvature.isAffine) := by
  constructor
  · rintro ⟨c, l', hc, rfl⟩
    have hwf : c.WellFormed := build_wellFormed h _ _ _ _ hc
    simp only [build, perform_bind_eq_ok_iff, perform_lookUp_eq_ok_iff] at hc
    obtain ⟨f, _, ⟨hf, rfl⟩, g, _, ⟨hg, rfl⟩, r, _, ⟨hr, rfl⟩, t, _, ⟨ht, rfl⟩,
      x, l₁, hx, y, l₂, hy, d, l₃, hd, hpure⟩ := hc
    cases hpure
    obtain ⟨-, rfl, rfl, s, hs⟩ := constraint_yields _ _ _ _ _ _ hd
    replace hx := Ready.casts_of_perform hx
    replace hy := Ready.casts_of_perform hy
    cases cmp with
    | equal | atMost =>
      exact ⟨_, _, s, ⟨f, r, hf, hr, hx⟩, ⟨g, t, hg, ht, hy⟩, hs, hwf.isCertified_eq⟩
    | atLeast =>
      obtain ⟨s', hs'⟩ := Shape.broadcast_comm_isOk hs
      exact ⟨_, _, s', ⟨f, r, hf, hr, hy⟩, ⟨g, t, hg, ht, hx⟩, hs',
        hwf.isCertified_eq.trans (Bool.and_comm _ _)⟩
  · rintro ⟨A, B, s, ⟨f, r, hf, hr, hA⟩, ⟨g, t, hg, ht, hB⟩, hs, rfl⟩
    -- the sides in the order in which they are kept
    obtain ⟨hx, hy, s', hs', hverdict⟩ : (cmp.sides r t).1.Casts (cmp.sides A B).1 ∧
        (cmp.sides r t).2.Casts (cmp.sides A B).2 ∧
        ∃ s', (cmp.sides A B).1.shape.broadcast (cmp.sides A B).2.shape = .ok s' ∧
          ((cmp.sides A B).1.curvature.isAffine && (cmp.sides A B).2.curvature.isAffine) =
            (A.curvature.isAffine && B.curvature.isAffine) := by
      cases cmp with
      | equal | atMost => exact ⟨hA, hB, s, hs, rfl⟩
      | atLeast =>
        obtain ⟨s', hs'⟩ := Shape.broadcast_comm_isOk hs
        exact ⟨hB, hA, s', hs', Bool.and_comm _ _⟩
    obtain ⟨x, l₁, hx, hxA⟩ := hx l
    obtain ⟨y, l₂, hy, hyB⟩ := hy l₁
    have hxy : x.shape.broadcast y.shape = .ok s' := by
      rw [← hs', ← hxA, ← hyB]
      rfl
    obtain ⟨c, l₃, hc⟩ := perform_constraint cmp.kind hxy l₂
    have hperform : ((Step.compare cmp a b).build rs).perform l = (.ok (.constraint c), l₃) := by
      simp only [build, perform_bind_eq_ok_iff, perform_lookUp_eq_ok_iff]
      exact ⟨f, l, ⟨hf, rfl⟩, g, l, ⟨hg, rfl⟩, r, l, ⟨hr, rfl⟩, t, l, ⟨ht, rfl⟩,
        x, l₁, hx, y, l₂, hy, c, l₃, hc, rfl⟩
    have hwf : c.WellFormed := build_wellFormed h _ _ _ _ hperform
    obtain ⟨-, hlhs, hrhs, -⟩ := constraint_yields _ _ _ _ _ _ hc
    refine ⟨c, l₃, hperform, ?_⟩
    rw [hwf.isCertified_eq, ← hverdict, ← hxA, ← hyB, hlhs, hrhs]
    rfl

namespace Session

/-- A comparison answers with what it builds. -/
theorem step_compare (s : Session) (cmp : Comparison) (a b : Operand) :
    (s.step (.compare cmp a b)).1 =
      (((Step.compare cmp a b).build s.registers).perform s.ledger).1 := by
  unfold step
  dsimp only [cleared]
  rcases ((Step.compare cmp a b).build s.registers).perform s.ledger with ⟨f | r, l⟩ <;> rfl

/-- Two operands that some comparison makes a constraint of make one with every comparison, and it
is certified all the same. -/
theorem step_compare_coincides {s : Session} (h : s.registers.WellFormed) {cmp : Comparison}
    {a b : Operand} {c : Constraint} (hc : (s.step (.compare cmp a b)).1 = .ok (.constraint c))
    (cmp' : Comparison) :
    ∃ c', (s.step (.compare cmp' a b)).1 = .ok (.constraint c') ∧
      c'.isCertified = c.isCertified := by
  rw [step_compare] at hc
  have hmakes := (Step.compare_answers_iff h cmp).1 ⟨c, _, Prod.ext hc rfl, rfl⟩
  obtain ⟨c', l', hc', hverdict⟩ := (Step.compare_answers_iff h cmp').2 hmakes
  refine ⟨c', ?_, hverdict⟩
  rw [step_compare, hc']

/-- Of what sessions build nothing is convex or concave alone, and what is zero is constant.  So an
expression is convex, concave or certified just where it is affine, and is as good to minimise as to
maximise; a constraint is certified just where both of its sides are affine, so that after any steps
the comparisons of two operands are refused or certified alike; and a problem is certified just
where its objective and all sides of its constraints are affine. -/
theorem verdicts_coincide :
    (∀ e : Expr, e.Buildable →
      (e.curvature = .constant ∨ e.curvature = .affine ∨ e.curvature = .unknown) ∧
      (e.sign = .zero → e.curvature = .constant) ∧
      e.isConvex = e.isAffine ∧ e.isConcave = e.isAffine ∧ e.isCertified = e.isAffine ∧
      Objective.isCertified ⟨.minimize, e⟩ = Objective.isCertified ⟨.maximize, e⟩) ∧
    (∀ c : Constraint, c.Buildable → c.isCertified = (c.lhs.isAffine && c.rhs.isAffine)) ∧
    (∀ (first : ℕ) (steps : List Step) (cmp cmp' : Comparison) (a b : Operand) (c : Constraint),
      let s := ((startingAt first).run steps).2
      (s.step (.compare cmp a b)).1 = .ok (.constraint c) →
      ∃ c', (s.step (.compare cmp' a b)).1 = .ok (.constraint c') ∧
        c'.isCertified = c.isCertified) ∧
    ∀ p : Problem, p.Buildable → (p.isCertified = true ↔ p.objective.expr.isAffine = true ∧
      ∀ c ∈ p.constraints, c.lhs.isAffine = true ∧ c.rhs.isAffine = true) := by
  refine ⟨fun e he => ?_, fun c hc => hc.wellFormed.isCertified_eq, ?_,
    fun p hp => hp.wellFormed.isCertified_iff⟩
  · have hwf := he.wellFormed
    have hcomposed := hwf.told.composed
    refine ⟨hcomposed, hwf.zeroConstant, hcomposed.isConvex_eq, hcomposed.isConcave_eq,
      hcomposed.isCertified_eq, ?_⟩
    exact hcomposed.isConvex_eq.trans hcomposed.isConcave_eq.symm
  · intro first steps cmp cmp' a b c s hc
    -- the verdict follows from what the operands make, whatever the comparison is
    have hrs : s.registers.WellFormed :=
      (run_wellFormed (s := startingAt first) Registers.wellFormed_empty steps).1
    exact step_compare_coincides hrs hc cmp'

/-- The scaled column, a comparison of it either way, and the problem that makes it large. -/
theorem verdicts_coincide_column :
    let s := ((startingAt 0).run [
      .declare 2 1 none [.nonneg],
      .operate .product (.literal (.scalar (-2.0))) (.register 0) true]).2
    Expr.scaledColumn.isConvex = Expr.scaledColumn.isAffine ∧
    (∃ c c', (s.step (.compare .atMost (.register 1) (.literal (.scalar 0.0)))).1 =
        .ok (.constraint c) ∧
      (s.step (.compare .atLeast (.register 1) (.literal (.scalar 0.0)))).1 =
        .ok (.constraint c') ∧ c'.isCertified = c.isCertified) ∧
    (Problem.scaledColumn.isCertified = true ↔ Expr.scaledColumn.isAffine = true ∧
      ∀ c ∈ Problem.scaledColumn.constraints, c.lhs.isAffine = true ∧ c.rhs.isAffine = true) := by
  intro s
  obtain ⟨hexpr, -, hcompare, hproblem⟩ := verdicts_coincide
  refine ⟨(hexpr _ Expr.scaledColumn_buildable).2.2.1, ?_,
    hproblem _ Problem.scaledColumn_buildable⟩
  obtain ⟨c, hc⟩ : ∃ c, (s.step (.compare .atMost (.register 1) (.literal (.scalar 0.0)))).1 =
      .ok (.constraint c) := ⟨_, rfl⟩
  obtain ⟨c', hc', hverdict⟩ := hcompare 0 _ .atMost .atLeast _ _ c hc
  exact ⟨c, c', hc, hc', hverdict⟩

end Session

end DisciplinedConvex
