/-
DisciplinedConvex/Proofs/Soundness/Verdict.lean

A problem that is certified is convex.

The feasible assignments are told without a word on attributes: declared bounds are
obeyed, every expression has a value, and every constraint holds on its own sides.
If the verdict on a problem is favourable, they are a convex set, and what is to be
minimised in place of the objective is a convex function on them.
-/
import DisciplinedConvex.Proofs.Exact.Comparison
import DisciplinedConvex.Proofs.Soundness.Curvature

namespace DisciplinedConvex

variable {K : Type} [OrderedField K]

/-! ### Constraints -/

/-- A certified constraint that holds at two assignments holds in between. -/
theorem Constraint.WellFormed.holds_mix {c : Constraint} (hc : c.WellFormed)
    (hcert : c.isCertified = true) {x y : Assignment K} (hx : x.Respects c.residual)
    (hxc : c.Holds x) (hyc : c.Holds y) {p q : K} (hp : 0 ≤ p) (hq : 0 ≤ q) (hpq : p + q = 1) :
    c.Holds (p • x + q • y) := by
  rw [hc.holds_iff_residual] at *
  obtain ⟨u, hu, hur⟩ := hxc
  obtain ⟨v, hv, hvr⟩ := hyc
  obtain ⟨v', w, hv', hw, hcurv⟩ := hc.residual.curved (y := y) hx hpq hu
  obtain rfl : v = v' := Except.ok.inj (hv.symm.trans hv')
  refine ⟨w, hw, fun i j => ?_⟩
  have hui := hur i j
  have hvi := hvr i j
  unfold Constraint.isCertified at hcert
  rcases hk : c.kind
  · -- equality: both residuals are zero, and the one in between is affine in them
    simp only [hk] at hcert hui hvi
    rw [Expr.isAffine, Curvature.isAffine_iff, Bool.and_eq_true] at hcert
    calc w.entry i j
        = p * u.entry i j + q * v.entry i j :=
          le_antisymm ((hcurv i j).convex hcert.1) ((hcurv i j).concave hcert.2)
      _ = p * 0 + q * 0 := by rw [show u.entry i j = 0 from hui, show v.entry i j = 0 from hvi]
      _ = 0 := by rw [mul_zero, mul_zero, add_zero]
  · simp only [hk] at hcert hui hvi
    have hle : w.entry i j ≤ p * u.entry i j + q * v.entry i j := (hcurv i j).convex hcert
    have hmix : p * u.entry i j + q * v.entry i j ≤ 0 :=
      add_nonpos (mul_nonpos_of_nonneg_of_nonpos hp hui) (mul_nonpos_of_nonneg_of_nonpos hq hvi)
    exact hle.trans hmix

/-! ### Feasible assignments -/

/-- The assignment obeys what is declared, every expression of the problem has a value there, and
every constraint holds. -/
structure Problem.Feasible (p : Problem) (x : Assignment K) : Prop where
  respects : ∀ e ∈ p.expressions, x.Respects e
  defined : ∀ e ∈ p.expressions, ∃ v, e.eval x = .ok v
  holds : ∀ c ∈ p.constraints, c.Holds x

theorem Problem.WellFormed.convex_feasible {p : Problem} (hp : p.WellFormed)
    (hcert : ∀ c ∈ p.constraints, c.isCertified = true) :
    Convex K {x : Assignment K | p.Feasible x} := by
  intro x hx y hy a b ha hb hab
  refine ⟨fun e he => (hx.respects e he).mix (hy.respects e he) ha hb, fun e he => ?_,
    fun c hc => ?_⟩
  · obtain ⟨u, hu⟩ := hx.defined e he
    obtain ⟨v, w, -, hw, -⟩ := (hp.expressions he).curved (y := y) (hx.respects e he) hab hu
    exact ⟨w, hw⟩
  · have hres : c.residual ∈ p.expressions := List.mem_cons_of_mem _ (List.mem_map_of_mem hc)
    exact (hp.constraints c hc).holds_mix (hcert c hc) (hx.respects _ hres)
      (hx.holds c hc) (hy.holds c hc) ha hb hab

/-! ### Objectives -/

/-- A convex expression is a convex function wherever it has values. -/
theorem Expr.WellFormed.convexOn {e : Expr} (he : e.WellFormed) (hconvex : e.isConvex = true)
    {S : Set (Assignment K)} (hS : Convex K S) (hresp : ∀ x ∈ S, x.Respects e)
    {f : Assignment K → Mat K} (hf : ∀ x ∈ S, e.eval x = .ok (f x)) :
    ConvexOn K S fun x => (f x).entry := by
  refine ⟨hS, fun x hx y hy a b ha hb hab i j => ?_⟩
  obtain ⟨v, w, hv, hw, hcurv⟩ := he.curved (y := y) (hresp x hx) hab (hf x hx)
  obtain rfl : f y = v := Except.ok.inj ((hf y hy).symm.trans hv)
  obtain rfl : f (a • x + b • y) = w :=
    Except.ok.inj ((hf _ (hS hx hy ha hb hab)).symm.trans hw)
  exact (hcurv i j).convex hconvex

/-- What is minimised in place of an objective is convex if the objective is certified, asks for
nothing more, and has the value of the objective or its negative. -/
theorem Build.asMinimization_spec (o : Objective) (l : Ledger) :
    ∃ m l', (asMinimization o).perform l = (.ok m, l') ∧
      m.isConvex = o.isCertified ∧
      (∀ x : Assignment K, x.Respects o.expr → x.Respects m) ∧
      ∀ (x : Assignment K) v, o.expr.eval x = .ok v →
        m.eval x = .ok (match o.sense with | .minimize => v | .maximize => v.neg) := by
  unfold asMinimization Objective.isCertified
  rcases o.sense
  · exact ⟨_, _, rfl, rfl, fun _ hx => hx, fun _ _ hv => hv⟩
  · refine ⟨_, _, rfl, Curvature.isConvex_neg _, fun x hx => ?_, fun x v hv => ?_⟩
    · refine Assignment.respects_of_children rfl fun c hc => ?_
      rwa [List.mem_singleton.1 hc]
    · exact Expr.eval_neg_eq_ok_iff.2 ⟨v, hv, rfl⟩

/-! ### Problems -/

/-- What is minimised in place of a certified objective is a convex function on the feasible
assignments, the objective itself or its negative. -/
theorem Problem.WellFormed.convexOn_feasible {p : Problem} (hp : p.WellFormed)
    (hobjective : p.objective.isCertified = true)
    (hconvex : Convex K {x : Assignment K | p.Feasible x}) (l : Ledger) :
    ∃ m l', (Build.asMinimization p.objective).perform l = (.ok m, l') ∧
      ∃ f g : Assignment K → Mat K,
        (∀ x, p.Feasible x → p.objective.expr.eval x = .ok (f x) ∧ m.eval x = .ok (g x) ∧
          (f x).HasShape p.objective.expr.shape) ∧
        ConvexOn K {x | p.Feasible x} (fun x => (g x).entry) ∧
        (p.objective.sense = .minimize → ∀ x, p.Feasible x → g x = f x) ∧
        (p.objective.sense = .maximize → ∀ x, p.Feasible x → g x = (f x).neg) := by
  obtain ⟨m, l', hm, hmconvex, hmresp, hmeval⟩ := Build.asMinimization_spec (K := K) p.objective l
  have hmem : p.objective.expr ∈ p.expressions := List.mem_cons_self
  -- the values that there are on the feasible assignments, and anything elsewhere
  choose! f hf using fun (x : Assignment K) (hx : p.Feasible x) => hx.defined _ hmem
  refine ⟨m, l', hm, f, fun x => match p.objective.sense with
    | .minimize => f x
    | .maximize => (f x).neg, fun x hx => ⟨hf x hx, hmeval x _ (hf x hx), ?_⟩, ?_, ?_, ?_⟩
  · exact hp.objective.hasShape (hf x hx)
  · have hmwf := Build.asMinimization_wellFormed hp.objective l m l' hm
    exact hmwf.convexOn (hmconvex.trans hobjective) hconvex
      (fun x hx => hmresp x (hx.respects _ hmem)) fun x hx => hmeval x _ (hf x hx)
  · intro hs x _
    simp only [hs]
  · intro hs x _
    simp only [hs]

/-- Whatever session poses a problem: if the verdict on it is favourable, its feasible assignments
are a convex set, and what is minimised in place of its objective is on them a convex function, the
objective itself or, where this is to be maximised, its negative.  Here each constraint that a
comparison makes holds where the comparison does as it is written. -/
theorem Problem.Buildable.verdict_sound {p : Problem} (hp : p.Buildable)
    (hverdict : p.verdict = .ok ()) :
    Convex K {x : Assignment K | p.Feasible x} ∧
    (∀ l, ∃ m l', (Build.asMinimization p.objective).perform l = (.ok m, l') ∧
      ∃ f g : Assignment K → Mat K,
        (∀ x, p.Feasible x → p.objective.expr.eval x = .ok (f x) ∧ m.eval x = .ok (g x) ∧
          (f x).HasShape p.objective.expr.shape) ∧
        ConvexOn K {x | p.Feasible x} (fun x => (g x).entry) ∧
        (p.objective.sense = .minimize → ∀ x, p.Feasible x → g x = f x) ∧
        (p.objective.sense = .maximize → ∀ x, p.Feasible x → g x = (f x).neg)) ∧
    ∀ rs cmp a b l c l', ((Step.compare cmp a b).build rs).perform l = (.ok (.constraint c), l') →
      ∃ e f, a.Denotes rs e ∧ b.Denotes rs f ∧
        ∀ x : Assignment K, c.Holds x ↔ cmp.Holds e f x := by
  obtain ⟨hobjective, hconstraints⟩ := verdict_eq_ok_iff.1 hverdict
  have hwf := hp.wellFormed
  have hconvex : Convex K {x : Assignment K | p.Feasible x} := hwf.convex_feasible hconstraints
  refine ⟨hconvex, hwf.convexOn_feasible hobjective hconvex, fun rs cmp a b l c l' hc => ?_⟩
  obtain ⟨_, e, f, hreply, he, hf, hkind, hlhs, hrhs⟩ := Step.compare_yields rs cmp a b l _ l' hc
  cases hreply
  exact ⟨e, f, he, hf, fun x => Build.Comparison.holds_iff_of_sides hkind hlhs hrhs⟩

/-- Every column with entries from zero on is feasible for the problem of the scaled column. -/
theorem Problem.scaledColumn_feasible {x : Assignment K} (h : ∀ i j, 0 ≤ x 0 i j) :
    scaledColumn.Feasible x := by
  have hcolumn : x.Respects Expr.column := Expr.respects_column h
  refine ⟨fun e he => ?_, fun e he => ?_, fun c hc => ?_⟩
  · rcases List.mem_cons.1 he with rfl | he
    · exact Expr.respects_scaledColumn h
    · rw [List.mem_singleton.1 he]
      refine Assignment.respects_of_children rfl fun c hc => ?_
      rcases List.mem_cons.1 hc with rfl | hc
      · exact Assignment.respects_of_children rfl (by simp [Expr.children])
      · rw [List.mem_singleton.1 hc]
        refine Assignment.respects_of_children rfl fun c hc => ?_
        rwa [List.mem_singleton.1 hc]
  · rcases List.mem_cons.1 he with rfl | he
    · exact ⟨_, rfl⟩
    · rw [List.mem_singleton.1 he]
      exact ⟨_, rfl⟩
  · rw [List.mem_singleton.1 hc]
    refine ⟨_, _, rfl, rfl, 2, 1, rfl, fun i _ j _ => ?_⟩
    have hleft : (Value.exact (.scalar 0.0) : Mat K).spread i j = 0 := by
      show ((Decimal.exact 0.0 : ℚ) : K) = 0
      rw [Decimal.exact_zero, Rat.cast_zero]
    exact hleft.le.trans (((hcolumn _ _ (.refl _)).describes.spread i j).nonneg rfl)

/-- The problem of the scaled column, at whose feasible assignments the column may be two
throughout. -/
theorem Problem.scaledColumn_verdict_sound :
    scaledColumn.Feasible (fun _ _ _ => (2 : ℚ)) ∧
    Convex ℚ {x : Assignment ℚ | scaledColumn.Feasible x} ∧
    ∃ m l', (Build.asMinimization scaledColumn.objective).perform (.startingAt 6) = (.ok m, l') ∧
      ∃ f g : Assignment ℚ → Mat ℚ,
        (∀ x, scaledColumn.Feasible x →
          scaledColumn.objective.expr.eval x = .ok (f x) ∧ m.eval x = .ok (g x)) ∧
        ConvexOn ℚ {x | scaledColumn.Feasible x} (fun x => (g x).entry) ∧
        ∀ x, scaledColumn.Feasible x → g x = (f x).neg := by
  have hsound := Buildable.verdict_sound (K := ℚ) scaledColumn_buildable rfl
  obtain ⟨m, l', hm, f, g, hvalues, hconvex, -, hneg⟩ := hsound.2.1 (.startingAt 6)
  have hfeasible : scaledColumn.Feasible (fun _ _ _ => (2 : ℚ)) :=
    scaledColumn_feasible fun _ _ => zero_le_two
  exact ⟨hfeasible, hsound.1, m, l', hm, f, g, fun x hx => ⟨(hvalues x hx).1, (hvalues x hx).2.1⟩,
    hconvex, hneg rfl⟩

end DisciplinedConvex
