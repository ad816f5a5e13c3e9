/-
DisciplinedConvex/Proofs/Soundness/Offender.lean

What a verdict blames.

A verdict that is not favourable names one part of the problem: the objective, if that
is not certified, and else the first constraint that is not.  `Problem.FirstOffender`
says of a place in a list that it is the least one with such a constraint; the place is
counted through all that was added to the problem, in whatever groups
(`firstOffender_flatMap_iff`).  So the verdict is told part by part
(`Problem.verdict_eq_error_iff`), and in what sessions build the curvature that is blamed
is always unknown (`Problem.verdict_blames`).
-/
import DisciplinedConvex.Proofs.Graph.Affine
import DisciplinedConvex.Proofs.Rendering.Loop

namespace DisciplinedConvex

/-! ### The first offender -/

namespace Problem

variable {cs ds : List Constraint} {c : Constraint} {i : ℕ}

/-- The constraint in this place is not certified, and all before it are. -/
structure FirstOffender (cs : List Constraint) (i : ℕ) (c : Constraint) : Prop where
  place : cs[i]? = some c
  offends : c.isCertified = false
  before : ∀ j d, j < i → cs[j]? = some d → d.isCertified = true

theorem not_firstOffender_nil : ¬FirstOffender [] i c := by
  intro h
  have hplace := h.place
  simp at hplace

/-- The first offender of two lists is that of the first list, or that of the second one if all of
the first list is certified. -/
theorem firstOffender_append_iff :
    FirstOffender (cs ++ ds) i c ↔ FirstOffender cs i c ∨
      ((∀ d ∈ cs, d.isCertified = true) ∧ ∃ j, FirstOffender ds j c ∧ i = cs.length + j) := by
  constructor
  · intro h
    rcases lt_or_ge i cs.length with hlt | hge
    · refine .inl ⟨?_, h.offends, fun j d hj hd => h.before j d hj ?_⟩
      · rw [← List.getElem?_append_left hlt]
        exact h.place
      · rw [List.getElem?_append_left (hj.trans hlt)]
        exact hd
    · refine .inr ⟨fun d hd => ?_, i - cs.length, ⟨?_, h.offends, fun j d hj hd => ?_⟩, by omega⟩
      · obtain ⟨j, hj⟩ := List.mem_iff_getElem?.1 hd
        obtain ⟨hlt, -⟩ := List.getElem?_eq_some_iff.1 hj
        refine h.before j d (hlt.trans_le hge) ?_
        rw [List.getElem?_append_left hlt]
        exact hj
      · rw [← List.getElem?_append_right hge]
        exact h.place
      · refine h.before (cs.length + j) d (by omega) ?_
        rw [List.getElem?_append_right (Nat.le_add_right _ _), Nat.add_sub_cancel_left]
        exact hd
  · rintro (h | ⟨hcert, j, h, rfl⟩)
    · obtain ⟨hlt, -⟩ := List.getElem?_eq_some_iff.1 h.place
      refine ⟨?_, h.offends, fun j d hj hd => h.before j d hj ?_⟩
      · rw [List.getElem?_append_left hlt]
        exact h.place
      · rw [← List.getElem?_append_left (hj.trans hlt)]
        exact hd
    · refine ⟨?_, h.offends, fun k d hk hd => ?_⟩
      · rw [List.getElem?_append_right (Nat.le_add_right _ _), Nat.add_sub_cancel_left]
        exact h.place
      · rcases lt_or_ge k cs.length with hlt | hge
        · rw [List.getElem?_append_left hlt] at hd
          exact hcert d (List.mem_of_getElem? hd)
        · rw [List.getElem?_append_right hge] at hd
          exact h.before (k - cs.length) d (by omega) hd

/-- The first offender of a problem is the first offender of the first addition that has one, and
its place counts all that was added before. -/
theorem firstOffender_flatMap_iff {gs : List (Addition Constraint)} :
    FirstOffender (gs.flatMap Addition.items) i c ↔
      ∃ before g after j, gs = before ++ g :: after ∧
        (∀ d ∈ before.flatMap Addition.items, d.isCertified = true) ∧
        FirstOffender g.items j c ∧ i = (before.flatMap Addition.items).length + j := by
  -- on the additions: the first one has the offender, or all of it is certified
  induction gs generalizing i with
  | nil =>
    refine iff_of_false not_firstOffender_nil ?_
    rintro ⟨before, g, after, j, hgs, -⟩
    simp at hgs
  | cons g gs ih =>
    rw [List.flatMap_cons, firstOffender_append_iff]
    constructor
    · rintro (h | ⟨hcert, j, h, rfl⟩)
      · exact ⟨[], g, gs, i, rfl, by simp, h, by simp⟩
      · obtain ⟨before, g', after, k, rfl, hbefore, hk, rfl⟩ := ih.1 h
        refine ⟨g :: before, g', after, k, rfl, fun d hd => ?_, hk, ?_⟩
        · rw [List.flatMap_cons, List.mem_append] at hd
          exact hd.elim (hcert d) (hbefore d)
        · rw [List.flatMap_cons, List.length_append, Nat.add_assoc]
    · rintro ⟨before, g', after, j, hgs, hbefore, h, rfl⟩
      cases before with
      | nil =>
        obtain ⟨rfl, rfl⟩ := List.cons.inj hgs
        exact .inl (by simpa using h)
      | cons g₀ before =>
        obtain ⟨rfl, rfl⟩ := List.cons.inj hgs
        rw [List.flatMap_cons] at hbefore ⊢
        have hrest := ih.2 ⟨before, g', after, j, rfl,
          fun d hd => hbefore d (List.mem_append_right _ hd), h, rfl⟩
        refine .inr ⟨fun d hd => hbefore d (List.mem_append_left _ hd), _, hrest, ?_⟩
        rw [List.length_append, Nat.add_assoc]

/-! ### Verdicts -/

variable {p : Problem}

theorem firstUncertified?_eq_some_iff :
    p.firstUncertified? = some (c, i) ↔ FirstOffender p.constraints i c := by
  rw [firstUncertified?, List.find?_eq_some_iff_getElem]
  constructor
  · rintro ⟨hc, j, hj, hplace, hbefore⟩
    rw [List.getElem_zipIdx, Prod.mk.injEq, Nat.zero_add] at hplace
    obtain ⟨rfl, rfl⟩ := hplace
    refine ⟨List.getElem?_eq_getElem _, by simpa using hc, fun k d hk hd => ?_⟩
    obtain ⟨hlt, rfl⟩ := List.getElem?_eq_some_iff.1 hd
    simpa using hbefore k hk
  · intro h
    obtain ⟨hlt, rfl⟩ := List.getElem?_eq_some_iff.1 h.place
    refine ⟨by simp [h.offends], i, by simpa using hlt, by simp, fun j hj => ?_⟩
    simpa using h.before j _ hj (List.getElem?_eq_getElem (hj.trans hlt))

/-- The objective is blamed first, and then the first constraint that is not certified. -/
theorem verdict_eq_error_iff {err : Error} :
    p.verdict = .error err ↔
      (p.objective.isCertified = false ∧ err = .notCertified (objectiveFault p.objective)) ∨
      (p.objective.isCertified = true ∧ ∃ i c, FirstOffender p.constraints i c ∧
        err = .notCertified (constraintFault c i)) := by
  unfold verdict
  rcases p.objective.isCertified
  · simp [eq_comm]
  · simp only [← firstUncertified?_eq_some_iff]
    rcases p.firstUncertified? with _ | ⟨c, i⟩
    · simp
    · simp [eq_comm]

/-! ### Texts -/

/-- The objective is blamed by what was asked of it and what it has to be. -/
theorem objectiveFault_eq (o : Objective) :
    objectiveFault o =
      match o.sense with
      | .minimize =>
        s!"cannot minimize {o.expr.curvature.label} objective `{o.expr.text}`; it must be convex"
      | .maximize =>
        s!"cannot maximize {o.expr.curvature.label} objective `{o.expr.text}`; it must be concave" := by
  unfold objectiveFault
  cases o.sense <;> simp [toString, String.append_assoc]

theorem constraintFault_eq (c : Constraint) (i : ℕ) :
    constraintFault c i =
      let kind : String :=
        match c.kind with
        | .equality => "Equality"
        | .inequality => "Inequality"
      s!"constraint {i} ({kind} on `{c.lhs.text}` and `{c.rhs.text}`) " ++
        s!"has {c.residual.curvature.label} residual" := by
  unfold constraintFault
  cases c.kind <;> rfl

theorem objectiveFault_toList (o : Objective) :
    ∃ rest, (objectiveFault o).toList = "cannot ".toList ++ rest := by
  unfold objectiveFault
  simp only [String.toList_append, List.append_assoc]
  exact ⟨_, rfl⟩

theorem constraintFault_toList (c : Constraint) (i : ℕ) :
    ∃ rest, (constraintFault c i).toList = "constraint ".toList ++ rest := by
  unfold constraintFault
  simp only [String.toList_append, List.append_assoc]
  exact ⟨_, rfl⟩

/-- The text tells which of the two is blamed. -/
theorem objectiveFault_ne_constraintFault (o : Objective) (c : Constraint) (i : ℕ) :
    objectiveFault o ≠ constraintFault c i := by
  intro h
  obtain ⟨xs, hxs⟩ := objectiveFault_toList o
  obtain ⟨ys, hys⟩ := constraintFault_toList c i
  rw [h, hys] at hxs
  simp at hxs

theorem verdict_blames_objective_iff :
    p.verdict = .error (.notCertified (objectiveFault p.objective)) ↔
      p.objective.isCertified = false := by
  rw [verdict_eq_error_iff]
  constructor
  · rintro (⟨ho, -⟩ | ⟨-, i, c, -, herr⟩)
    · exact ho
    · exact absurd (Error.notCertified.inj herr) (objectiveFault_ne_constraintFault _ _ _)
  · exact fun ho => .inl ⟨ho, rfl⟩

end Problem

/-! ### What sessions build -/

/-- What is not affine in a session is unknown. -/
theorem Expr.WellFormed.unknown_of_isAffine {e : Expr} (he : e.WellFormed)
    (h : e.isAffine = false) : e.curvature = .unknown := by
  rcases he.told.composed with hc | hc | hc
  · rw [isAffine, hc] at h
    cases h
  · rw [isAffine, hc] at h
    cases h
  · exact hc

namespace Problem

/-- A problem is certified just where the verdict on it is favourable.  Otherwise the verdict blames
the objective, if and only if this is not certified, by what was asked of it, its curvature, its
text and what it has to be, or else the first constraint in the order of all additions that is not
certified, by its place, its kind, its sides and the curvature of its residual.  How the constraints
were grouped when they were added does not matter: the place is that in the first addition with an
offender, behind all that was added before.  If a session poses the problem, the curvature that is
blamed is unknown. -/
theorem verdict_blames (p : Problem) :
    let obj := p.objective
    let ofObjective : String :=
      match obj.sense with
      | .minimize =>
        s!"cannot minimize {obj.expr.curvature.label} objective `{obj.expr.text}`; it must be convex"
      | .maximize =>
        s!"cannot maximize {obj.expr.curvature.label} objective `{obj.expr.text}`; it must be concave"
    let ofConstraint (i : ℕ) (c : Constraint) : String :=
      let kind : String :=
        match c.kind with
        | .equality => "Equality"
        | .inequality => "Inequality"
      s!"constraint {i} ({kind} on `{c.lhs.text}` and `{c.rhs.text}`) " ++
        s!"has {c.residual.curvature.label} residual"
    (p.verdict = .ok () ↔ p.isCertified = true) ∧
    (p.verdict = .error (.notCertified ofObjective) ↔ obj.isCertified = false) ∧
    (∀ err, p.verdict = .error err ↔
      (obj.isCertified = false ∧ err = .notCertified ofObjective) ∨
      (obj.isCertified = true ∧ ∃ i c, FirstOffender p.constraints i c ∧
        err = .notCertified (ofConstraint i c))) ∧
    (∀ (o : Objective) (gs : List (Addition Constraint)), p = composed o gs →
      p.objective = o ∧ p.constraints = gs.flatMap Addition.items ∧
      ∀ i c, FirstOffender p.constraints i c ↔ ∃ before g after j, gs = before ++ g :: after ∧
        (∀ d ∈ before.flatMap Addition.items, d.isCertified = true) ∧
        FirstOffender g.items j c ∧ i = (before.flatMap Addition.items).length + j) ∧
    (p.Buildable →
      (obj.isCertified = false →
        obj.expr.curvature = .unknown ∧ obj.expr.curvature.label = "UNKNOWN") ∧
      ∀ c ∈ p.constraints, c.isCertified = false →
        c.residual.curvature = .unknown ∧ c.residual.curvature.label = "UNKNOWN") := by
  intro obj ofObjective ofConstraint
  have hobjective : ofObjective = objectiveFault obj := by
    simp only [ofObjective, objectiveFault_eq]
  have hconstraint (i : ℕ) (c : Constraint) : ofConstraint i c = constraintFault c i :=
    (constraintFault_eq c i).symm
  have hlabel {e : Expr} (he : e.curvature = .unknown) : e.curvature.label = "UNKNOWN" := by
    rw [he]
    rfl
  rw [hobjective]
  simp only [hconstraint]
  refine ⟨isCertified_iff_verdict.symm, verdict_blames_objective_iff, fun _ => verdict_eq_error_iff,
    ?_, fun hp => ⟨fun ho => ?_, fun c hc hoff => ?_⟩⟩
  · rintro o gs rfl
    have hconstraints : (composed o gs).constraints = gs.flatMap Addition.items := by
      rw [composed_eq]
    refine ⟨by rw [composed_eq], hconstraints, fun i c => ?_⟩
    rw [hconstraints]
    exact firstOffender_flatMap_iff
  · rw [Objective.isCertified_eq hp.wellFormed.objective] at ho
    have hu := hp.wellFormed.objective.unknown_of_isAffine ho
    exact ⟨hu, hlabel hu⟩
  · have hwf := hp.wellFormed.constraints c hc
    rw [hwf.isCertified_eq_residual] at hoff
    have hu := hwf.residual.unknown_of_isAffine hoff
    exact ⟨hu, hlabel hu⟩

/-- A column, and what a matrix with entries of either sign makes of it.  If this is to be as large
as possible, the objective is blamed.  If the column is to be as small as possible where it is at
least zero and the other at most zero, the second constraint is blamed, also where it was added by a
call of its own. -/
theorem verdict_blames_either :
    let steps (sense : Sense) (i : ℕ) : List Step := [
      .declare 2 1 (some "x") [],
      .operate .product (.literal (.dense 2 2 #[1.0, -1.0, 0.0, 1.0])) (.register 0) true,
      .compare .atLeast (.register 0) (.literal (.scalar 0.0)),
      .compare .atMost (.register 1) (.literal (.scalar 0.0)),
      .pose sense (.register i) [2, 3]]
    (∃ p v, ((Session.startingAt 0).run (steps .maximize 1)).1[4]? = some (.ok (.problem p v)) ∧
      p.verdict = .error (.notCertified
        "cannot maximize UNKNOWN objective `[[1, 0], [-1, 1]] * x`; it must be concave")) ∧
    ∃ o c d v, ((Session.startingAt 0).run (steps .minimize 0)).1[4]? =
        some (.ok (.problem ⟨o, [c, d]⟩ v)) ∧
      (composed o [.group [c], .single d]).verdict = .error (.notCertified
        "constraint 1 (Inequality on `[[1, 0], [-1, 1]] * x` and `0`) has UNKNOWN residual") := by
  intro steps
  refine ⟨?_, ?_⟩
  · obtain ⟨p, v, hp, hsense, ho, htext⟩ : ∃ p v,
        ((Session.startingAt 0).run (steps .maximize 1)).1[4]? = some (.ok (.problem p v)) ∧
          p.objective.sense = .maximize ∧ p.objective.isCertified = false ∧
          p.objective.expr.rendered false = "[[1, 0], [-1, 1]] * x" :=
      ⟨_, _, rfl, rfl, by decide +kernel, by decide +kernel⟩
    have hbuildable : p.Buildable := ⟨0, _, v, List.mem_of_getElem? hp⟩
    obtain ⟨-, hobjective, -, -, hunknown⟩ := verdict_blames p
    refine ⟨p, v, hp, (hobjective.2 ho).trans ?_⟩
    rw [hsense, ((hunknown hbuildable).1 ho).2, Expr.text_eq_rendered, htext]
    rfl
  · obtain ⟨o, c, d, v, hp, ho, hc, hd, hkind, hlhs, hrhs⟩ : ∃ o c d v,
        ((Session.startingAt 0).run (steps .minimize 0)).1[4]? =
            some (.ok (.problem ⟨o, [c, d]⟩ v)) ∧
          o.isCertified = true ∧ c.isCertified = true ∧ d.isCertified = false ∧
          d.kind = .inequality ∧ d.lhs.rendered false = "[[1, 0], [-1, 1]] * x" ∧
          d.rhs.rendered false = "0" :=
      ⟨_, _, _, _, rfl, rfl, by decide +kernel, by decide +kernel, rfl, by decide +kernel,
        by decide +kernel⟩
    have hbuildable : Problem.Buildable ⟨o, [c, d]⟩ := ⟨0, _, v, List.mem_of_getElem? hp⟩
    obtain ⟨-, -, herror, hgroups, hunknown⟩ := verdict_blames ⟨o, [c, d]⟩
    have hfirst : FirstOffender [c, d] 1 d :=
      ((hgroups o [.group [c], .single d] rfl).2.2 1 d).2
        ⟨[.group [c]], .single d, [], 0, rfl, by simpa [Addition.items] using hc,
          ⟨rfl, hd, by simp⟩, rfl⟩
    refine ⟨o, c, d, v, hp, (herror _).2 (.inr ⟨ho, 1, d, hfirst, ?_⟩)⟩
    dsimp only
    rw [hkind, ((hunknown hbuildable).2 d (by simp) hd).2, Expr.text_eq_rendered,
      Expr.text_eq_rendered, hlhs, hrhs]
    rfl

end Problem

end DisciplinedConvex
