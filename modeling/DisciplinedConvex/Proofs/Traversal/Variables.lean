/-
DisciplinedConvex/Proofs/Traversal/Variables.lean

A problem reports each of its variables once.

Variables are collected into one map, walk by walk over the objective and the residuals,
and an entry replaces any other with its number.  Where numbers tell the nodes, which is so
across all of a problem (`Problem.Buildable.numbered`), nothing is ever replaced but by
itself, so that the map holds what was come upon and no more (`mem_toList_collected`).  What
is collected then depends on the nodes alone, neither on the order of the constraints nor
on how often one of them is there (`Problem.Buildable.variables_once`).
-/
import DisciplinedConvex.Proofs.Exact.Residual

namespace DisciplinedConvex

namespace Problem

variable {p q : Problem} {i : ℕ} {s : Shape}

/-! ### Collecting entries -/

/-- The entry of a variable is put in place of any other with its number. -/
def collect (found : Std.TreeMap ℕ Shape) (n : Expr) : Std.TreeMap ℕ Shape :=
  match n.variableShape? with
  | some (id, shape) => found.insert id shape
  | none => found

theorem mem_toList_insert {found : Std.TreeMap ℕ Shape} {j : ℕ} {t : Shape} :
    (i, s) ∈ (found.insert j t).toList ↔
      (i, s) = (j, t) ∨ i ≠ j ∧ (i, s) ∈ found.toList := by
  rw [Std.TreeMap.toList_insert_perm.mem_iff, List.mem_cons, List.mem_filter]
  simp only [decide_eq_true_eq, beq_iff_eq]
  rw [and_comm, ← ne_eq, ne_comm]

theorem id_of_variableShape? {n : Expr} (h : n.variableShape? = some (i, s)) : n.id = i := by
  cases n <;> cases h
  rfl

/-- No entry is lost if there is no other one with the number of the node. -/
theorem mem_toList_collect {found : Std.TreeMap ℕ Shape} {n : Expr}
    (h : ∀ t, (n.id, t) ∈ found.toList → n.variableShape? = some (n.id, t)) :
    (i, s) ∈ (collect found n).toList ↔ (i, s) ∈ found.toList ∨ n.variableShape? = some (i, s) := by
  unfold collect
  rcases hn : n.variableShape? with _ | ⟨j, t⟩
  · simp
  obtain rfl := id_of_variableShape? hn
  show (i, s) ∈ (found.insert n.id t).toList ↔ _
  rw [mem_toList_insert, Option.some.injEq, eq_comm (b := (i, s))]
  constructor
  · rintro (heq | ⟨-, hfound⟩)
    · exact .inr heq
    · exact .inl hfound
  · rintro (hfound | heq)
    · by_cases hi : i = n.id
      · subst hi
        exact .inl (Option.some.inj ((h s hfound).symm.trans hn))
      · exact .inr ⟨hi, hfound⟩
    · exact .inl heq

/-- Where numbers tell the nodes, the entries are those of the nodes. -/
theorem mem_toList_collected {ns : List Expr} (hid : ∀ n ∈ ns, ∀ m ∈ ns, n.id = m.id → n = m) :
    (i, s) ∈ (ns.foldl collect ∅).toList ↔ ∃ n ∈ ns, n.variableShape? = some (i, s) := by
  -- on the nodes, the last one first: an entry with its number is its own
  induction ns using List.reverseRecOn generalizing i s with
  | nil => simp
  | append_singleton ns n ih =>
    have ih {i : ℕ} {s : Shape} := ih (i := i) (s := s) fun n hn m hm =>
      hid n (List.mem_append_left _ hn) m (List.mem_append_left _ hm)
    have hown (t : Shape) (ht : (n.id, t) ∈ (ns.foldl collect ∅).toList) :
        n.variableShape? = some (n.id, t) := by
      obtain ⟨m, hm, hshape⟩ := ih.1 ht
      have hmn : m = n :=
        hid m (List.mem_append_left _ hm) n (by simp) (id_of_variableShape? hshape)
      exact hmn ▸ hshape
    rw [List.foldl_append, List.foldl_cons, List.foldl_nil, mem_toList_collect hown, ih]
    simp [or_and_right, exists_or]

/-! ### Variables of a problem -/

/-- The node is reached from the objective or from a side of a constraint. -/
def Reaches (p : Problem) (n : Expr) : Prop :=
  p.objective.expr.Reaches n ∨ ∃ c ∈ p.constraints, c.lhs.Reaches n ∨ c.rhs.Reaches n

/-- A number tells the node, among all that is reached from the objective and the residuals. -/
def Numbered (p : Problem) : Prop :=
  ∀ e ∈ p.expressions, ∀ f ∈ p.expressions, ∀ n m, e.Reaches n → f.Reaches m → n.id = m.id → n = m

theorem Numbered.mem_walk_iff (h : p.Numbered) {e n : Expr} (he : e ∈ p.expressions) :
    n ∈ e.walk ↔ e.Reaches n :=
  Expr.mem_walk_iff fun _ _ hn hm => h e he e he _ _ hn hm

theorem foldl_addVariables (es : List Expr) (found : Std.TreeMap ℕ Shape) :
    es.foldl addVariables found = (es.flatMap Expr.walk).foldl collect found := by
  rw [List.foldl_flatMap]
  rfl

theorem Numbered.mem_variableShapes_iff (h : p.Numbered) :
    (i, s) ∈ p.variableShapes ↔
      ∃ e ∈ p.expressions, ∃ n, e.Reaches n ∧ n.variableShape? = some (i, s) := by
  have hid : ∀ n ∈ p.expressions.flatMap Expr.walk, ∀ m ∈ p.expressions.flatMap Expr.walk,
      n.id = m.id → n = m := by
    intro n hn m hm
    obtain ⟨e, he, hn⟩ := List.mem_flatMap.1 hn
    obtain ⟨f, hf, hm⟩ := List.mem_flatMap.1 hm
    exact h e he f hf n m ((h.mem_walk_iff he).1 hn) ((h.mem_walk_iff hf).1 hm)
  rw [variableShapes, foldl_addVariables, mem_toList_collected hid]
  constructor
  · rintro ⟨n, hn, hshape⟩
    obtain ⟨e, he, hn⟩ := List.mem_flatMap.1 hn
    exact ⟨e, he, n, (h.mem_walk_iff he).1 hn, hshape⟩
  · rintro ⟨e, he, n, hn, hshape⟩
    exact ⟨n, List.mem_flatMap.2 ⟨e, he, (h.mem_walk_iff he).2 hn⟩, hshape⟩

theorem pairwise_variableShapes (p : Problem) : p.variableShapes.Pairwise fun v w => v.1 < w.1 :=
  Std.TreeMap.ordered_keys_toList.imp Nat.compare_eq_lt.1

theorem pairwise_variableIds (p : Problem) : p.variableIds.Pairwise (· < ·) :=
  List.pairwise_map.2 p.pairwise_variableShapes

theorem exists_variableShape?_iff (n : Expr) :
    (∃ s, n.variableShape? = some (i, s)) ↔ n.isVariable = true ∧ n.id = i := by
  cases n with
  | var l d => simp [Expr.variableShape?, Expr.isVariable, Expr.id, Expr.label]
  | _ => simp [Expr.variableShape?, Expr.isVariable]

/-- The variables of all expressions together. -/
theorem Numbered.mem_variableIds_iff (h : p.Numbered) :
    i ∈ p.variableIds ↔ ∃ e ∈ p.expressions, i ∈ e.variableIds := by
  have hexpr (e : Expr) (he : e ∈ p.expressions) :
      i ∈ e.variableIds ↔ ∃ n, e.Reaches n ∧ ∃ s, n.variableShape? = some (i, s) := by
    rw [Expr.mem_variableIds_iff fun n m hn hm => h e he e he n m hn hm]
    simp only [exists_variableShape?_iff]
  have hentry : i ∈ p.variableIds ↔ ∃ s, (i, s) ∈ p.variableShapes := by
    simp [variableIds]
  rw [hentry]
  simp only [h.mem_variableShapes_iff]
  constructor
  · rintro ⟨s, e, he, n, hn, hs⟩
    exact ⟨e, he, (hexpr e he).2 ⟨n, hn, s, hs⟩⟩
  · rintro ⟨e, he, hi⟩
    obtain ⟨n, hn, s, hs⟩ := (hexpr e he).1 hi
    exact ⟨s, e, he, n, hn, hs⟩

/-- The union of the variables of all expressions, each of them once and in ascending order. -/
theorem Numbered.variableIds_eq_sort (h : p.Numbered) :
    p.variableIds =
      (p.objective.expr.variableIds ++
        p.constraints.flatMap Constraint.variableIds).toFinset.sort := by
  refine p.pairwise_variableIds.eq_of_mem_iff (Finset.sortedLT_sort _).pairwise fun i => ?_
  rw [h.mem_variableIds_iff, Finset.mem_sort, List.mem_toFinset, List.mem_append, List.mem_flatMap]
  simp [expressions, Constraint.variableIds]

/-! ### The same constraints in another order -/

theorem mem_expressions_iff (hobjective : q.objective = p.objective)
    (hconstraints : ∀ c, c ∈ q.constraints ↔ c ∈ p.constraints) {e : Expr} :
    e ∈ q.expressions ↔ e ∈ p.expressions := by
  simp only [expressions, List.mem_cons, List.mem_map, hobjective, hconstraints]

/-- What is reported depends on the expressions, and neither on their order nor on how often one of
them is there. -/
theorem Numbered.variableShapes_eq (h : p.Numbered)
    (hexpr : ∀ e, e ∈ q.expressions ↔ e ∈ p.expressions) : q.variableShapes = p.variableShapes := by
  have hq : q.Numbered := by
    simpa only [Numbered, hexpr] using h
  refine q.pairwise_variableShapes.eq_of_mem_iff (r := fun v w : ℕ × Shape => v.1 < w.1)
    p.pairwise_variableShapes fun v => ?_
  rw [hq.mem_variableShapes_iff, h.mem_variableShapes_iff]
  simp only [hexpr]

/-! ### In sessions -/

/-- The residuals lead to the variables of the sides and to no others. -/
theorem WellFormed.reaches_iff (hp : p.WellFormed) {n : Expr} (hn : n.isVariable = true) :
    (∃ e ∈ p.expressions, e.Reaches n) ↔ p.Reaches n := by
  simp only [Problem.expressions, List.mem_cons, List.mem_map, exists_eq_or_imp,
    exists_exists_and_eq_and]
  refine or_congr_right (exists_congr fun c => and_congr_right fun hc => ?_)
  exact (hp.constraints c hc).reaches_residual_iff hn

/-- All of a problem was built in one session. -/
theorem Buildable.numbered (hp : p.Buildable) : p.Numbered := by
  obtain ⟨first, steps, v, hr⟩ := hp
  have hlists {e n : Expr} (he : e ∈ p.expressions) (hn : e.Reaches n) :
      ((Session.startingAt first).run steps).2.ledger.Lists n :=
    Session.Shows.lists ⟨e, .inr ⟨.problem p v, hr, he⟩, hn⟩
  obtain ⟨-, hs, -⟩ := Session.run_accounted (Session.accounted_startingAt first) steps
  exact fun e he f hf n m hn hm => hs.orderly.eq_of_id_eq (hlists he hn) (hlists hf hm)

/-- A problem reports every variable that is reached from its objective or from a side of a
constraint once, with its shape and in ascending order of the numbers; these are the variables of
the objective and of all constraints.  The same is reported whenever the same constraints are there,
in whatever order, groups and numbers. -/
theorem Buildable.variables_once {o : Objective} {gs : List (Addition Constraint)}
    (hp : (composed o gs).Buildable) :
    let p := composed o gs
    (p.variableShapes.map Prod.fst).Pairwise (· < ·) ∧
    (∀ i s, (i, s) ∈ p.variableShapes ↔
      ∃ l d, p.Reaches (.var l d) ∧ l.id = i ∧ d.shape = s) ∧
    p.variableIds = p.variableShapes.map Prod.fst ∧
    p.variableIds = (o.expr.variableIds ++
      (gs.flatMap Addition.items).flatMap Constraint.variableIds).toFinset.sort ∧
    ∀ gs' : List (Addition Constraint),
      (∀ c, c ∈ gs'.flatMap Addition.items ↔ c ∈ gs.flatMap Addition.items) →
      (composed o gs').variableShapes = p.variableShapes ∧
        (composed o gs').variableIds = p.variableIds := by
  intro p
  have hobjective (gs : List (Addition Constraint)) : (composed o gs).objective = o :=
    congrArg objective (composed_eq o gs)
  have hconstraints (gs : List (Addition Constraint)) :
      (composed o gs).constraints = gs.flatMap Addition.items :=
    congrArg constraints (composed_eq o gs)
  have hnumbered : p.Numbered := hp.numbered
  refine ⟨p.pairwise_variableIds, fun i s => ?_, rfl, ?_, fun gs' hgs' => ?_⟩
  · rw [hnumbered.mem_variableShapes_iff]
    constructor
    · rintro ⟨e, he, n, hn, hs⟩
      cases n with
      | var l d =>
        cases hs
        exact ⟨l, d, (hp.wellFormed.reaches_iff rfl).1 ⟨e, he, hn⟩, rfl, rfl⟩
      | _ => cases hs
    · rintro ⟨l, d, hn, rfl, rfl⟩
      obtain ⟨e, he, hn⟩ := (hp.wellFormed.reaches_iff rfl).2 hn
      exact ⟨e, he, _, hn, rfl⟩
  · rw [hnumbered.variableIds_eq_sort, hobjective, hconstraints]
  · -- whatever is added, the expressions are the same
    have hexpr (e : Expr) : e ∈ (composed o gs').expressions ↔ e ∈ p.expressions := by
      refine mem_expressions_iff ((hobjective gs').trans (hobjective gs).symm) fun c => ?_
      rw [hconstraints, hconstraints]
      exact hgs' c
    have hshapes := hnumbered.variableShapes_eq hexpr
    exact ⟨hshapes, congrArg (List.map Prod.fst) hshapes⟩

/-- A scalar bounds a column that is not negative; the first constraint is there twice, and then the
two of them once, the other way round. -/
theorem variables_once_repeated :
    let steps : List Step := [
      .declare 2 1 (some "x") [],
      .declare 1 1 (some "t") [],
      .compare .atLeast (.register 0) (.literal (.scalar 0.0)),
      .compare .atMost (.register 0) (.register 1),
      .pose .minimize (.register 1) [2, 3, 2]]
    ∃ o c d v, ((Session.startingAt 0).run steps).1[4]? =
        some (.ok (.problem (composed o [.group [c, d], .single c]) v)) ∧
      (0, Shape.pair) ∈ (composed o [.group [c, d], .single c]).variableShapes ∧
      (composed o [.group [c, d], .single c]).variableIds.Pairwise (· < ·) ∧
      (composed o [.single d, .single c]).variableIds =
        (composed o [.group [c, d], .single c]).variableIds := by
  intro steps
  obtain ⟨o, c, d, v, l, x, hp, hx, hid, hshape⟩ : ∃ o c d v l x,
      ((Session.startingAt 0).run steps).1[4]? =
        some (.ok (.problem (composed o [.group [c, d], .single c]) v)) ∧
      c.rhs = .var l x ∧ l.id = 0 ∧ x.shape = .pair := ⟨_, _, _, _, _, _, rfl, rfl, rfl, rfl⟩
  have hbuildable : (composed o [.group [c, d], .single c]).Buildable :=
    ⟨0, steps, v, List.mem_of_getElem? hp⟩
  obtain ⟨hascending, hshapes, -, -, hsame⟩ := hbuildable.variables_once
  have hmem : c ∈ (composed o [.group [c, d], .single c]).constraints := by
    simp [composed_eq, Addition.items]
  refine ⟨o, c, d, v, hp, (hshapes 0 .pair).2 ⟨l, x, .inr ⟨c, hmem, .inr ?_⟩, hid, hshape⟩,
    hascending, (hsame [.single d, .single c] fun k => ?_).2⟩
  · exact hx ▸ .refl _
  · simp only [List.flatMap_cons, List.flatMap_nil, Addition.items, List.mem_append, List.mem_cons,
      List.not_mem_nil, or_false]
    tauto

end Problem

end DisciplinedConvex
