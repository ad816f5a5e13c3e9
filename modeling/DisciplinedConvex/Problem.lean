/-
DisciplinedConvex/Problem.lean

Optimisation problems: an objective and a list of constraints.

A problem is certified if its objective is convex (or concave, where it is to
be maximised) and every constraint is certified; `verdict` says the same and
names the first part that is not.
-/
import DisciplinedConvex.Constraint
import Std.Data.TreeMap

namespace DisciplinedConvex

/-- Which way an objective is to go. -/
inductive Sense where
  | minimize
  | maximize
deriving DecidableEq, Repr

/-- An expression to be made small or large. -/
structure Objective where
  sense : Sense
  expr : Expr

namespace Objective

def isMinimize (o : Objective) : Bool := o.sense == .minimize

/-- Minimising asks for a convex expression, maximising for a concave one. -/
def isCertified (o : Objective) : Bool :=
  match o.sense with
  | .minimize => o.expr.isConvex
  | .maximize => o.expr.isConcave

def inspect (o : Objective) : String :=
  match o.sense with
  | .minimize => Text.applied "Minimize" [o.expr.inspect]
  | .maximize => Text.applied "Maximize" [o.expr.inspect]

end Objective

/-- An objective together with the constraints it is subject to. -/
structure Problem where
  objective : Objective
  constraints : List Constraint

/-- What a problem is subjected to at one time. -/
inductive Addition (α : Type) where
  | group (cs : List α)
  | single (c : α)

/-- All that is added. -/
def Addition.items {α : Type} : Addition α → List α
  | group cs => cs
  | single c => [c]

namespace Problem

/-! ### Composition -/

/-- The objective alone. -/
def unconstrained (o : Objective) : Problem where
  objective := o
  constraints := []

/-- The problem with what is added behind its constraints. -/
def subjectTo (p : Problem) (g : Addition Constraint) : Problem :=
  { p with constraints := p.constraints ++ g.items }

/-- The objective, subjected to one thing after the other. -/
def composed (o : Objective) (gs : List (Addition Constraint)) : Problem :=
  gs.foldl subjectTo (unconstrained o)

/-- How constraints are grouped makes no difference. -/
theorem composed_eq (o : Objective) (gs : List (Addition Constraint)) :
    composed o gs = { objective := o, constraints := gs.flatMap Addition.items } := by
  have hfold (p : Problem) : gs.foldl subjectTo p =
      { objective := p.objective, constraints := p.constraints ++ gs.flatMap Addition.items } := by
    induction gs generalizing p with
    | nil => simp
    | cons g gs ih => simp [ih, subjectTo]
  exact hfold (unconstrained o)

/-! ### Certificates -/

def isCertified (p : Problem) : Bool :=
  p.objective.isCertified && p.constraints.all Constraint.isCertified

/-! ### Verdict -/

/-- Why an objective is not certified. -/
def objectiveFault (o : Objective) : String :=
  let (verb, needed) : String × String :=
    match o.sense with
    | .minimize => ("minimize", "convex")
    | .maximize => ("maximize", "concave")
  s!"cannot {verb} {o.expr.curvature.label} objective `{o.expr.text}`; it must be {needed}"

/-- Why the constraint at a place of the list is not certified. -/
def constraintFault (c : Constraint) (i : Nat) : String :=
  s!"constraint {i} ({c.kind.inspect} on `{c.lhs.text}` and `{c.rhs.text}`) " ++
    s!"has {c.residual.curvature.label} residual"

/-- The first constraint that is not certified, and its place. -/
def firstUncertified? (p : Problem) : Option (Constraint × Nat) :=
  p.constraints.zipIdx.find? fun c => !c.1.isCertified

/-- Certifies the problem or names the first part that is not certified, the objective before the
constraints. -/
def verdict (p : Problem) : Except Error Unit :=
  if !p.objective.isCertified then .error (.notCertified (objectiveFault p.objective))
  else
    match p.firstUncertified? with
    | some (c, i) => .error (.notCertified (constraintFault c i))
    | none => .ok ()

theorem firstUncertified?_eq_none_iff {p : Problem} :
    p.firstUncertified? = none ↔ ∀ c ∈ p.constraints, c.isCertified = true := by
  simp only [firstUncertified?, List.find?_eq_none, Bool.not_eq_true', Bool.not_eq_false]
  constructor
  · intro h c hc
    obtain ⟨i, hi⟩ := List.mem_iff_getElem?.1 hc
    exact h (c, i) (List.mk_mem_zipIdx_iff_getElem?.2 hi)
  · rintro h ⟨c, i⟩ hc
    exact h c (List.mem_of_getElem? (List.mk_mem_zipIdx_iff_getElem?.1 hc))

/-- The verdict is favourable if the objective and every constraint are certified. -/
theorem verdict_eq_ok_iff {p : Problem} :
    p.verdict = .ok () ↔
      p.objective.isCertified = true ∧ ∀ c ∈ p.constraints, c.isCertified = true := by
  rw [← firstUncertified?_eq_none_iff]
  unfold verdict
  rcases ho : p.objective.isCertified
  · exact ⟨nofun, nofun⟩
  rcases hc : p.firstUncertified? with _ | ⟨c, i⟩
  · exact ⟨fun _ => ⟨rfl, rfl⟩, fun _ => rfl⟩
  · exact ⟨nofun, nofun⟩

theorem isCertified_iff_verdict {p : Problem} : p.isCertified = true ↔ p.verdict = .ok () := by
  rw [verdict_eq_ok_iff, isCertified, Bool.and_eq_true, List.all_eq_true]

theorem kind_of_verdict {p : Problem} {e : Error} (h : p.verdict = .error e) :
    e.kind = "NotDcp" := by
  unfold verdict at h
  split at h
  · cases h
    rfl
  · split at h
    · cases h
      rfl
    · cases h

/-- The verdict is that the problem is certified, or else an error of one kind. -/
theorem verdict_kind (p : Problem) :
    p.verdict.mapError Error.kind = if p.isCertified then .ok () else .error "NotDcp" := by
  rcases hv : p.verdict with e | u
  · have hnot : ¬p.isCertified = true := by
      intro h
      rw [isCertified_iff_verdict.1 h] at hv
      cases hv
    rw [if_neg hnot, ← kind_of_verdict hv]
    rfl
  · rw [if_pos (isCertified_iff_verdict.2 hv)]
    rfl

/-! ### Contents -/

/-- The objective, and then the residual of each constraint. -/
def expressions (p : Problem) : List Expr :=
  p.objective.expr :: p.constraints.map Constraint.residual

/-- The variables among the nodes of an expression, added to those found before. -/
def addVariables (found : Std.TreeMap Nat Shape) (e : Expr) : Std.TreeMap Nat Shape :=
  e.walk.foldl (fun found node =>
    match node.variableShape? with
    | some (id, shape) => found.insert id shape
    | none => found) found

/-- Number and shape of every variable, in ascending order of the numbers. -/
def variableShapes (p : Problem) : List (Nat × Shape) :=
  (p.expressions.foldl addVariables ∅).toList

/-- The numbers of the variables, in ascending order. -/
def variableIds (p : Problem) : List Nat := p.variableShapes.map Prod.fst

/-- The problem with the names of its fields. -/
def inspect (p : Problem) : String :=
  Text.record "Problem"
    [("objective", p.objective.inspect),
      ("constraints", Text.bracketed (p.constraints.map Constraint.inspect))]

end Problem

end DisciplinedConvex
