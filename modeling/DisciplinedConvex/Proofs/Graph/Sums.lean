/-
DisciplinedConvex/Proofs/Graph/Sums.lean

Sums of any number of expressions, in any order and with any brackets.

What is known of a sum does not depend on the ledger that it is built with, so
that brackets can be followed on attributes alone (`Bracketing.attributes`).
Curvatures and signs are ordered by promise, and adding takes least upper bounds;
shapes agree or give way to one another.  Both are properties of the collection of
terms (`Attributes.Joins`), and they determine the attributes, which leaves no room
for order and brackets.  So it is with failure: some pair of terms does not fit,
whichever pair a bracketing happens to come upon.
-/
import Mathlib
import DisciplinedConvex.Build.Arithmetic

namespace DisciplinedConvex

/-! ### The orders by promise -/

/-- What is covered adds nothing, so the laws of the order are those of sums. -/
instance : PartialOrder Sign where
  le_refl := Sign.le_refl
  le_trans a b c hab hbc := by
    rw [Sign.le_iff_add_eq] at *
    rw [← hbc, ← Sign.add_assoc, hab]
  le_antisymm a b hab hba := by
    rw [Sign.le_iff_add_eq] at hab hba
    rw [← hba, Sign.add_comm, hab]

instance : SemilatticeSup Sign where
  sup := Sign.add
  le_sup_left a b := by rw [Sign.le_iff_add_eq, ← Sign.add_assoc, Sign.add_self]
  le_sup_right a b := by
    rw [Sign.le_iff_add_eq, Sign.add_comm a b, ← Sign.add_assoc, Sign.add_self]
  sup_le a b c hac hbc := by
    rw [Sign.le_iff_add_eq] at *
    rw [Sign.add_assoc, hbc, hac]

instance : PartialOrder Curvature where
  le_refl a := by rw [Curvature.le_iff_add_eq, Curvature.add_self]
  le_trans a b c hab hbc := by
    rw [Curvature.le_iff_add_eq] at *
    rw [← hbc, ← Curvature.add_assoc, hab]
  lt_iff_le_not_ge a b := by cases a <;> cases b <;> decide
  le_antisymm a b hab hba := by
    rw [Curvature.le_iff_add_eq] at hab hba
    rw [← hba, Curvature.add_comm, hab]

instance : SemilatticeSup Curvature where
  sup := Curvature.add
  le_sup_left a b := by rw [Curvature.le_iff_add_eq, ← Curvature.add_assoc, Curvature.add_self]
  le_sup_right a b := by
    rw [Curvature.le_iff_add_eq, Curvature.add_comm a b, ← Curvature.add_assoc, Curvature.add_self]
  sup_le a b c hac hbc := by
    rw [Curvature.le_iff_add_eq] at *
    rw [Curvature.add_assoc, hbc, hac]

/-! ### Sums with brackets -/

/-- A sum of expressions with its brackets. -/
inductive Bracketing where
  | term (a : Expr)
  | sum (s t : Bracketing)

namespace Bracketing

/-- The terms of a sum, from left to right. -/
def terms : Bracketing → List Expr
  | term a => [a]
  | sum s t => s.terms ++ t.terms

/-- Builds a sum bracket by bracket. -/
def build : Bracketing → Build Expr
  | term a => pure a
  | sum s t => do
    let a ← s.build
    let b ← t.build
    Build.sum a b

/-- What is known of a sum. -/
def attributes : Bracketing → Except Error Attributes
  | term a => .ok a.attributes
  | sum s t => do
    let a ← s.attributes
    let b ← t.attributes
    a.add b

/-- There is a sum of any terms in any order. -/
theorem exists_terms {es : List Expr} (h : es ≠ []) : ∃ s : Bracketing, s.terms = es := by
  induction es with
  | nil => exact absurd rfl h
  | cons a es ih =>
    by_cases hes : es = []
    · exact ⟨term a, by rw [hes, terms]⟩
    · obtain ⟨s, hs⟩ := ih hes
      exact ⟨sum (term a) s, by rw [terms, terms, hs, List.singleton_append]⟩

end Bracketing

theorem Build.attributes_sum (a b : Expr) (l : Ledger) :
    ((sum a b).perform l).1.map Expr.attributes =
      (a.attributes.add b.attributes).mapError .rejected := by
  rw [sum, perform_bind, perform_check]
  rcases a.attributes.add b.attributes with e | A <;> rfl

/-- What is known of a sum that is built is what its brackets say, whatever the ledger is. -/
theorem Bracketing.attributes_build (s : Bracketing) (l : Ledger) :
    (s.build.perform l).1.map Expr.attributes = s.attributes.mapError .rejected := by
  -- on the brackets, for whatever ledger there is by then; both sides stop at the same operand
  induction s generalizing l with
  | term a => rfl
  | sum s t ihs iht =>
    specialize ihs l
    rw [build, Build.perform_bind, attributes]
    rcases hs : s.build.perform l with ⟨f | a, l₁⟩ <;> rcases hA : s.attributes with e | A <;>
      rw [hs, hA] at ihs <;> cases ihs
    · rfl
    · specialize iht l₁
      show ((t.build >>= _).perform l₁).1.map _ = Except.mapError _ (t.attributes >>= _)
      rw [Build.perform_bind]
      rcases ht : t.build.perform l₁ with ⟨f | b, l₂⟩ <;> rcases hB : t.attributes with e | B <;>
        rw [ht, hB] at iht <;> cases iht
      · rfl
      · exact Build.attributes_sum a b l₂

/-! ### What the terms determine -/

/-- Those expressions of a list that are no scalars are of one shape. -/
def Expr.Matching (es : List Expr) : Prop :=
  ∀ a ∈ es, ∀ b ∈ es, a.isScalar = false → b.isScalar = false → a.shape = b.shape

instance (es : List Expr) : Decidable (Expr.Matching es) :=
  inferInstanceAs (Decidable (∀ a ∈ es, ∀ b ∈ es, _))

theorem Expr.Matching.mono {es fs : List Expr} (hm : Expr.Matching fs) (h : es ⊆ fs) :
    Expr.Matching es :=
  fun a ha b hb => hm a (h ha) b (h hb)

namespace Attributes

/-- What is known of a sum, told by what is known of its terms: the shape of those that are no
scalars, and the least curvature and the least sign that cover all of them. -/
structure Joins (A : Attributes) (es : List Expr) : Prop where
  shape : ∀ a ∈ es, a.isScalar = false → A.shape = a.shape
  scalar : (∀ a ∈ es, a.isScalar = true) → A.shape = .scalar
  curvature : IsLUB (Expr.curvature '' {a | a ∈ es}) A.curvature
  sign : IsLUB (Expr.sign '' {a | a ∈ es}) A.sign

variable {A B C : Attributes} {es fs : List Expr}

theorem Joins.matching (h : A.Joins es) : Expr.Matching es :=
  fun a ha b hb hsa hsb => (h.shape a ha hsa).symm.trans (h.shape b hb hsb)

theorem Joins.shape_cases (h : A.Joins es) :
    (∀ a ∈ es, a.isScalar = true) ∧ A.shape = .scalar ∨
      ∃ a ∈ es, a.isScalar = false ∧ A.shape = a.shape := by
  by_cases hall : ∀ a ∈ es, a.isScalar = true
  · exact .inl ⟨hall, h.scalar hall⟩
  · obtain ⟨a, ha, hs⟩ : ∃ a ∈ es, a.isScalar = false := by simpa using hall
    exact .inr ⟨a, ha, hs, h.shape a ha hs⟩

/-- Only one thing is known of a sum. -/
theorem Joins.unique (hA : A.Joins es) (hB : B.Joins es) : A = B := by
  have hshape : A.shape = B.shape := by
    rcases hA.shape_cases with ⟨hall, hs⟩ | ⟨a, ha, hs, hAa⟩
    · exact hs.trans (hB.scalar hall).symm
    · exact hAa.trans (hB.shape a ha hs).symm
  have hcurvature := hA.curvature.unique hB.curvature
  have hsign := hA.sign.unique hB.sign
  cases A
  cases B
  rw [Attributes.mk.injEq]
  exact ⟨hcurvature, hsign, hshape⟩

theorem Joins.of_perm (h : A.Joins es) (hp : es.Perm fs) : A.Joins fs := by
  have hset : {a | a ∈ es} = {a | a ∈ fs} := Set.ext fun a => hp.mem_iff
  exact ⟨fun a ha => h.shape a (hp.mem_iff.2 ha),
    fun hall => h.scalar fun a ha => hall a (hp.mem_iff.1 ha), hset ▸ h.curvature, hset ▸ h.sign⟩

theorem joins_singleton (a : Expr) : a.attributes.Joins [a] := by
  have hset : {b | b ∈ [a]} = {a} := Set.ext fun b => List.mem_singleton
  refine ⟨fun b hb _ => ?_, fun hall => ?_, ?_, ?_⟩
  · rw [List.mem_singleton.1 hb, Expr.shape]
  · exact (Shape.isScalar_iff _).1 (hall a (List.mem_singleton_self a))
  · rw [hset, Set.image_singleton]
    exact isLUB_singleton
  · rw [hset, Set.image_singleton]
    exact isLUB_singleton

/-- Adding joins the terms on both sides. -/
theorem Joins.add (hA : A.Joins es) (hB : B.Joins fs) (h : A.add B = .ok C) :
    C.Joins (es ++ fs) := by
  have hset : {a | a ∈ es ++ fs} = {a | a ∈ es} ∪ {a | a ∈ fs} :=
    Set.ext fun a => List.mem_append
  obtain ⟨r, hr, rfl⟩ := add_eq_ok_iff.1 h
  rcases Shape.broadcast_or_mismatch A.shape B.shape with ⟨r', hr', hl, hrr, hs⟩ | ⟨-, -, -, he⟩
  · obtain rfl := Except.ok.inj (hr.symm.trans hr')
    refine ⟨fun a ha hsa => ?_, fun hall => ?_, ?_, ?_⟩
    · rcases List.mem_append.1 ha with ha | ha
      · have hAa := hA.shape a ha hsa
        exact (hl (by rw [hAa]; exact hsa)).trans hAa
      · have hBa := hB.shape a ha hsa
        exact (hrr (by rw [hBa]; exact hsa)).trans hBa
    · exact hs (hA.scalar fun a ha => hall a (List.mem_append_left _ ha))
        (hB.scalar fun a ha => hall a (List.mem_append_right _ ha))
    · rw [hset, Set.image_union]
      exact hA.curvature.union hB.curvature
    · rw [hset, Set.image_union]
      exact hA.sign.union hB.sign
  · rw [hr] at he
    cases he

/-- Where two sums cannot be added, some term of one does not match some term of the other. -/
theorem Joins.add_or_mismatch (hA : A.Joins es) (hB : B.Joins fs) :
    (∃ C, A.add B = .ok C ∧ C.Joins (es ++ fs)) ∨
      ¬ Expr.Matching (es ++ fs) ∧
        A.add B = .error (.shapeMismatch "elementwise operation" A.shape B.shape) := by
  rcases Shape.broadcast_or_mismatch A.shape B.shape with ⟨r, hr, -⟩ | ⟨hsA, hsB, hne, he⟩
  · have hadd := add_eq_ok_iff.2 ⟨r, hr, rfl⟩
    exact .inl ⟨_, hadd, hA.add hB hadd⟩
  · refine .inr ⟨fun hm => ?_, by rw [Attributes.add, he]; rfl⟩
    rcases hA.shape_cases with ⟨-, hs⟩ | ⟨a, ha, hsa, hAa⟩
    · rw [hs] at hsA
      cases hsA
    rcases hB.shape_cases with ⟨-, hs⟩ | ⟨b, hb, hsb, hBb⟩
    · rw [hs] at hsB
      cases hsB
    rw [hAa, hBb] at hne
    exact hne (hm a (List.mem_append_left _ ha) b (List.mem_append_right _ hb) hsa hsb)

end Attributes

namespace Bracketing

variable {es : List Expr}

/-- What is known of a sum joins its terms, or two terms do not match. -/
theorem attributes_or_mismatch (s : Bracketing) :
    (∃ A, s.attributes = .ok A ∧ A.Joins s.terms) ∨
      ¬ Expr.Matching s.terms ∧
        ∃ t u, s.attributes = .error (.shapeMismatch "elementwise operation" t u) := by
  induction s with
  | term a => exact .inl ⟨_, rfl, Attributes.joins_singleton a⟩
  | sum s t ihs iht =>
    rw [terms, attributes]
    -- a mismatch on one side is one of the whole
    rcases ihs with ⟨A, hs, hA⟩ | ⟨hm, u, v, hs⟩
    · rcases iht with ⟨B, ht, hB⟩ | ⟨hm, u, v, ht⟩
      · rw [hs, ht]
        rcases hA.add_or_mismatch hB with hadd | ⟨hm, he⟩
        · exact .inl hadd
        · exact .inr ⟨hm, _, _, he⟩
      · exact .inr ⟨fun h => hm (h.mono (List.subset_append_right ..)), u, v, by rw [hs, ht]; rfl⟩
    · exact .inr ⟨fun h => hm (h.mono (List.subset_append_left ..)), u, v, by rw [hs]; rfl⟩

theorem perform_build_of_ok {s : Bracketing} {A : Attributes} (h : s.attributes = .ok A)
    (l : Ledger) : ∃ e l', s.build.perform l = (.ok e, l') ∧ e.attributes = A := by
  have hbuild := s.attributes_build l
  rw [h] at hbuild
  rcases hs : s.build.perform l with ⟨f | e, l'⟩ <;> rw [hs] at hbuild
  · cases hbuild
  · exact ⟨e, l', rfl, Except.ok.inj hbuild⟩

theorem perform_build_of_error {s : Bracketing} {err : Error} (h : s.attributes = .error err)
    (l : Ledger) : ∃ l', s.build.perform l = (.error (.rejected err), l') := by
  have hbuild := s.attributes_build l
  rw [h] at hbuild
  rcases hs : s.build.perform l with ⟨f | e, l'⟩ <;> rw [hs] at hbuild
  · exact ⟨l', by rw [Except.error.inj hbuild]⟩
  · cases hbuild

/-- Sums of the same terms, in any order and with any brackets, all succeed or all fail.  They fail
where two terms that are no scalars are of different shapes; else the same is known of all of them,
and it is what the terms determine. -/
theorem build_orderless (hes : es ≠ []) :
    (Expr.Matching es → ∃ A : Attributes, A.Joins es ∧ ∀ s : Bracketing, s.terms.Perm es →
      ∀ l, ∃ e l', s.build.perform l = (.ok e, l') ∧ e.attributes = A) ∧
    (¬ Expr.Matching es → ∀ s : Bracketing, s.terms.Perm es →
      ∀ l, ∃ t u l', s.build.perform l =
        (.error (.rejected (.shapeMismatch "elementwise operation" t u)), l')) := by
  refine ⟨fun hm => ?_, fun hm s hp l => ?_⟩
  · obtain ⟨s₀, rfl⟩ := exists_terms hes
    rcases s₀.attributes_or_mismatch with ⟨A, -, hA⟩ | ⟨hm', -⟩
    · refine ⟨A, hA, fun s hp l => ?_⟩
      rcases s.attributes_or_mismatch with ⟨A', hs, hA'⟩ | ⟨hm', -⟩
      · obtain rfl := hA.unique (hA'.of_perm hp)
        exact perform_build_of_ok hs l
      · exact absurd (hm.mono hp.subset) hm'
    · exact absurd hm hm'
  · rcases s.attributes_or_mismatch with ⟨A, -, hA⟩ | ⟨-, t, u, hs⟩
    · exact absurd (hA.of_perm hp).matching hm
    · exact ⟨t, u, perform_build_of_error hs l⟩

/-- A number may be added to a column at any time, and a row at none. -/
theorem build_orderless_column :
    let column : Expr := .var ⟨0, .affine, .nonneg, { rows := 2, cols := 1 }⟩
      { shape := { rows := 2, cols := 1 }, bound := some .nonneg }
    let row : Expr := .transpose ⟨1, column.attributes.transpose⟩ column
    let number : Expr := .var ⟨2, .affine, .unknown, .scalar⟩ { shape := .scalar }
    (∃ A : Attributes, A.shape = column.shape ∧ ∀ s : Bracketing,
      s.terms.Perm [column, number, column] →
        ∀ l, ∃ e l', s.build.perform l = (.ok e, l') ∧ e.attributes = A) ∧
    ∀ s : Bracketing, s.terms.Perm [column, number, row] →
      ∀ l, ∃ t u l', s.build.perform l =
        (.error (.rejected (.shapeMismatch "elementwise operation" t u)), l') := by
  intro column row number
  constructor
  · obtain ⟨hok, -⟩ := build_orderless (List.cons_ne_nil column [number, column])
    obtain ⟨A, hA, hbuild⟩ := hok (by decide)
    exact ⟨A, hA.shape column (List.mem_cons_self ..) rfl, hbuild⟩
  · exact (build_orderless (List.cons_ne_nil column [number, row])).2 (by decide)

end Bracketing

end DisciplinedConvex
