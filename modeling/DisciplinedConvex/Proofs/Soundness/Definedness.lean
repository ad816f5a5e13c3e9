/-
DisciplinedConvex/Proofs/Soundness/Definedness.lean

Where an expression has a value, and of which dimensions.

`Expr.OperandsFit` asks of a node that its operation can be carried out on all
matrices of the shapes that are recorded for its operands: dimensions fit, a divisor
is a single number, every position of a selection lies inside.  In what a session
builds this holds of every node, so that evaluation can stop for one reason only, a
divisor that is zero (`Buildable.dimensions_fit`).
-/
import DisciplinedConvex.Proofs.Graph.Nodes
import DisciplinedConvex.Proofs.Soundness.Shape

namespace DisciplinedConvex

variable {K : Type} [OrderedField K]

/-! ### Operands that fit -/

/-- The operation of the node can be carried out on all matrices of the recorded shapes, where a
quotient may still have a divisor that is zero. -/
def Expr.OperandsFit (K : Type) [OrderedField K] : Expr → Prop
  | var .. | const .. | neg .. | transpose .. => True
  | add _ a b => ∀ u w : Mat K, u.HasShape a.shape → w.HasShape b.shape →
      (u.rows = w.rows ∧ u.cols = w.cols) ∨ u.IsScalar ∨ w.IsScalar
  | mul _ k a => ∀ u w : Mat K, u.HasShape k.shape → w.HasShape a.shape →
      u.cols = w.rows ∨ u.IsScalar ∨ w.IsScalar
  | div _ _ k => ∀ w : Mat K, w.HasShape k.shape → w.IsScalar
  | index _ a s => ∃ rows cols, s.rows.count = .ok rows ∧ s.cols.count = .ok cols ∧
      ∀ u : Mat K, u.HasShape a.shape →
        (∀ i < rows.toNat, s.rows.place i = s.rows.start.toNat + i * s.rows.step.toNat ∧
          s.rows.place i < u.rows) ∧
        ∀ j < cols.toNat, s.cols.place j = s.cols.start.toNat + j * s.cols.step.toNat ∧
          s.cols.place j < u.cols

namespace Shape

variable {s t r : Shape}

theorem broadcast_cases (h : s.broadcast t = .ok r) :
    s = t ∨ s.isScalar = true ∨ t.isScalar = true := by
  unfold broadcast at h
  split_ifs at h with hst hs
  · simp only [Bool.or_eq_true, decide_eq_true_eq] at hst
    exact hst.imp id .inr
  · exact .inr (.inl hs)

theorem times_cases (h : s.times t = .ok r) :
    s.cols = t.rows ∨ s.isScalar = true ∨ t.isScalar = true := by
  unfold times product at h
  split_ifs at h with hs ht hinner
  · exact .inr (.inl hs)
  · exact .inr (.inr ht)
  · exact .inl hinner

end Shape

theorem Expr.WellFormed.operandsFit {e : Expr} (he : e.WellFormed) : e.OperandsFit K := by
  cases he with
  | var hl => trivial
  | const hshape hcurv hsign => trivial
  | add ha hb hl =>
    intro u w hu hw
    rcases Shape.broadcast_cases (shape_of_add hl) with hst | hs | ht
    · exact .inl ((hu.dims_eq_iff hw).2 hst)
    · exact .inr (.inl (hu.isScalar_iff.2 hs))
    · exact .inr (.inr (hw.isScalar_iff.2 ht))
  | neg ha hl => trivial
  | mul hk ha hconst hl =>
    intro u w hu hw
    rcases Shape.times_cases (shape_of_mul hl) with hinner | hs | ht
    · exact .inl (by rw [hu.cols, hw.rows, hinner])
    · exact .inr (.inl (hu.isScalar_iff.2 hs))
    · exact .inr (.inr (hw.isScalar_iff.2 ht))
  | div ha hk hconst hscalar hl => exact fun w hw => hw.isScalar_iff.2 hscalar
  | transpose ha hscalar hl => trivial
  | index ha hscalar hfits ht hl =>
    obtain ⟨hrows, hcols⟩ := Selection.counts_of_shape ht
    refine ⟨_, _, hrows, hcols, fun u hu => ⟨fun i hi => ?_, fun j hj => ?_⟩⟩
    · exact ⟨hfits.rows.place_eq hrows hi, hu.rows ▸ hfits.rows.place_lt hrows hi⟩
    · exact ⟨hfits.cols.place_eq hcols hj, hu.cols ▸ hfits.cols.place_lt hcols hj⟩

/-! ### Divisors that are zero -/

namespace Mat

variable {a b k : Mat K}

theorem add_ne_zeroDivisor (a b : Mat K) : a.add b ≠ .error .zeroDivisor := by
  unfold add common
  split_ifs <;> exact nofun

theorem mul_ne_zeroDivisor (a b : Mat K) : a.mul b ≠ .error .zeroDivisor := by
  unfold mul
  split_ifs <;> exact nofun

theorem select_ne_zeroDivisor (s : Selection) (a : Mat K) : a.select s ≠ .error .zeroDivisor := by
  unfold select
  split
  · split_ifs <;> exact nofun
  · exact nofun

theorem number_of_zeroDivisor (h : a.div k = .error .zeroDivisor) : k.number = 0 := by
  unfold div at h
  split_ifs at h with hk hzero
  · exact hzero
  · cases h

end Mat

theorem Expr.bind_eq_error_iff {α β ε : Type} {u : Except ε α} {f : α → Except ε β} {r : ε} :
    (u >>= f) = .error r ↔ u = .error r ∨ ∃ c, u = .ok c ∧ f c = .error r := by
  cases u <;> simp [bind, Except.bind]

/-- Some divisor in the expression has a value, and this is zero. -/
def Expr.HasZeroDivisor (x : Assignment K) : Expr → Prop
  | var .. | const .. => False
  | add _ a b | mul _ a b => a.HasZeroDivisor x ∨ b.HasZeroDivisor x
  | div _ a k =>
    a.HasZeroDivisor x ∨ k.HasZeroDivisor x ∨ ∃ w, k.eval x = .ok w ∧ w.number = 0
  | neg _ a | transpose _ a | index _ a _ => a.HasZeroDivisor x

/-- Evaluation gives this reason only where there is such a divisor. -/
theorem Expr.hasZeroDivisor_of_eval {x : Assignment K} {e : Expr}
    (h : e.eval x = .error .zeroDivisor) : e.HasZeroDivisor x := by
  -- the reason comes up from an operand, or it is a quotient that gives it
  induction e with
  | var l d => cases h
  | const l v => cases h
  | add l a b iha ihb =>
    rcases bind_eq_error_iff.1 h with ha | ⟨u, -, h⟩
    · exact .inl (iha ha)
    rcases bind_eq_error_iff.1 h with hb | ⟨w, -, h⟩
    · exact .inr (ihb hb)
    · exact absurd h (Mat.add_ne_zeroDivisor u w)
  | neg l a iha =>
    rcases bind_eq_error_iff.1 h with ha | ⟨u, -, h⟩
    · exact iha ha
    · cases h
  | mul l k a ihk iha =>
    rcases bind_eq_error_iff.1 h with hk | ⟨u, -, h⟩
    · exact .inl (ihk hk)
    rcases bind_eq_error_iff.1 h with ha | ⟨w, -, h⟩
    · exact .inr (iha ha)
    · exact absurd h (Mat.mul_ne_zeroDivisor u w)
  | div l a k iha ihk =>
    rcases bind_eq_error_iff.1 h with ha | ⟨u, -, h⟩
    · exact .inl (iha ha)
    rcases bind_eq_error_iff.1 h with hk | ⟨w, hw, h⟩
    · exact .inr (.inl (ihk hk))
    · exact .inr (.inr ⟨w, hw, Mat.number_of_zeroDivisor h⟩)
  | transpose l a iha =>
    rcases bind_eq_error_iff.1 h with ha | ⟨u, -, h⟩
    · exact iha ha
    · cases h
  | index l a s iha =>
    rcases bind_eq_error_iff.1 h with ha | ⟨u, -, h⟩
    · exact iha ha
    · exact absurd h (Mat.select_ne_zeroDivisor s u)

/-! ### Evaluation -/

namespace Expr

/-- At every node of what a session builds, and at every assignment, the operands fit the operation,
evaluation meets neither dimensions that do not fit nor a position outside, there is a value unless
a divisor below is zero, and the value has the dimensions that are recorded. -/
theorem Buildable.dimensions_fit {e : Expr} (he : e.Buildable) (x : Assignment K) {n : Expr}
    (hn : e.Reaches n) :
    n.OperandsFit K ∧ n.eval x ≠ .error .mismatch ∧ n.eval x ≠ .error .outOfRange ∧
      (¬n.HasZeroDivisor x → ∃ v, n.eval x = .ok v) ∧
      ∀ v, n.eval x = .ok v → v.rows = n.shape.rows.toNat ∧ v.cols = n.shape.cols.toNat := by
  have hwf : n.WellFormed := he.wellFormed.reaches hn
  have hdims (v : Mat K) (hv : n.eval x = .ok v) :
      v.rows = n.shape.rows.toNat ∧ v.cols = n.shape.cols.toNat :=
    ⟨(hwf.hasShape hv).rows, (hwf.hasShape hv).cols⟩
  rcases hwf.eval_cases x with ⟨v, hv, -⟩ | herr
  · exact ⟨hwf.operandsFit, by simp [hv], by simp [hv], fun _ => ⟨v, hv⟩, hdims⟩
  · exact ⟨hwf.operandsFit, by simp [herr], by simp [herr],
      fun hzero => absurd (hasZeroDivisor_of_eval herr) hzero, hdims⟩

/-- Half of a product with a part of a matrix, the constant factor given on the right: two rows of
four and two columns of three, at the assignment that numbers the places. -/
theorem product_dimensions_fit :
    let steps : List Step := [
      .declare 4 3 none [],
      .index 0 (.pair (.range 0 9 2) (.between 1 3)),
      .operate .product (.register 1) (.literal (.dense 2 3 #[1.0, 2.0, 3.0, 4.0, 5.0, 6.0])) true,
      .operate .quotient (.register 2) (.literal (.scalar 2.0)) true]
    ∃ e, ((Session.startingAt 0).run steps).1[3]? = some (.ok (.expr e)) ∧ e.OperandsFit ℚ ∧
      ∃ v, e.eval (fun _ i j => (i + 10 * j : ℚ)) = .ok v ∧ v.rows = 2 ∧ v.cols = 3 := by
  intro steps
  obtain ⟨l, l₁, l₂, l₃, l₄, l₅, l₆, l₇, l₈, v, d, s, he, hrows, hcols⟩ :
      ∃ l l₁ l₂ l₃ l₄ l₅ l₆ l₇ l₈ v d s,
        ((Session.startingAt 0).run steps).1[3]? = some (.ok (.expr (.div l
          (.transpose l₁ (.mul l₂ (.transpose l₃ (.const l₄ v))
            (.transpose l₅ (.index l₆ (.var l₇ d) s))))
          (.const l₈ (.scalar 2.0))))) ∧
        l.attributes.shape.rows = 2 ∧ l.attributes.shape.cols = 3 :=
    ⟨_, _, _, _, _, _, _, _, _, _, _, _, rfl, rfl, rfl⟩
  obtain ⟨hfit, -, -, hvalue, hdims⟩ := Buildable.dimensions_fit (Buildable.of_answer 0 steps 3 he)
    (fun _ i j => (i + 10 * j : ℚ)) (.refl _)
  have htwo : Decimal.exact 2.0 = 2 := by
    have hbits : Decimal.Number.ofFloat 2.0 = .finite ⟨false, 2 ^ 52, -51, true⟩ := by
      decide +kernel
    rw [Decimal.exact, hbits]
    norm_num [Decimal.Binary.toRat]
  have hnumber : (Value.exact (.scalar 2.0) : Mat ℚ).number = 2 := htwo
  obtain ⟨u, hu⟩ := hvalue (by simp [HasZeroDivisor, eval, hnumber])
  have hsize := hdims u hu
  exact ⟨_, he, hfit, u, hu, hsize.1.trans (by rw [shape, attributes, label, hrows]; rfl),
    hsize.2.trans (by rw [shape, attributes, label, hcols]; rfl)⟩

end Expr

end DisciplinedConvex
