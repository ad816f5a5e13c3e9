/-
DisciplinedConvex/Proofs/Exact/Evaluation.lean

The value of an expression at an assignment.

An assignment gives each variable a number for every place; a variable reads as
many of them as its shape has places.  Evaluation is by recursion on the
expression and looks at nothing but its operations: what is recorded about a node
(its attributes) plays no part, so that statements about attributes have
something to be compared with.
-/
import DisciplinedConvex.Proofs.Exact.Number
import DisciplinedConvex.Proofs.Exact.Dimension
import DisciplinedConvex.Expr.Walk

namespace DisciplinedConvex

/-- A number for every place of every variable: by the number of the variable, the row and the
column. -/
abbrev Assignment (K : Type) := ℕ → ℕ → ℕ → K

variable {K : Type} [OrderedField K]

/-- The matrix that an assignment gives to a variable of some shape. -/
def Assignment.matrix (x : Assignment K) (id : ℕ) (s : Shape) : Mat K :=
  .ofFn s.rows.toNat s.cols.toNat (x id)

/-- The matrix of the exact entries of a constant. -/
def Value.exact (v : Value) : Mat K :=
  .ofFn v.rows.toNat v.cols.toNat fun i j => Decimal.exact (v.entry i j)

/-- The value of an expression at an assignment. -/
def Expr.eval (x : Assignment K) : Expr → Except Undefined (Mat K)
  | var l d => .ok (x.matrix l.id d.shape)
  | const _ v => .ok v.exact
  | add _ a b => do (← a.eval x).add (← b.eval x)
  | neg _ a => do return (← a.eval x).neg
  | mul _ k a => do (← k.eval x).mul (← a.eval x)
  | div _ a k => do (← a.eval x).div (← k.eval x)
  | transpose _ a => do return (← a.eval x).transpose
  | index _ a s => do (← a.eval x).select s

/-! ### Assignments that obey what is declared -/

/-- The entries obey the declared bound. -/
def Declaration.Allows (d : Declaration) (a : Mat K) : Prop :=
  match d.bound with
  | none => True
  | some .nonneg => ∀ i j, 0 ≤ a.entry i j
  | some .nonpos => ∀ i j, a.entry i j ≤ 0

/-- Every variable of an expression obeys its declaration. -/
def Assignment.Respects (x : Assignment K) (e : Expr) : Prop :=
  ∀ l d, e.Reaches (.var l d) → d.Allows (x.matrix l.id d.shape)

theorem Assignment.Respects.child {x : Assignment K} {e c : Expr} (hx : x.Respects e)
    (hc : c ∈ e.children) : x.Respects c :=
  fun l d hv => hx l d (.child hc hv)

theorem Assignment.respects_var_iff {x : Assignment K} {l : Label} {d : Declaration} :
    x.Respects (.var l d) ↔ d.Allows (x.matrix l.id d.shape) := by
  refine ⟨fun hx => hx l d (.refl _), fun hd l' d' hv => ?_⟩
  cases hv with
  | refl => exact hd
  | child hc ha => cases hc

/-- An expression that is no variable asks for what its operands ask for. -/
theorem Assignment.respects_of_children {x : Assignment K} {e : Expr}
    (he : e.isVariable = false) (h : ∀ c ∈ e.children, x.Respects c) : x.Respects e := by
  intro l d hv
  cases hv with
  | refl => cases he
  | child hc ha => exact h _ hc l d ha

/-! ### Between two assignments -/

/-- The entries of a combination of assignments are combined alike. -/
theorem Assignment.entry_matrix_mix (x y : Assignment K) (p q : K) (id : ℕ) (s : Shape) (i j : ℕ) :
    ((p • x + q • y).matrix id s).entry i j =
      p * (x.matrix id s).entry i j + q * (y.matrix id s).entry i j := by
  simp only [matrix, Mat.entry_ofFn, Pi.add_apply, Pi.smul_apply, smul_eq_mul]
  split <;> simp

/-- What is declared holds between two assignments for which it holds. -/
theorem Assignment.Respects.mix {x y : Assignment K}
    {e : Expr} (hx : x.Respects e) (hy : y.Respects e) {p q : K} (hp : 0 ≤ p) (hq : 0 ≤ q) :
    (p • x + q • y).Respects e := by
  intro l d hv
  have h₁ := hx l d hv
  have h₂ := hy l d hv
  unfold Declaration.Allows at *
  split
  · trivial
  · rename_i hb
    simp only [hb] at h₁ h₂
    intro i j
    rw [entry_matrix_mix]
    exact add_nonneg (mul_nonneg hp (h₁ i j)) (mul_nonneg hq (h₂ i j))
  · rename_i hb
    simp only [hb] at h₁ h₂
    intro i j
    rw [entry_matrix_mix]
    exact add_nonpos (mul_nonpos_of_nonneg_of_nonpos hp (h₁ i j))
      (mul_nonpos_of_nonneg_of_nonpos hq (h₂ i j))

/-! ### Evaluation of a node -/

namespace Expr

variable {x : Assignment K} {l : Label} {a b k : Expr} {v : Mat K}

theorem bind_eq_ok_iff {α β ε : Type} {u : Except ε α} {f : α → Except ε β} {r : β} :
    (u >>= f) = .ok r ↔ ∃ c, u = .ok c ∧ f c = .ok r := by
  cases u <;> simp [bind, Except.bind]

theorem eval_add_eq_ok_iff :
    (add l a b).eval x = .ok v ↔
      ∃ u w, a.eval x = .ok u ∧ b.eval x = .ok w ∧ u.add w = .ok v := by
  simp only [eval, bind_eq_ok_iff, exists_and_left]

theorem eval_neg_eq_ok_iff : (neg l a).eval x = .ok v ↔ ∃ u, a.eval x = .ok u ∧ u.neg = v := by
  simp only [eval, bind_eq_ok_iff, pure, Except.pure, Except.ok.injEq]

theorem eval_mul_eq_ok_iff :
    (mul l k a).eval x = .ok v ↔
      ∃ u w, k.eval x = .ok u ∧ a.eval x = .ok w ∧ u.mul w = .ok v := by
  simp only [eval, bind_eq_ok_iff, exists_and_left]

theorem eval_div_eq_ok_iff :
    (div l a k).eval x = .ok v ↔
      ∃ u w, a.eval x = .ok u ∧ k.eval x = .ok w ∧ u.div w = .ok v := by
  simp only [eval, bind_eq_ok_iff, exists_and_left]

theorem eval_transpose_eq_ok_iff :
    (transpose l a).eval x = .ok v ↔ ∃ u, a.eval x = .ok u ∧ u.transpose = v := by
  simp only [eval, bind_eq_ok_iff, pure, Except.pure, Except.ok.injEq]

theorem eval_index_eq_ok_iff {s : Selection} :
    (index l a s).eval x = .ok v ↔ ∃ u, a.eval x = .ok u ∧ u.select s = .ok v := by
  simp only [eval, bind_eq_ok_iff]

end Expr

end DisciplinedConvex
