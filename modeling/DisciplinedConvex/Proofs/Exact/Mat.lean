/-
DisciplinedConvex/Proofs/Exact/Mat.lean

Matrices of exact numbers, and the operations that expressions stand for.

A matrix is a pair of dimensions and its entries; outside of the dimensions the
entries are zero, so that two matrices are equal as soon as dimensions and
entries agree, and a statement on all entries needs no bounds.  The numbers come
from any linearly ordered field: the rationals, to compute with, or the reals.

Operations that need more of their operands than they can be sure of answer
`Except Undefined`: dimensions may not fit, a position may lie outside, a divisor
may be zero.
-/
import Mathlib
import DisciplinedConvex.Proofs.Indexing.Slice

/-- The numbers that values are made of: any linearly ordered field. -/
class abbrev OrderedField (K : Type) := Field K, LinearOrder K, IsStrictOrderedRing K

namespace DisciplinedConvex

/-- Why an operation has no result. -/
inductive Undefined where
  /-- The dimensions of the operands do not fit. -/
  | mismatch
  /-- A position lies outside of the matrix. -/
  | outOfRange
  /-- The divisor is zero. -/
  | zeroDivisor
deriving DecidableEq, Repr

/-- A matrix; its entries are zero outside of the dimensions. -/
@[ext] structure Mat (K : Type) [OrderedField K] where
  rows : ℕ
  cols : ℕ
  entry : ℕ → ℕ → K
  outside : ∀ i j, ¬(i < rows ∧ j < cols) → entry i j = 0

namespace Mat

variable {K : Type} [OrderedField K]

/-! ### Operations -/

/-- The matrix of a function on places. -/
def ofFn (rows cols : ℕ) (f : ℕ → ℕ → K) : Mat K where
  rows := rows
  cols := cols
  entry i j := if i < rows ∧ j < cols then f i j else 0
  outside _ _ h := if_neg h

instance : Inhabited (Mat K) := ⟨ofFn 0 0 fun _ _ => 0⟩

/-- One row and one column. -/
def IsScalar (a : Mat K) : Prop := a.rows = 1 ∧ a.cols = 1

instance (a : Mat K) : Decidable a.IsScalar :=
  inferInstanceAs (Decidable (_ ∧ _))

/-- The only entry of a scalar. -/
def number (a : Mat K) : K := a.entry 0 0

/-- The entry at a place, where a scalar stands for a matrix with its number throughout. -/
def spread (a : Mat K) (i j : ℕ) : K := if a.IsScalar then a.number else a.entry i j

/-- The dimensions of an entrywise combination. -/
def common (a b : Mat K) : Except Undefined (ℕ × ℕ) :=
  if (a.rows = b.rows ∧ a.cols = b.cols) ∨ b.IsScalar then .ok (a.rows, a.cols)
  else if a.IsScalar then .ok (b.rows, b.cols)
  else .error .mismatch

/-- `a + b`; a scalar is added to every entry. -/
def add (a b : Mat K) : Except Undefined (Mat K) := do
  let (rows, cols) ← common a b
  return ofFn rows cols fun i j => a.spread i j + b.spread i j

/-- `-a`. -/
def neg (a : Mat K) : Mat K where
  rows := a.rows
  cols := a.cols
  entry i j := -a.entry i j
  outside i j h := by rw [a.outside i j h, neg_zero]

/-- `k * a` for a number `k`. -/
def scale (k : K) (a : Mat K) : Mat K where
  rows := a.rows
  cols := a.cols
  entry i j := k * a.entry i j
  outside i j h := by rw [a.outside i j h, mul_zero]

/-- The matrix product of an `(m, n)` and an `(n, p)` matrix. -/
def product (a b : Mat K) : Mat K where
  rows := a.rows
  cols := b.cols
  entry i j := ∑ n ∈ Finset.range a.cols, a.entry i n * b.entry n j
  outside i j h := by
    refine Finset.sum_eq_zero fun n _ => ?_
    by_cases hi : i < a.rows
    · rw [b.outside n j fun hn => h ⟨hi, hn.2⟩, mul_zero]
    · rw [a.outside i n fun hn => hi hn.1, zero_mul]

/-- `a * b`: a scalar factor scales, anything else is a matrix product. -/
def mul (a b : Mat K) : Except Undefined (Mat K) :=
  if a.IsScalar then .ok (scale a.number b)
  else if b.IsScalar then .ok (scale b.number a)
  else if a.cols = b.rows then .ok (product a b)
  else .error .mismatch

/-- `a / k`: every entry is divided by the number of the scalar `k`. -/
def div (a k : Mat K) : Except Undefined (Mat K) :=
  if k.IsScalar then
    if k.number = 0 then .error .zeroDivisor
    else .ok (ofFn a.rows a.cols fun i j => a.entry i j / k.number)
  else .error .mismatch

/-- Rows and columns change places. -/
def transpose (a : Mat K) : Mat K where
  rows := a.cols
  cols := a.rows
  entry i j := a.entry j i
  outside i j h := a.outside j i fun hn => h hn.symm

/-- The entries at the positions of a selection. -/
def select (s : Selection) (a : Mat K) : Except Undefined (Mat K) :=
  match s.rows.count, s.cols.count with
  | .ok rows, .ok cols =>
    if (∀ i < rows.toNat, s.rows.place i < a.rows) ∧ ∀ j < cols.toNat, s.cols.place j < a.cols then
      .ok (ofFn rows.toNat cols.toNat fun i j => a.entry (s.rows.place i) (s.cols.place j))
    else .error .outOfRange
  | _, _ => .error .outOfRange

/-! ### What an operation can answer -/

theorem eq_of_add {a b v : Mat K} (h : a.add b = .ok v) :
    ∃ rows cols, v = ofFn rows cols fun i j => a.spread i j + b.spread i j := by
  rcases hc : common a b with u | ⟨rows, cols⟩
  · rw [add, hc] at h
    cases h
  · rw [add, hc] at h
    cases h
    exact ⟨rows, cols, rfl⟩

theorem eq_of_mul {a b v : Mat K} (h : a.mul b = .ok v) :
    v = scale a.number b ∨ v = scale b.number a ∨ v = product a b := by
  unfold mul at h
  split_ifs at h
  · exact .inl (Except.ok.inj h).symm
  · exact .inr (.inl (Except.ok.inj h).symm)
  · exact .inr (.inr (Except.ok.inj h).symm)

theorem divisor_of_div {a k v : Mat K} (h : a.div k = .ok v) : k.IsScalar ∧ k.number ≠ 0 := by
  unfold div at h
  split_ifs at h with hk hzero
  exact ⟨hk, hzero⟩

theorem eq_of_select {s : Selection} {a v : Mat K} (h : a.select s = .ok v) :
    ∃ rows cols, v = ofFn rows cols fun i j => a.entry (s.rows.place i) (s.cols.place j) := by
  unfold select at h
  split at h
  · split_ifs at h
    cases h
    exact ⟨_, _, rfl⟩
  · cases h

/-! ### Entries of results -/

theorem entry_ofFn (rows cols : ℕ) (f : ℕ → ℕ → K) (i j : ℕ) :
    (ofFn rows cols f).entry i j = if i < rows ∧ j < cols then f i j else 0 := rfl

@[simp] theorem entry_scale (k : K) (a : Mat K) (i j : ℕ) :
    (scale k a).entry i j = k * a.entry i j := rfl

theorem entry_product (a b : Mat K) (i j : ℕ) :
    (product a b).entry i j = ∑ n ∈ Finset.range a.cols, a.entry i n * b.entry n j := rfl

@[simp] theorem entry_transpose (a : Mat K) (i j : ℕ) : a.transpose.entry i j = a.entry j i := rfl

@[simp] theorem transpose_transpose (a : Mat K) : a.transpose.transpose = a := rfl

/-- Division by a number other than zero scales by its reciprocal. -/
theorem div_eq_scale {a k : Mat K} (hk : k.IsScalar) (h : k.number ≠ 0) :
    a.div k = .ok (scale k.number⁻¹ a) := by
  rw [div, if_pos hk, if_neg h]
  refine congrArg Except.ok (Mat.ext rfl rfl ?_)
  funext i j
  rw [entry_ofFn, entry_scale]
  split
  · exact div_eq_inv_mul ..
  · rename_i hout
    rw [a.outside i j hout, mul_zero]

/-- A scalar has no other entries than its number. -/
theorem entry_of_isScalar {a : Mat K} (ha : a.IsScalar) (i j : ℕ) :
    a.entry i j = if i = 0 ∧ j = 0 then a.number else 0 := by
  split
  · rename_i h
    rw [h.1, h.2, number]
  · rename_i h
    refine a.outside i j fun hin => h ?_
    rw [ha.1, ha.2] at hin
    omega

/-- A scalar is its own transpose. -/
theorem transpose_of_isScalar {a : Mat K} (ha : a.IsScalar) : a.transpose = a := by
  refine Mat.ext (ha.2.trans ha.1.symm) (ha.1.trans ha.2.symm) ?_
  funext i j
  simp only [entry_transpose, entry_of_isScalar ha, and_comm]

end Mat

end DisciplinedConvex
