/-
DisciplinedConvex/Shape/Combine.lean

Which shapes may meet in an operation, and what shape comes out.

`broadcast` is for entrywise operations: the shapes agree, or one is a scalar
and the other wins.  `product` is for matrix products.  `times` is for factors,
where a scalar scales and everything else is a matrix product.
-/
import DisciplinedConvex.Error

namespace DisciplinedConvex.Shape

/-- The shape of these dimensions; zero dimensions are refused. -/
def ofDims (rows cols : UInt64) : Except Error Shape :=
  match ofDims? rows cols with
  | some s => .ok s
  | none => .error (.invalidShape rows cols)

/-- The shape of an entrywise combination. -/
def broadcast (s t : Shape) : Except Error Shape :=
  if s = t || t.isScalar then .ok s
  else if s.isScalar then .ok t
  else .error (.shapeMismatch "elementwise operation" s t)

/-- The shape of the matrix product of an `(m, n)` and an `(n, p)` matrix. -/
def product (s t : Shape) : Except Error Shape :=
  if s.cols = t.rows then
    .ok { rows := s.rows, cols := t.cols, rows_pos := s.rows_pos, cols_pos := t.cols_pos }
  else .error (.shapeMismatch "matrix multiplication" s t)

/-- The shape of a product in which a scalar factor scales the other one. -/
def times (s t : Shape) : Except Error Shape :=
  if s.isScalar then .ok t
  else if t.isScalar then .ok s
  else s.product t

/-! ### Laws -/

@[simp] theorem broadcast_self (s : Shape) : s.broadcast s = .ok s := by
  simp [broadcast]

@[simp] theorem broadcast_scalar (s : Shape) : s.broadcast scalar = .ok s := by
  simp [broadcast, show scalar.isScalar = true from rfl]

@[simp] theorem scalar_broadcast (s : Shape) : scalar.broadcast s = .ok s := by
  by_cases h : s = scalar
  · subst h
    simp
  · have hs : s.isScalar = false := Bool.eq_false_iff.2 (mt (isScalar_iff s).1 h)
    simp [broadcast, hs, Ne.symm h, show scalar.isScalar = true from rfl]

/-- An entrywise combination takes the shape of whichever operand is no scalar, and is refused where
two such operands are of different shapes. -/
theorem broadcast_or_mismatch (s t : Shape) :
    (∃ r, s.broadcast t = .ok r ∧ (s.isScalar = false → r = s) ∧ (t.isScalar = false → r = t) ∧
      (s = scalar → t = scalar → r = scalar)) ∨
    s.isScalar = false ∧ t.isScalar = false ∧ s ≠ t ∧
      s.broadcast t = .error (.shapeMismatch "elementwise operation" s t) := by
  rcases hs : s.isScalar
  · rcases ht : t.isScalar
    · by_cases hst : s = t
      · subst hst
        exact .inl ⟨s, broadcast_self s, fun _ => rfl, fun _ => rfl, fun h _ => h⟩
      · exact .inr ⟨rfl, rfl, hst, by simp [broadcast, hst, ht, hs]⟩
    · rw [(isScalar_iff t).1 ht]
      exact .inl ⟨s, broadcast_scalar s, fun _ => rfl, nofun, fun h _ => h⟩
  · rw [(isScalar_iff s).1 hs]
    exact .inl ⟨t, scalar_broadcast t, nofun, fun _ => rfl, fun _ h => h⟩

/-- Transposing both factors and changing their order transposes the product. -/
theorem times_transpose {s t r : Shape} (h : s.times t = .ok r) :
    t.transpose.times s.transpose = .ok r.transpose := by
  simp only [times, isScalar_transpose] at h ⊢
  by_cases hs : s.isScalar = true
  · by_cases ht : t.isScalar = true
    · have es := (isScalar_iff s).1 hs
      have et := (isScalar_iff t).1 ht
      subst es et
      simp_all
    · simp_all
  · by_cases ht : t.isScalar = true
    · simp_all
    · simp only [hs, ht, if_false, Bool.false_eq_true, product] at h ⊢
      split at h
      · rename_i hc
        simp only [Except.ok.injEq] at h
        subst h
        simp [transpose, hc]
      · simp at h

end DisciplinedConvex.Shape
