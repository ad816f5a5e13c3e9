/-
DisciplinedConvex/Proofs/Exact/Dimension.lean

Matrices of a shape.

`Mat.HasShape` ties the dimensions of a matrix to a shape.  Where two shapes may
meet in an operation, two matrices of these shapes may meet in it too, and the
result has the shape that comes out (`add_of_hasShape`, `mul_of_hasShape`,
`div_of_hasShape`, `select_of_hasShape`).
-/
import DisciplinedConvex.Proofs.Exact.Mat

namespace DisciplinedConvex

namespace Mat

variable {K : Type} [OrderedField K]

/-- The dimensions are those of a shape. -/
structure HasShape (a : Mat K) (s : Shape) : Prop where
  rows : a.rows = s.rows.toNat
  cols : a.cols = s.cols.toNat

variable {a b k : Mat K} {s t r : Shape}

theorem hasShape_ofFn (s : Shape) (f : ℕ → ℕ → K) :
    (ofFn s.rows.toNat s.cols.toNat f).HasShape s := ⟨rfl, rfl⟩

theorem HasShape.neg (h : a.HasShape s) : a.neg.HasShape s := ⟨h.rows, h.cols⟩

theorem HasShape.scale (k : K) (h : a.HasShape s) : (scale k a).HasShape s := ⟨h.rows, h.cols⟩

theorem HasShape.transpose (h : a.HasShape s) : a.transpose.HasShape s.transpose :=
  ⟨h.cols, h.rows⟩

/-- The scalars among the matrices of a shape are told by the shape. -/
theorem HasShape.isScalar_iff (h : a.HasShape s) : a.IsScalar ↔ s.isScalar = true := by
  have one (n : UInt64) : n.toNat = 1 ↔ n = 1 := by
    rw [← UInt64.toNat_inj]
    rfl
  simp only [IsScalar, h.rows, h.cols, one, Shape.isScalar, Bool.and_eq_true, beq_iff_eq]

/-- Matrices of one shape have the same dimensions. -/
theorem HasShape.dims_eq (ha : a.HasShape s) (hb : b.HasShape s) :
    a.rows = b.rows ∧ a.cols = b.cols :=
  ⟨ha.rows.trans hb.rows.symm, ha.cols.trans hb.cols.symm⟩

theorem HasShape.dims_eq_iff (ha : a.HasShape s) (hb : b.HasShape t) :
    (a.rows = b.rows ∧ a.cols = b.cols) ↔ s = t := by
  rw [ha.rows, ha.cols, hb.rows, hb.cols, UInt64.toNat_inj, UInt64.toNat_inj]
  exact ⟨fun h => Shape.ext_dims h.1 h.2, by rintro rfl; exact ⟨rfl, rfl⟩⟩

/-! ### Operations -/

theorem common_of_hasShape (ha : a.HasShape s) (hb : b.HasShape t) (h : s.broadcast t = .ok r) :
    common a b = .ok (r.rows.toNat, r.cols.toNat) := by
  simp only [common, ha.dims_eq_iff hb, ha.isScalar_iff, hb.isScalar_iff]
  simp only [Shape.broadcast, Bool.or_eq_true, decide_eq_true_eq] at h
  split at h
  · rename_i hst
    obtain rfl := Except.ok.inj h
    rw [if_pos hst, ha.rows, ha.cols]
  split at h
  · rename_i hst hs
    obtain rfl := Except.ok.inj h
    rw [if_neg hst, if_pos hs, hb.rows, hb.cols]
  · cases h

/-- A sum of matrices whose shapes may meet, entry by entry. -/
theorem add_of_hasShape (ha : a.HasShape s) (hb : b.HasShape t) (h : s.broadcast t = .ok r) :
    a.add b = .ok (ofFn r.rows.toNat r.cols.toNat fun i j => a.spread i j + b.spread i j) := by
  rw [add, common_of_hasShape ha hb h]
  rfl

theorem mul_of_hasShape (ha : a.HasShape s) (hb : b.HasShape t) (h : s.times t = .ok r) :
    ∃ v, a.mul b = .ok v ∧ v.HasShape r := by
  simp only [mul, ha.isScalar_iff, hb.isScalar_iff]
  simp only [Shape.times, Shape.product] at h
  split at h
  · rename_i hs
    obtain rfl := Except.ok.inj h
    exact ⟨_, if_pos hs, hb.scale _⟩
  split at h
  · rename_i hs ht
    obtain rfl := Except.ok.inj h
    rw [if_neg hs, if_pos ht]
    exact ⟨_, rfl, ha.scale _⟩
  split at h
  · rename_i hs ht hinner
    obtain rfl := Except.ok.inj h
    rw [if_neg hs, if_neg ht, if_pos (by rw [ha.cols, hb.rows, hinner])]
    exact ⟨_, rfl, ha.rows, hb.cols⟩
  · cases h

/-- A quotient by a scalar, unless the divisor is zero. -/
theorem div_of_hasShape (ha : a.HasShape s) (hk : k.HasShape t)
    (ht : t.isScalar = true) (h : k.number ≠ 0) :
    ∃ v, a.div k = .ok v ∧ v.HasShape s :=
  ⟨_, div_eq_scale (hk.isScalar_iff.2 ht) h, ha.scale _⟩

/-- A part of a matrix on which the selection lies. -/
theorem select_of_hasShape {sel : Selection} (ha : a.HasShape s) (hsel : sel.Fits s)
    (h : sel.shape = .ok r) :
    a.select sel = .ok (ofFn r.rows.toNat r.cols.toNat fun i j =>
      a.entry (sel.rows.place i) (sel.cols.place j)) := by
  obtain ⟨hrows, hcols⟩ := Selection.counts_of_shape h
  simp only [select, hrows, hcols]
  refine if_pos ⟨fun i hi => ?_, fun j hj => ?_⟩
  · rw [ha.rows]
    exact hsel.rows.place_lt hrows hi
  · rw [ha.cols]
    exact hsel.cols.place_lt hcols hj

end Mat

end DisciplinedConvex
