/-
DisciplinedConvex/Proofs/Indexing/Slice.lean

Slices that lie on an axis.

`Slice.Fits` says that a slice holds a position and that all of its positions
are positions of an axis of a given size.  On such a slice the arithmetic of
64-bit words never wraps: it counts `start + i * step < stop` (`lt_count_iff`),
and `place` is the position meant (`place_eq`), so it stays on the axis
(`place_lt`).  Every slice that a selector resolves to fits (`resolve_fits`).
-/
import Mathlib
import DisciplinedConvex.Key

namespace DisciplinedConvex

/-- The `i`-th position of a slice, read as a number. -/
def Slice.place (s : Slice) (i : ℕ) : ℕ := (s.position (.ofNat i)).toNat

/-- The slice holds a position, and its positions lie on an axis of the given size. -/
structure Slice.Fits (s : Slice) (size : UInt64) : Prop where
  start_lt : s.start < s.stop
  stop_le : s.stop ≤ size
  step_ne : s.step ≠ 0

/-- Both slices lie on the axes of a shape. -/
structure Selection.Fits (s : Selection) (shape : Shape) : Prop where
  rows : s.rows.Fits shape.rows
  cols : s.cols.Fits shape.cols

namespace Slice

/-! ### Counting without wrapping -/

/-- `i` steps stay below a length exactly for `i` below the length over the step, rounded up. -/
theorem lt_ceilDiv_iff {length step : ℕ} (hs : 0 < step) (i : ℕ) :
    i < (if length % step = 0 then length / step else length / step + 1) ↔ i * step < length := by
  have hd := Nat.div_add_mod' length step
  have hm := Nat.mod_lt length hs
  by_cases hr : length % step = 0
  · rw [if_pos hr, Nat.lt_div_iff_mul_lt' (Nat.dvd_of_mod_eq_zero hr)]
    rw [Nat.mul_comm]
  · rw [if_neg hr, Nat.lt_succ_iff]
    constructor
    · intro hi
      have := Nat.mul_le_mul_right step hi
      omega
    · intro hi
      exact (Nat.le_div_iff_mul_le hs).2 hi.le

variable {s : Slice} {size : UInt64}

theorem Fits.step_pos (h : s.Fits size) : 0 < s.step.toNat :=
  UInt64.lt_iff_toNat_lt.1 (UInt64.pos_iff_ne_zero.2 h.step_ne)

/-- The count of a slice that fits, as a number. -/
theorem Fits.count_eq (h : s.Fits size) : ∃ n : UInt64, s.count = .ok n ∧
    n.toNat = (if (s.stop.toNat - s.start.toNat) % s.step.toNat = 0
      then (s.stop.toNat - s.start.toNat) / s.step.toNat
      else (s.stop.toNat - s.start.toNat) / s.step.toNat + 1) := by
  have hlen : (s.stop - s.start).toNat = s.stop.toNat - s.start.toNat :=
    UInt64.toNat_sub_of_le _ _ (UInt64.le_of_lt h.start_lt)
  have hmod : (s.stop - s.start) % s.step = 0 ↔
      (s.stop.toNat - s.start.toNat) % s.step.toNat = 0 := by
    rw [← UInt64.toNat_inj, UInt64.toNat_mod, hlen]
    rfl
  simp only [count, if_neg h.step_ne, hmod]
  by_cases hr : (s.stop.toNat - s.start.toNat) % s.step.toNat = 0
  · rw [if_pos hr, if_pos hr]
    exact ⟨_, rfl, by rw [UInt64.toNat_div, hlen]⟩
  · rw [if_neg hr, if_neg hr]
    refine ⟨_, rfl, ?_⟩
    -- rounding up stays below the length, which is a word
    have hlt : (s.stop.toNat - s.start.toNat) / s.step.toNat < 2 ^ 64 - 1 := by
      have hd := Nat.div_add_mod' (s.stop.toNat - s.start.toNat) s.step.toNat
      have hq := Nat.le_mul_of_pos_right
        ((s.stop.toNat - s.start.toNat) / s.step.toNat) h.step_pos
      have := s.stop.toNat_lt
      omega
    rw [UInt64.toNat_add, UInt64.toNat_div, hlen, UInt64.toNat_one, Nat.mod_eq_of_lt (by omega)]

/-- A slice that fits holds exactly the positions below its stop. -/
theorem Fits.lt_count_iff (h : s.Fits size) {n : UInt64} (hn : s.count = .ok n) (i : ℕ) :
    i < n.toNat ↔ s.start.toNat + i * s.step.toNat < s.stop.toNat := by
  obtain ⟨m, hm, hval⟩ := h.count_eq
  obtain rfl : n = m := Except.ok.inj (hn.symm.trans hm)
  have := UInt64.lt_iff_toNat_lt.1 h.start_lt
  rw [hval, lt_ceilDiv_iff h.step_pos]
  omega

theorem Fits.count_pos (h : s.Fits size) {n : UInt64} (hn : s.count = .ok n) : 0 < n := by
  have hlt := UInt64.lt_iff_toNat_lt.1 h.start_lt
  have hpos : 0 < n.toNat := by
    rw [h.lt_count_iff hn]
    omega
  exact UInt64.lt_iff_toNat_lt.2 hpos

/-! ### Positions without wrapping -/

theorem Fits.place_eq (h : s.Fits size) {n : UInt64} (hn : s.count = .ok n) {i : ℕ}
    (hi : i < n.toNat) : s.place i = s.start.toNat + i * s.step.toNat := by
  have hlt := (h.lt_count_iff hn i).1 hi
  have hstop := s.stop.toNat_lt
  have hword : i < 2 ^ 64 := hi.trans n.toNat_lt
  have hmul : i * s.step.toNat < 2 ^ 64 := by omega
  rw [place, position, UInt64.toNat_add, UInt64.toNat_mul, UInt64.toNat_ofNat_of_lt' hword,
    Nat.mod_eq_of_lt hmul, Nat.mod_eq_of_lt (hlt.trans hstop)]

theorem Fits.place_lt (h : s.Fits size) {n : UInt64} (hn : s.count = .ok n) {i : ℕ}
    (hi : i < n.toNat) : s.place i < size.toNat := by
  rw [h.place_eq hn hi]
  exact ((h.lt_count_iff hn i).1 hi).trans_le (UInt64.le_iff_toNat_le.1 h.stop_le)

/-! ### Slices that are resolved fit -/

/-- A position on an axis has a successor among the words. -/
theorem toNat_stop_single {i size : UInt64} (h : i < size) :
    (single i).stop.toNat = i.toNat + 1 := by
  have hi := UInt64.lt_iff_toNat_lt.1 h
  have hsize := size.toNat_lt
  rw [single, UInt64.toNat_add, UInt64.toNat_one, Nat.mod_eq_of_lt (by omega)]

theorem single_fits {i size : UInt64} (h : i < size) : (single i).Fits size := by
  have hi := UInt64.lt_iff_toNat_lt.1 h
  have hstop := toNat_stop_single h
  refine ⟨?_, ?_, (by decide : (1 : UInt64) ≠ 0)⟩
  · rw [UInt64.lt_iff_toNat_lt, hstop]
    exact Nat.lt_succ_self i.toNat
  · rw [UInt64.le_iff_toNat_le, hstop]
    exact hi

theorem whole_fits {size : UInt64} (h : 0 < size) : (whole size).Fits size :=
  ⟨h, UInt64.le_refl size, (by decide : (1 : UInt64) ≠ 0)⟩

end Slice

theorem Selector.resolve_fits {sel : Selector} {size axis : UInt64} (h : 0 < size) {s : Slice}
    (hs : sel.resolve size axis = .ok s) : s.Fits size := by
  cases sel with
  | index i =>
    simp only [resolve] at hs
    split at hs
    · rename_i hi
      obtain rfl := Except.ok.inj hs
      exact Slice.single_fits hi
    · cases hs
  | range start stop step =>
    simp only [resolve] at hs
    split at hs
    · cases hs
    split at hs
    · rename_i hstep hlt
      obtain rfl := Except.ok.inj hs
      have hle : min stop size ≤ size := by
        show (if stop ≤ size then stop else size) ≤ size
        split
        · assumption
        · exact UInt64.le_refl size
      exact ⟨hlt, hle, hstep⟩
    · cases hs
  | all =>
    obtain rfl := Except.ok.inj hs
    exact Slice.whole_fits h

theorem Key.resolve_eq_ok_iff {k : Key} {shape : Shape} {s : Selection} :
    k.resolve shape = .ok s ↔
      (k.selectors shape).1.resolve shape.rows 0 = .ok s.rows ∧
        (k.selectors shape).2.resolve shape.cols 1 = .ok s.cols := by
  obtain ⟨rows', cols'⟩ := s
  rcases hrow : (k.selectors shape).1.resolve shape.rows 0 with e | rows
  · simp [resolve, hrow, bind, Except.bind]
  rcases hcol : (k.selectors shape).2.resolve shape.cols 1 with e | cols
  · simp [resolve, hrow, hcol, bind, Except.bind]
  · simp [resolve, hrow, hcol, bind, Except.bind, pure, Except.pure]

/-- A key resolves to slices that lie on the axes. -/
theorem Key.resolve_fits {k : Key} {shape : Shape} {s : Selection}
    (hs : k.resolve shape = .ok s) : s.Fits shape := by
  obtain ⟨hrow, hcol⟩ := resolve_eq_ok_iff.1 hs
  exact ⟨Selector.resolve_fits shape.rows_pos hrow, Selector.resolve_fits shape.cols_pos hcol⟩

/-- The selection of a single entry lies on the axes if the entry does. -/
theorem Selection.entry_fits {row col : UInt64} {shape : Shape} (hr : row < shape.rows)
    (hc : col < shape.cols) : (Selection.entry row col).Fits shape :=
  ⟨Slice.single_fits hr, Slice.single_fits hc⟩

/-- The shape of a selection is made of its counts. -/
theorem Selection.counts_of_shape {s : Selection} {t : Shape} (h : s.shape = .ok t) :
    s.rows.count = .ok t.rows ∧ s.cols.count = .ok t.cols := by
  simp only [Selection.shape, bind, Except.bind] at h
  split at h
  · cases h
  rename_i m hm
  split at h
  · cases h
  rename_i n hn
  by_cases hpos : 0 < m ∧ 0 < n
  · simp only [Shape.ofDims, Shape.ofDims?, dif_pos hpos, Except.mapError] at h
    obtain rfl := Except.ok.inj h
    exact ⟨hm, hn⟩
  · simp [Shape.ofDims, Shape.ofDims?, hpos, Except.mapError] at h

theorem Selection.shape_eq_ok_iff {s : Selection} {t : Shape} :
    s.shape = .ok t ↔ s.rows.count = .ok t.rows ∧ s.cols.count = .ok t.cols := by
  refine ⟨counts_of_shape, fun ⟨hm, hn⟩ => ?_⟩
  simp only [shape, hm, hn, bind, Except.bind, Shape.ofDims, Shape.ofDims?_dims, Except.mapError]

/-- A selection that lies on the axes of a shape has a shape. -/
theorem Selection.Fits.shape_ok {s : Selection} {shape : Shape} (h : s.Fits shape) :
    ∃ t, s.shape = .ok t := by
  obtain ⟨m, hm, -⟩ := h.rows.count_eq
  obtain ⟨n, hn, -⟩ := h.cols.count_eq
  exact ⟨⟨m, n, h.rows.count_pos hm, h.cols.count_pos hn⟩, shape_eq_ok_iff.2 ⟨hm, hn⟩⟩

end DisciplinedConvex
