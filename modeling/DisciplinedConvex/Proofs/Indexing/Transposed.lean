/-
DisciplinedConvex/Proofs/Indexing/Transposed.lean

Indexing a transpose is transposing what is indexed.

A selection of a transpose is the selection with its slices exchanged
(`Selection.transpose`), both for shapes and for values.  Resolution follows: a
key with its selectors exchanged resolves on the transposed shape just where the
key itself resolves, and a key of one selector resolves on a column and on its
transpose alike, up to the axis that an error names (`Error.onAxis`).  Of a key of
two selectors only success is symmetric: where both are refused, each side names
its own rows.
-/
import DisciplinedConvex.Proofs.Graph.Built
import DisciplinedConvex.Proofs.Indexing.Resolution
import DisciplinedConvex.Proofs.Soundness.Shape

namespace DisciplinedConvex

/-! ### Selections with their slices exchanged -/

/-- The slices of rows and columns change places. -/
def Selection.transpose (s : Selection) : Selection where
  rows := s.cols
  cols := s.rows

theorem Selection.shape_transpose {s : Selection} {t : Shape} (h : s.shape = .ok t) :
    s.transpose.shape = .ok t.transpose :=
  shape_eq_ok_iff.2 (shape_eq_ok_iff.1 h).symm

namespace Mat

variable {K : Type} [OrderedField K]

theorem transpose_ofFn (rows cols : ℕ) (f : ℕ → ℕ → K) :
    (ofFn rows cols f).transpose = ofFn cols rows fun i j => f j i := by
  refine Mat.ext rfl rfl ?_
  funext i j
  simp only [entry_transpose, entry_ofFn, and_comm]

theorem select_of_counts (a : Mat K) {s : Selection} {m n : UInt64} (hm : s.rows.count = .ok m)
    (hn : s.cols.count = .ok n) :
    a.select s =
      if (∀ i < m.toNat, s.rows.place i < a.rows) ∧ ∀ j < n.toNat, s.cols.place j < a.cols then
        .ok (ofFn m.toNat n.toNat fun i j => a.entry (s.rows.place i) (s.cols.place j))
      else .error .outOfRange := by
  simp only [select, hm, hn]

/-- Selecting from a transpose is transposing what is selected. -/
theorem select_transpose (a : Mat K) (s : Selection) :
    a.transpose.select s.transpose = (a.select s).map transpose := by
  rcases hm : s.rows.count with e | m <;> rcases hn : s.cols.count with e' | n
  case ok.ok =>
    -- the positions that have to lie inside are asked for in the other order
    rw [a.select_of_counts hm hn, a.transpose.select_of_counts (s := s.transpose) hn hm]
    by_cases h : (∀ i < m.toNat, s.rows.place i < a.rows) ∧ ∀ j < n.toNat, s.cols.place j < a.cols
    · rw [if_pos h]
      refine (if_pos h.symm).trans (congrArg Except.ok ?_)
      exact (transpose_ofFn m.toNat n.toNat _).symm
    · rw [if_neg h]
      exact if_neg fun h' => h h'.symm
  all_goals simp only [select, Selection.transpose, hm, hn, Except.map]

end Mat

/-! ### Resolution on a transposed shape -/

/-- The error as it is reported for another axis. -/
def Error.onAxis (axis : UInt64) : Error → Error
  | indexOutOfBounds index size _ => indexOutOfBounds index size axis
  | emptySelection _ => emptySelection axis
  | e => e

/-- The axis matters for the error and for nothing else. -/
theorem Selector.resolve_onAxis (sel : Selector) (size axis axis' : UInt64) :
    sel.resolve size axis' = (sel.resolve size axis).mapError (Error.onAxis axis') := by
  cases sel with
  | index i =>
    simp only [resolve]
    split_ifs <;> rfl
  | range start stop step =>
    simp only [resolve]
    split_ifs <;> rfl
  | all => rfl

theorem Selector.resolve_ok_onAxis {sel : Selector} {size axis : UInt64} {s : Slice}
    (h : sel.resolve size axis = .ok s) (axis' : UInt64) : sel.resolve size axis' = .ok s := by
  rw [sel.resolve_onAxis size axis axis', h]
  rfl

theorem Selector.resolve_error_onAxis {sel : Selector} {size axis : UInt64} {e : Error}
    (h : sel.resolve size axis = .error e) (axis' : UInt64) :
    sel.resolve size axis' = .error (e.onAxis axis') := by
  rw [sel.resolve_onAxis size axis axis', h]
  rfl

namespace Key

variable {shape : Shape} {s : Selection} {row col sel : Selector}

theorem selectors_single_row (sel : Selector) (h : shape.rows = 1) :
    (single sel).selectors shape = (.all, sel) :=
  if_pos ⟨rfl, h⟩

theorem selectors_single (sel : Selector) (h : shape.rows ≠ 1) :
    (single sel).selectors shape = (sel, .all) :=
  if_neg fun hs => h hs.2

theorem resolve_transpose (h : (pair row col).resolve shape = .ok s) :
    (pair col row).resolve shape.transpose = .ok s.transpose := by
  obtain ⟨hrow, hcol⟩ := resolve_eq_ok_iff.1 h
  exact resolve_eq_ok_iff.2
    ⟨Selector.resolve_ok_onAxis hcol 0, Selector.resolve_ok_onAxis hrow 1⟩

theorem exists_resolve_transpose_iff :
    (∃ s, (pair col row).resolve shape.transpose = .ok s) ↔
      ∃ s, (pair row col).resolve shape = .ok s := by
  rw [exists_resolve_iff, exists_resolve_iff]
  exact and_comm

/-- One selector runs along a column as it does along the transpose. -/
theorem resolve_single_cases (hcols : shape.cols = 1) (hrows : shape.rows ≠ 1) (sel : Selector) :
    (∃ s, (single sel).resolve shape = .ok s ∧
      (single sel).resolve shape.transpose = .ok s.transpose ∧ s.cols = Slice.whole 1) ∨
    ∃ e : Error, (single sel).resolve shape = .error (e.onAxis 0) ∧
      (single sel).resolve shape.transpose = .error (e.onAxis 1) := by
  have hwhole : Selector.all.resolve shape.cols 1 = .ok (Slice.whole 1) := by
    rw [hcols]
    rfl
  have hsel := selectors_single sel hrows
  have hsel' : (single sel).selectors shape.transpose = (.all, sel) :=
    selectors_single_row sel hcols
  rcases h : sel.resolve shape.rows 0 with e | rows
  · refine .inr ⟨e, ?_, ?_⟩
    · rw [resolve_eq_error_iff, hsel]
      exact .inl (Selector.resolve_error_onAxis h 0)
    · rw [resolve_eq_error_iff, hsel']
      exact .inr ⟨⟨_, rfl⟩, Selector.resolve_error_onAxis h 1⟩
  · refine .inl ⟨⟨rows, Slice.whole 1⟩, ?_, ?_, rfl⟩
    · rw [resolve_eq_ok_iff, hsel]
      exact ⟨h, hwhole⟩
    · rw [resolve_eq_ok_iff, hsel']
      exact ⟨Selector.resolve_ok_onAxis hwhole 0, Selector.resolve_ok_onAxis h 1⟩

end Key

/-! ### Indexed expressions -/

/-- One expression is what another is with rows and columns exchanged. -/
structure Expr.TransposeOf (b a : Expr) : Prop where
  shape : b.shape = a.shape.transpose
  curvature : b.curvature = a.curvature
  sign : b.sign = a.sign
  eval : ∀ (K : Type) [OrderedField K] (x : Assignment K),
    b.eval x = (a.eval x).map Mat.transpose

/-- The same part of an expression and of its transpose, with the slices exchanged. -/
theorem Expr.transposeOf_index (a : Expr) (s : Selection) (t : Shape) (i j k : ℕ) :
    let aT : Expr := .transpose ⟨k, a.attributes.transpose⟩ a
    (Expr.index ⟨j, aT.attributes.select t.transpose⟩ aT s.transpose).TransposeOf
      (.index ⟨i, a.attributes.select t⟩ a s) where
  shape := rfl
  curvature := rfl
  sign := rfl
  eval K _ x := by
    rcases hv : a.eval x with u | v
    · rw [eval, eval, eval, hv]
      rfl
    · rw [eval, eval, eval, hv]
      exact v.select_transpose s

namespace Build

/-- Indexing a transpose with the selectors exchanged is transposing what is indexed.  A column and
its transpose are indexed alike by one selector: the same entries in the same order, or the same
error, on axis 0 and on axis 1. -/
theorem indexed_transposed {x : Expr} (hx : x.isScalar = false) (l₀ : Ledger) :
    ∃ t l₁, (transposed x).perform l₀ = (.ok t, l₁) ∧
      (∀ row col l l',
        ((∃ b, ((indexed t (.pair col row)).perform l').1 = .ok b) ↔
          ∃ a, ((indexed x (.pair row col)).perform l).1 = .ok a) ∧
        ∀ a b, ((indexed x (.pair row col)).perform l).1 = .ok a →
          ((indexed t (.pair col row)).perform l').1 = .ok b → b.TransposeOf a) ∧
      (x.shape.cols = 1 → ∀ sel l l',
        (∃ i j s, ((indexed x (.single sel)).perform l).1 = .ok (.index i x s) ∧
          ((indexed t (.single sel)).perform l').1 = .ok (.index j t s.transpose) ∧
          s.cols = Slice.whole 1 ∧
          (Expr.index j t s.transpose).TransposeOf (.index i x s)) ∨
        ∃ e : Error,
          ((indexed x (.single sel)).perform l).1 = .error (.rejected (e.onAxis 0)) ∧
          ((indexed t (.single sel)).perform l').1 = .error (.rejected (e.onAxis 1))) := by
  have hxT (k : ℕ) : (Expr.transpose ⟨k, x.attributes.transpose⟩ x).isScalar = false :=
    (Shape.isScalar_transpose x.shape).trans hx
  obtain ⟨t, built, l₁, ht, htransposes, -⟩ := perform_transposed x l₀
  cases htransposes with
  | scalar hs => exact absurd (hx.symm.trans hs) Bool.false_ne_true
  | matrix _ k =>
    refine ⟨_, l₁, ht, fun row col l l' => ⟨?_, fun a b ha hb => ?_⟩, fun hcols sel l l' => ?_⟩
    · rw [exists_indexed_iff hx, exists_indexed_iff (hxT k)]
      exact Key.exists_resolve_transpose_iff
    · obtain ⟨s, r, hs, hr, rfl⟩ := (indexed_eq_ok_iff hx).1 ha
      obtain ⟨s', r', hs', hr', rfl⟩ := (indexed_eq_ok_iff (hxT k)).1 hb
      obtain rfl := Except.ok.inj (hs'.symm.trans (Key.resolve_transpose hs))
      obtain rfl := Except.ok.inj (hr'.symm.trans (Selection.shape_transpose hr))
      exact Expr.transposeOf_index x s r _ _ k
    · have hrows : x.shape.rows ≠ 1 := fun h => by
        have hscalar : x.shape = .scalar := Shape.ext_dims h hcols
        exact absurd ((Shape.isScalar_iff _).2 hscalar) (Bool.eq_false_iff.1 hx)
      rcases Key.resolve_single_cases hcols hrows sel with ⟨s, hs, hs', hwhole⟩ | ⟨e, he, he'⟩
      · obtain ⟨r, l₂, hr, hl₂, -⟩ := perform_indexed hx hs l
        have hindexed := (indexed_eq_ok_iff (l := l') (hxT k)).2
          ⟨_, _, hs', Selection.shape_transpose hr, rfl⟩
        exact .inl ⟨_, _, s, congrArg Prod.fst hl₂, hindexed, hwhole,
          Expr.transposeOf_index x s r _ _ k⟩
      · exact .inr ⟨e, congrArg Prod.fst (perform_indexed_of_error hx he l),
          congrArg Prod.fst (perform_indexed_of_error (hxT k) he' l')⟩

/-- Every second entry of five. -/
theorem indexed_transposed_column :
    let shape : Shape := { rows := 5, cols := 1 }
    let column : Expr := .var ⟨0, .affine, .unknown, shape⟩ { shape }
    ∃ t l₁, (transposed column).perform (.startingAt 1) = (.ok t, l₁) ∧
      ∃ i j s, ((indexed column (.single (.range 0 5 2))).perform l₁).1 = .ok (.index i column s) ∧
        ((indexed t (.single (.range 0 5 2))).perform l₁).1 = .ok (.index j t s.transpose) ∧
        s = ⟨⟨0, 5, 2⟩, Slice.whole 1⟩ := by
  intro shape column
  obtain ⟨t, l₁, ht, -, hsingle⟩ := indexed_transposed (x := column) rfl (.startingAt 1)
  refine ⟨t, l₁, ht, ?_⟩
  have hkey : (Key.single (.range 0 5 2)).resolve column.shape =
      .ok ⟨⟨0, 5, 2⟩, Slice.whole 1⟩ := rfl
  obtain ⟨r, l₂, hr, hl₂, -⟩ := perform_indexed (a := column) rfl hkey l₁
  rcases hsingle rfl (.range 0 5 2) l₁ l₁ with ⟨i, j, s, hs, hs', -, -⟩ | ⟨e, he, -⟩
  · rw [hl₂] at hs
    obtain ⟨rfl, -, rfl⟩ := Expr.index.inj (Except.ok.inj hs)
    exact ⟨_, j, _, congrArg Prod.fst hl₂, hs', rfl⟩
  · rw [hl₂] at he
    cases he

end Build

end DisciplinedConvex
