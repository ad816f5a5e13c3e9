/-
DisciplinedConvex/Proofs/Indexing/Resolution.lean

Which positions a key picks, and when it is refused.

What a selector asks for is told apart from the slices that answer it:
`Selector.Valid` says when there is something to pick, `Selector.picked` is the
set of positions asked for, and `Selector.Refused` lists the errors.  A slice
that lies on an axis is counted and placed as if its words were numbers
(`Slice.Fits.inWords`), and it goes through its positions in increasing order
(`Slice.Fits.strictMonoOn_place`) without leaving one out
(`Slice.Fits.image_place`).  Both meet in `Key.resolve_exact`.
-/
import DisciplinedConvex.Proofs.Indexing.Slice

namespace DisciplinedConvex

/-! ### Slices as sets of positions -/

namespace Slice

/-- The positions that a slice describes. -/
def members (s : Slice) : Set ℕ :=
  {p | s.start.toNat ≤ p ∧ p < s.stop.toNat ∧ s.step.toNat ∣ p - s.start.toNat}

/-- Counting a slice and placing its `n` positions never goes below zero, leaves the words or
divides by zero, so that the results are those of exact arithmetic. -/
structure InWords (s : Slice) (n : UInt64) : Prop where
  step_pos : 0 < s.step.toNat
  start_le : s.start.toNat ≤ s.stop.toNat
  rounded_lt : (s.stop.toNat - s.start.toNat) % s.step.toNat ≠ 0 →
    (s.stop.toNat - s.start.toNat) / s.step.toNat + 1 < 2 ^ 64
  count_eq : s.count = .ok n
  toNat_count : n.toNat = (s.stop.toNat - s.start.toNat) ⌈/⌉ s.step.toNat
  product_lt : ∀ i < n.toNat, i * s.step.toNat < 2 ^ 64
  sum_lt : ∀ i < n.toNat, s.start.toNat + i * s.step.toNat < 2 ^ 64
  place_eq : ∀ i < n.toNat, s.place i = s.start.toNat + i * s.step.toNat

variable {s : Slice} {size n : UInt64}

/-- A slice that lies on an axis has as many positions as its length holds steps, rounded up. -/
theorem Fits.toNat_count (h : s.Fits size) (hn : s.count = .ok n) :
    n.toNat = (s.stop.toNat - s.start.toNat) ⌈/⌉ s.step.toNat := by
  -- both numbers have the same numbers below them
  refine Nat.le_antisymm (Nat.le_of_not_lt fun hlt => ?_) (Nat.le_of_not_lt fun hlt => ?_)
  · have hin := (h.lt_count_iff hn _).1 hlt
    have hle := (ceilDiv_le_iff_le_mul h.step_pos).1
      (le_refl ((s.stop.toNat - s.start.toNat) ⌈/⌉ s.step.toNat))
    rw [Nat.mul_comm] at hle
    omega
  · have hout : ¬ s.start.toNat + n.toNat * s.step.toNat < s.stop.toNat := fun hin =>
      lt_irrefl _ ((h.lt_count_iff hn _).2 hin)
    have hle : s.stop.toNat - s.start.toNat ≤ s.step.toNat * n.toNat := by
      rw [Nat.mul_comm]
      omega
    exact absurd ((ceilDiv_le_iff_le_mul h.step_pos).2 hle) (not_le.2 hlt)

theorem Fits.inWords (h : s.Fits size) (hn : s.count = .ok n) : s.InWords n := by
  have hlt := UInt64.lt_iff_toNat_lt.1 h.start_lt
  have hstop := s.stop.toNat_lt
  have hsum (i : ℕ) (hi : i < n.toNat) : s.start.toNat + i * s.step.toNat < 2 ^ 64 :=
    ((h.lt_count_iff hn i).1 hi).trans hstop
  refine ⟨h.step_pos, hlt.le, fun hr => ?_, hn, h.toNat_count hn, fun i hi => ?_, hsum,
    fun i hi => h.place_eq hn hi⟩
  · -- the rounded quotient is the count itself, which is a word
    obtain ⟨m, hm, hval⟩ := h.count_eq
    rw [if_neg hr] at hval
    rw [← hval]
    exact m.toNat_lt
  · have := hsum i hi
    omega

theorem Fits.strictMonoOn_place (h : s.Fits size) (hn : s.count = .ok n) :
    StrictMonoOn s.place (Set.Iio n.toNat) := by
  intro i hi j hj hij
  rw [h.place_eq hn hi, h.place_eq hn hj]
  have := Nat.mul_lt_mul_of_pos_right hij h.step_pos
  omega

/-- The positions of a slice, one after another, are those that it describes. -/
theorem Fits.image_place (h : s.Fits size) (hn : s.count = .ok n) :
    s.place '' Set.Iio n.toNat = s.members := by
  ext p
  constructor
  · rintro ⟨i, hi, rfl⟩
    have hlt := (h.lt_count_iff hn i).1 hi
    rw [h.place_eq hn hi]
    refine ⟨Nat.le_add_right _ _, hlt, ?_⟩
    rw [Nat.add_sub_cancel_left]
    exact Nat.dvd_mul_left _ _
  · rintro ⟨hstart, hstop, i, hi⟩
    have hp : s.start.toNat + i * s.step.toNat = p := by
      rw [Nat.mul_comm, ← hi]
      omega
    have hlt : i < n.toNat := (h.lt_count_iff hn i).2 (by rwa [hp])
    exact ⟨i, hlt, (h.place_eq hn hlt).trans hp⟩

theorem members_single {i : UInt64} (h : i < size) : (single i).members = {i.toNat} := by
  ext p
  show i.toNat ≤ p ∧ p < (single i).stop.toNat ∧ 1 ∣ p - i.toNat ↔ p = i.toNat
  rw [toNat_stop_single h]
  simp only [one_dvd, and_true]
  omega

theorem members_whole (size : UInt64) : (whole size).members = {p | p < size.toNat} := by
  ext p
  show 0 ≤ p ∧ p < size.toNat ∧ 1 ∣ p - 0 ↔ p < size.toNat
  simp only [Nat.zero_le, true_and, one_dvd, and_true]

theorem Fits.count_le (h : s.Fits size) (hn : s.count = .ok n) : n ≤ size := by
  rw [UInt64.le_iff_toNat_le]
  by_contra hlt
  -- otherwise the position after `size` others would lie on the axis
  have hin := (h.lt_count_iff hn _).1 (not_le.1 hlt)
  have hstop := UInt64.le_iff_toNat_le.1 h.stop_le
  have := Nat.le_mul_of_pos_right size.toNat h.step_pos
  omega

end Slice

/-! ### What selectors ask for -/

namespace Selector

/-- There is a position to pick on an axis of the given size. -/
def Valid (sel : Selector) (size : UInt64) : Prop :=
  match sel with
  | index i => i.toNat < size.toNat
  | range start stop step => step ≠ 0 ∧ start.toNat < min stop.toNat size.toNat
  | all => True

/-- The positions that a selector asks for. -/
def picked (sel : Selector) (size : UInt64) : Set ℕ :=
  match sel with
  | index i => {i.toNat}
  | range start stop step =>
    {p | start.toNat ≤ p ∧ p < min stop.toNat size.toNat ∧ step.toNat ∣ p - start.toNat}
  | all => {p | p < size.toNat}

/-- The errors of selectors that pick nothing.  A step of zero is reported before anything else. -/
inductive Refused (size axis : UInt64) : Selector → Error → Prop
  | outOfBounds {i : UInt64} (h : size.toNat ≤ i.toNat) :
      Refused size axis (.index i) (.indexOutOfBounds i size axis)
  | zeroStep (start stop : UInt64) : Refused size axis (.range start stop 0) .zeroStep
  | empty {start stop step : UInt64} (hstep : step ≠ 0)
      (h : min stop.toNat size.toNat ≤ start.toNat) :
      Refused size axis (.range start stop step) (.emptySelection axis)

variable {sel : Selector} {size axis : UInt64} {s : Slice} {e : Error}

theorem toNat_min (a b : UInt64) : (min a b).toNat = min a.toNat b.toNat := by
  show (if a ≤ b then a else b).toNat = _
  split
  · rename_i h
    exact (min_eq_left (UInt64.le_iff_toNat_le.1 h)).symm
  · rename_i h
    exact (min_eq_right (not_le.1 (mt UInt64.le_iff_toNat_le.2 h)).le).symm

theorem Refused.not_valid (h : sel.Refused size axis e) : ¬ sel.Valid size := by
  cases h with
  | outOfBounds h => exact not_lt.2 h
  | zeroStep start stop => exact fun hv => hv.1 rfl
  | empty hstep h => exact fun hv => not_lt.2 h hv.2

/-- A selector resolves to a slice of the positions that it asks for, or is refused. -/
theorem resolve_cases (sel : Selector) (size axis : UInt64) :
    (∃ s, sel.resolve size axis = .ok s ∧ sel.Valid size ∧ s.members = sel.picked size) ∨
      ∃ e, sel.resolve size axis = .error e ∧ sel.Refused size axis e := by
  cases sel with
  | index i =>
    by_cases h : i < size
    · refine .inl ⟨_, if_pos h, UInt64.lt_iff_toNat_lt.1 h, ?_⟩
      exact Slice.members_single h
    · exact .inr ⟨_, if_neg h, .outOfBounds (not_lt.1 (mt UInt64.lt_iff_toNat_lt.2 h))⟩
  | range start stop step =>
    by_cases hstep : step = 0
    · subst hstep
      exact .inr ⟨_, rfl, .zeroStep start stop⟩
    · by_cases h : start < min stop size
      · refine .inl ⟨_, (if_neg hstep).trans (if_pos h), ⟨hstep, ?_⟩, ?_⟩
        · rw [← toNat_min]
          exact UInt64.lt_iff_toNat_lt.1 h
        · simp only [Slice.members, picked, toNat_min]
      · refine .inr ⟨_, (if_neg hstep).trans (if_neg h), .empty hstep ?_⟩
        rw [← toNat_min]
        exact not_lt.1 (mt UInt64.lt_iff_toNat_lt.2 h)
  | all =>
    exact .inl ⟨_, rfl, trivial, Slice.members_whole size⟩

/-- A selector is refused with one error at most. -/
theorem Refused.eq {e' : Error} (h : sel.Refused size axis e) (h' : sel.Refused size axis e') :
    e = e' := by
  cases h with
  | outOfBounds h =>
    cases h'
    rfl
  | zeroStep start stop =>
    cases h' with
    | zeroStep => rfl
    | empty hstep h => exact absurd rfl hstep
  | empty hstep h =>
    cases h' with
    | zeroStep => exact absurd rfl hstep
    | empty => rfl

theorem resolve_eq_error_iff : sel.resolve size axis = .error e ↔ sel.Refused size axis e := by
  rcases resolve_cases sel size axis with ⟨s, hs, hvalid, -⟩ | ⟨e', he, hrefused⟩
  · rw [hs]
    exact ⟨nofun, fun h => absurd hvalid h.not_valid⟩
  · rw [he]
    exact ⟨fun h => Except.error.inj h ▸ hrefused, fun h => by rw [hrefused.eq h]⟩

theorem valid_iff_resolve (axis : UInt64) :
    sel.Valid size ↔ ∃ s, sel.resolve size axis = .ok s := by
  rcases resolve_cases sel size axis with ⟨s, hs, hvalid, -⟩ | ⟨e, he, hrefused⟩
  · exact iff_of_true hvalid ⟨s, hs⟩
  · refine iff_of_false hrefused.not_valid ?_
    rintro ⟨s, hs⟩
    cases he.symm.trans hs

theorem members_of_resolve (h : sel.resolve size axis = .ok s) : s.members = sel.picked size := by
  rcases resolve_cases sel size axis with ⟨s', hs, -, hmem⟩ | ⟨e, he, -⟩
  · obtain rfl := Except.ok.inj (h.symm.trans hs)
    exact hmem
  · cases he.symm.trans h

end Selector

/-! ### What keys pick -/

/-- The slice has `n` positions on an axis of the given size, in increasing order, and they are just
those picked. -/
structure Slice.Picks (s : Slice) (n size : UInt64) (picked : Set ℕ) : Prop where
  inWords : s.InWords n
  one_le : 1 ≤ n
  le_size : n ≤ size
  strictMono : StrictMonoOn s.place (Set.Iio n.toNat)
  image : s.place '' Set.Iio n.toNat = picked

theorem Selector.picks_of_resolve {sel : Selector} {size axis n : UInt64} {s : Slice}
    (hsize : 0 < size) (hs : sel.resolve size axis = .ok s) (hn : s.count = .ok n) :
    s.Picks n size (sel.picked size) := by
  have hfits := resolve_fits hsize hs
  refine ⟨hfits.inWords hn, ?_, hfits.count_le hn, hfits.strictMonoOn_place hn, ?_⟩
  · exact UInt64.le_iff_toNat_le.2 (UInt64.lt_iff_toNat_lt.1 (hfits.count_pos hn))
  · rw [hfits.image_place hn, members_of_resolve hs]

namespace Key

variable {k : Key} {shape : Shape} {s : Selection} {e : Error}

/-- The columns are looked at only where the rows are not refused. -/
theorem resolve_eq_error_iff : k.resolve shape = .error e ↔
    (k.selectors shape).1.resolve shape.rows 0 = .error e ∨
      (∃ rows, (k.selectors shape).1.resolve shape.rows 0 = .ok rows) ∧
        (k.selectors shape).2.resolve shape.cols 1 = .error e := by
  rcases hrow : (k.selectors shape).1.resolve shape.rows 0 with e' | rows
  · simp [resolve, hrow, bind, Except.bind]
  rcases hcol : (k.selectors shape).2.resolve shape.cols 1 with e' | cols
  · simp [resolve, hrow, hcol, bind, Except.bind]
  · simp [resolve, hrow, hcol, bind, Except.bind, pure, Except.pure]

theorem exists_resolve_iff : (∃ s, k.resolve shape = .ok s) ↔
    (k.selectors shape).1.Valid shape.rows ∧ (k.selectors shape).2.Valid shape.cols := by
  rw [Selector.valid_iff_resolve 0, Selector.valid_iff_resolve 1]
  constructor
  · rintro ⟨s, hs⟩
    obtain ⟨hrow, hcol⟩ := resolve_eq_ok_iff.1 hs
    exact ⟨⟨_, hrow⟩, _, hcol⟩
  · rintro ⟨⟨rows, hrow⟩, cols, hcol⟩
    exact ⟨⟨rows, cols⟩, resolve_eq_ok_iff.2 ⟨hrow, hcol⟩⟩

/-- A key resolves just where the selectors that it stands for on the shape are valid on their axes;
else it is refused for the rows, or for the columns if the rows are valid.  What it resolves to goes
through the positions asked for, each once and in order, within words, and it is no larger than the
shape. -/
theorem resolve_exact (k : Key) (shape : Shape) :
    let alongColumns := k.isSingle = true ∧ shape.rows = 1
    let row := if alongColumns then .all else k.row
    let col := if alongColumns then k.row else k.col
    ((∃ s, k.resolve shape = .ok s) ↔ row.Valid shape.rows ∧ col.Valid shape.cols) ∧
    (∀ e, k.resolve shape = .error e ↔
      row.Refused shape.rows 0 e ∨ row.Valid shape.rows ∧ col.Refused shape.cols 1 e) ∧
    ∀ s, k.resolve shape = .ok s → ∃ t, s.shape = .ok t ∧
      s.rows.Picks t.rows shape.rows (row.picked shape.rows) ∧
      s.cols.Picks t.cols shape.cols (col.picked shape.cols) ∧
      t.rows.toNat * t.cols.toNat ≤ shape.rows.toNat * shape.cols.toNat := by
  intro alongColumns row col
  have hsel : k.selectors shape = (row, col) := by
    show (if k.isSingle = true ∧ shape.rows = 1 then _ else _) = _
    by_cases h : k.isSingle = true ∧ shape.rows = 1
    · simp only [row, col, alongColumns, if_pos h]
    · simp only [row, col, alongColumns, if_neg h]
  refine ⟨?_, fun e => ?_, fun s hs => ?_⟩
  · rw [exists_resolve_iff, hsel]
  · rw [resolve_eq_error_iff, hsel, Selector.resolve_eq_error_iff, Selector.resolve_eq_error_iff,
      ← Selector.valid_iff_resolve]
  · obtain ⟨t, ht⟩ := (resolve_fits hs).shape_ok
    obtain ⟨hm, hn⟩ := Selection.counts_of_shape ht
    obtain ⟨hrows, hcols⟩ := resolve_eq_ok_iff.1 hs
    rw [hsel] at hrows hcols
    have hrow := Selector.picks_of_resolve shape.rows_pos hrows hm
    have hcol := Selector.picks_of_resolve shape.cols_pos hcols hn
    exact ⟨t, ht, hrow, hcol, Nat.mul_le_mul (UInt64.le_iff_toNat_le.1 hrow.le_size)
      (UInt64.le_iff_toNat_le.1 hcol.le_size)⟩

/-- One row as long as words allow: from the second column on in steps of half the words, an open
end picks two columns. -/
theorem resolve_exact_coarse :
    let step : UInt64 := 0x8000000000000000
    let shape : Shape := { rows := 1, cols := Selector.endless }
    ∃ s t, (single (.range 1 Selector.endless step)).resolve shape = .ok s ∧ s.shape = .ok t ∧
      t.cols = 2 ∧ s.cols.Picks t.cols shape.cols
        ((Selector.range 1 Selector.endless step).picked shape.cols) := by
  intro step shape
  obtain ⟨hok, -, hpicks⟩ := resolve_exact (single (.range 1 Selector.endless step)) shape
  obtain ⟨s, hs⟩ := hok.2 ⟨trivial, by decide, by decide⟩
  obtain ⟨t, ht, -, hcol, -⟩ := hpicks s hs
  obtain rfl : s = ⟨Slice.whole 1, ⟨1, Selector.endless, step⟩⟩ := Except.ok.inj (hs.symm.trans rfl)
  have htwo : (Slice.mk 1 Selector.endless step).count = .ok 2 := by decide
  exact ⟨_, t, hs, ht, Except.ok.inj (hcol.inWords.count_eq.symm.trans htwo), hcol⟩

end Key

end DisciplinedConvex
