/-
DisciplinedConvex/Proofs/Soundness/Storage.lean

The classification of constants does not depend on how they are stored.

A matrix with a row and a column may be stored as a number, with all of its entries,
or with some of them, as long as those that are left out compare as equal to zero
(`Value.Stores`).  Whatever holds of all that compares so holds of every entry just where
it holds of all that is written down (`Stores.forall_written_iff`).  Both bounds that make
a sign are such properties, so the sign is told by the entries alone
(`Stores.classified`), with comparisons as floating-point numbers have them: both zeros
are equal to zero, and what is no number is on neither side of it.
-/
import DisciplinedConvex.Proofs.Soundness.Sign

namespace DisciplinedConvex

/-! ### Both sides of zero -/

namespace Decimal

variable {x : Float}

theorem beq_zero_iff_le : (x == 0.0) = true ↔ 0.0 ≤ x ∧ x ≤ 0.0 := by
  rw [beq_zero_iff, zero_le_iff, le_zero_iff]
  rcases compareZero x with _ | _ | _ | _ <;> decide

theorem zero_lt_iff_le : 0.0 < x ↔ 0.0 ≤ x ∧ ¬x ≤ 0.0 := by
  rw [zero_lt_iff, zero_le_iff, le_zero_iff]
  rcases compareZero x with _ | _ | _ | _ <;> decide

theorem lt_zero_iff_le : x < 0.0 ↔ x ≤ 0.0 ∧ ¬0.0 ≤ x := by
  rw [lt_zero_iff, zero_le_iff, le_zero_iff]
  rcases compareZero x with _ | _ | _ | _ <;> decide

/-- What is no number is neither at least nor at most zero. -/
theorem not_le_of_isNaN (h : x.isNaN = true) : ¬0.0 ≤ x ∧ ¬x ≤ 0.0 := by
  rw [zero_le_iff, le_zero_iff, isNaN_iff.1 h]
  decide

end Decimal

namespace Sign

variable {p q : Bool}

theorem ofBounds_eq_zero_iff : ofBounds p q = zero ↔ p = true ∧ q = true := by
  cases p <;> cases q <;> decide

theorem ofBounds_eq_nonneg_iff : ofBounds p q = nonneg ↔ p = true ∧ ¬q = true := by
  cases p <;> cases q <;> decide

theorem ofBounds_eq_nonpos_iff : ofBounds p q = nonpos ↔ q = true ∧ ¬p = true := by
  cases p <;> cases q <;> decide

theorem eq_unknown_iff {s : Sign} : s = unknown ↔ s ≠ zero ∧ s ≠ nonneg ∧ s ≠ nonpos := by
  cases s <;> decide

end Sign

/-! ### Storages of a matrix -/

/-- All entries of a dense matrix are written down, each in its place. -/
theorem Dense.mem_entries_iff (m : Dense) {x : Float} :
    x ∈ m.entries ↔ ∃ row < m.rows.toNat, ∃ col < m.cols.toNat, m.entry row col = x := by
  have hentry {row col : ℕ} (hr : row < m.rows.toNat) (hc : col < m.cols.toNat) :
      m.entries[col * m.rows.toNat + row]? = some (m.entry row col) := by
    rw [entry, if_pos ⟨hr, hc⟩, Array.getD_eq_getD_getElem?,
      Array.getElem?_eq_getElem (m.place_lt hr hc)]
    rfl
  constructor
  · intro hx
    obtain ⟨k, hk⟩ := Array.mem_iff_getElem?.1 hx
    have hsize : k < m.rows.toNat * m.cols.toNat :=
      m.size_entries ▸ (Array.getElem?_eq_some_iff.1 hk).1
    have hr := Nat.mod_lt k (Nat.pos_of_mul_pos_right (Nat.zero_lt_of_lt hsize))
    have hc : k / m.rows.toNat < m.cols.toNat := Nat.div_lt_of_lt_mul hsize
    have hplace := hentry hr hc
    rw [Nat.div_add_mod' k m.rows.toNat, hk] at hplace
    exact ⟨_, hr, _, hc, (Option.some.inj hplace).symm⟩
  · rintro ⟨row, hr, col, hc, rfl⟩
    exact Array.mem_of_getElem? (hentry hr hc)

namespace Value

/-- The value is a matrix of a shape with these entries: a number if there is only one, all entries,
or some of them in their places.  What a sparse matrix leaves out compares as equal to zero. -/
inductive Stores {s : Shape} (A : Matrix (Fin s.rows.toNat) (Fin s.cols.toNat) Float) :
    Value → Prop
  | scalar {x : Float} (hs : s = .scalar) (hentry : ∀ i j, A i j = x) : Stores A (.scalar x)
  | dense {m : Dense} (hrows : m.rows = s.rows) (hcols : m.cols = s.cols)
      (hentry : ∀ i j, A i j = m.entry i j) : Stores A (.dense m)
  | sparse {m : Sparse} (hrows : m.rows = s.rows) (hcols : m.cols = s.cols)
      (hentry : ∀ t ∈ m.stored, ∀ i j, t.row.toNat = i.val → t.col.toNat = j.val →
        A i j = t.value)
      (hrest : ∀ i j, (A i j == 0.0) = false →
        ∃ t ∈ m.stored, t.row.toNat = i.val ∧ t.col.toNat = j.val) : Stores A (.sparse m)

variable {s : Shape} {A : Matrix (Fin s.rows.toNat) (Fin s.cols.toNat) Float} {v : Value}

namespace Stores

theorem shape (h : v.Stores A) : v.shape = .ok s := by
  have hdims : v.rows = s.rows ∧ v.cols = s.cols := by
    cases h with
    | scalar hs hentry => rw [hs]; exact ⟨rfl, rfl⟩
    | dense hrows hcols hentry => exact ⟨hrows, hcols⟩
    | sparse hrows hcols hentry hrest => exact ⟨hrows, hcols⟩
  rw [Value.shape, hdims.1, hdims.2, Shape.ofDims, Shape.ofDims?, dif_pos ⟨s.rows_pos, s.cols_pos⟩]

/-- What holds of all that is equal to zero holds of every entry if it holds of what is written. -/
theorem forall_written_iff (h : v.Stores A) {p : Float → Prop}
    (hzero : ∀ x, (x == 0.0) = true → p x) :
    (∀ x ∈ v.written, p x) ↔ ∀ i j, p (A i j) := by
  cases h with
  | @scalar x hs hentry =>
    have i : Fin s.rows.toNat := ⟨0, UInt64.lt_iff_toNat_lt.1 s.rows_pos⟩
    have j : Fin s.cols.toNat := ⟨0, UInt64.lt_iff_toNat_lt.1 s.cols_pos⟩
    refine ⟨fun h i j => ?_, fun h y hy => ?_⟩
    · rw [hentry i j]
      exact h x List.mem_cons_self
    · rw [List.mem_singleton.1 hy, ← hentry i j]
      exact h i j
  | @dense m hrows hcols hentry =>
    have hmem {x : Float} : x ∈ (Value.dense m).written ↔ _ :=
      Array.mem_toList_iff.trans m.mem_entries_iff
    refine ⟨fun h i j => ?_, fun h x hx => ?_⟩
    · rw [hentry i j]
      have hi : i.val < m.rows.toNat := by rw [hrows]; exact i.isLt
      have hj : j.val < m.cols.toNat := by rw [hcols]; exact j.isLt
      exact h _ (hmem.2 ⟨i, hi, j, hj, rfl⟩)
    · obtain ⟨row, hr, col, hc, rfl⟩ := hmem.1 hx
      rw [hrows] at hr
      rw [hcols] at hc
      rw [← hentry ⟨row, hr⟩ ⟨col, hc⟩]
      exact h _ _
  | @sparse m hrows hcols hentry hrest =>
    refine ⟨fun h i j => ?_, fun h x hx => ?_⟩
    · rcases hz : A i j == 0.0
      · -- what is not equal to zero is stored
        obtain ⟨t, ht, hi, hj⟩ := hrest i j hz
        rw [hentry t ht i j hi hj]
        exact h _ (List.mem_map_of_mem ht)
      · exact hzero _ hz
    · obtain ⟨t, ht, rfl⟩ := List.mem_map.1 hx
      obtain ⟨hr, hc⟩ := m.inside t ht
      rw [hrows, UInt64.lt_iff_toNat_lt] at hr
      rw [hcols, UInt64.lt_iff_toNat_lt] at hc
      rw [← hentry t ht ⟨_, hr⟩ ⟨_, hc⟩ rfl rfl]
      exact h _ _

theorem isNonneg_iff (h : v.Stores A) : v.isNonneg = true ↔ ∀ i j, 0.0 ≤ A i j := by
  rw [v.isNonneg_iff]
  exact h.forall_written_iff fun x hx => (Decimal.beq_zero_iff_le.1 hx).1

theorem isNonpos_iff (h : v.Stores A) : v.isNonpos = true ↔ ∀ i j, A i j ≤ 0.0 := by
  rw [v.isNonpos_iff]
  exact h.forall_written_iff fun x hx => (Decimal.beq_zero_iff_le.1 hx).2

/-! ### Signs -/

theorem sign_eq_zero_iff (h : v.Stores A) :
    v.sign = .zero ↔ ∀ i j, (A i j == 0.0) = true := by
  rw [sign, Sign.ofBounds_eq_zero_iff, h.isNonneg_iff, h.isNonpos_iff]
  simp only [Decimal.beq_zero_iff_le, forall_and]

theorem sign_eq_nonneg_iff (h : v.Stores A) :
    v.sign = .nonneg ↔ (∀ i j, 0.0 ≤ A i j) ∧ ∃ i j, 0.0 < A i j := by
  rw [sign, Sign.ofBounds_eq_nonneg_iff, h.isNonneg_iff, h.isNonpos_iff]
  refine and_congr_right fun hnonneg => ?_
  simp only [Decimal.zero_lt_iff_le, hnonneg, true_and, not_forall]

theorem sign_eq_nonpos_iff (h : v.Stores A) :
    v.sign = .nonpos ↔ (∀ i j, A i j ≤ 0.0) ∧ ∃ i j, A i j < 0.0 := by
  rw [sign, Sign.ofBounds_eq_nonpos_iff, h.isNonneg_iff, h.isNonpos_iff]
  refine and_congr_right fun hnonpos => ?_
  simp only [Decimal.lt_zero_iff_le, hnonpos, true_and, not_forall]

/-- One entry that is no number leaves nothing to be known. -/
theorem sign_of_isNaN (h : v.Stores A) {i : Fin s.rows.toNat} {j : Fin s.cols.toNat}
    (hnan : (A i j).isNaN = true) : v.sign = .unknown := by
  obtain ⟨hnonneg, hnonpos⟩ := Decimal.not_le_of_isNaN hnan
  have hp : v.isNonneg = false := Bool.eq_false_iff.2 fun hp => hnonneg (h.isNonneg_iff.1 hp i j)
  have hq : v.isNonpos = false := Bool.eq_false_iff.2 fun hq => hnonpos (h.isNonpos_iff.1 hq i j)
  rw [sign, hp, hq]
  rfl

/-- Storages of one matrix have one sign. -/
theorem sign_eq (h : v.Stores A) {w : Value} (k : w.Stores A) : w.sign = v.sign := by
  have hp : w.isNonneg = v.isNonneg := Bool.eq_iff_iff.2 (k.isNonneg_iff.trans h.isNonneg_iff.symm)
  have hq : w.isNonpos = v.isNonpos := Bool.eq_iff_iff.2 (k.isNonpos_iff.trans h.isNonpos_iff.symm)
  rw [sign, hp, hq]
  rfl

theorem perform_constant (h : v.Stores A) (l : Ledger) :
    ∃ e l', (Build.constant v).perform l = (.ok e, l') ∧
      e.attributes = ⟨.constant, v.sign, s⟩ := by
  rw [Build.constant, Build.perform_bind, Build.perform_check, h.shape]
  exact ⟨_, _, rfl, rfl⟩

/-- However a matrix is stored, its sign is zero if every entry equals zero; at least zero if every
entry is so and some entry is larger; at most zero if every entry is so and some entry is smaller;
and otherwise unknown, in particular if an entry is no number.  And in every storage a constant is
built of it, always with the same curvature, sign and shape. -/
theorem classified (h : v.Stores A) :
    (v.sign = .zero ↔ ∀ i j, (A i j == 0.0) = true) ∧
    (v.sign = .nonneg ↔ (∀ i j, 0.0 ≤ A i j) ∧ ∃ i j, 0.0 < A i j) ∧
    (v.sign = .nonpos ↔ (∀ i j, A i j ≤ 0.0) ∧ ∃ i j, A i j < 0.0) ∧
    (v.sign = .unknown ↔ ¬(∀ i j, (A i j == 0.0) = true) ∧
      ¬((∀ i j, 0.0 ≤ A i j) ∧ ∃ i j, 0.0 < A i j) ∧
      ¬((∀ i j, A i j ≤ 0.0) ∧ ∃ i j, A i j < 0.0)) ∧
    ((∃ i j, (A i j).isNaN = true) → v.sign = .unknown) ∧
    ∀ w, w.Stores A → w.sign = v.sign ∧ ∀ l, ∃ e l',
      (Build.constant w).perform l = (.ok e, l') ∧ e.attributes = ⟨.constant, v.sign, s⟩ := by
  refine ⟨h.sign_eq_zero_iff, h.sign_eq_nonneg_iff, h.sign_eq_nonpos_iff, ?_, ?_, fun w k => ?_⟩
  · rw [Sign.eq_unknown_iff, Ne, Ne, Ne, h.sign_eq_zero_iff, h.sign_eq_nonneg_iff,
      h.sign_eq_nonpos_iff]
  · rintro ⟨i, j, hnan⟩
    exact h.sign_of_isNaN hnan
  · exact ⟨h.sign_eq k, fun l => h.sign_eq k ▸ k.perform_constant l⟩

end Stores

/-- A column of `1.5` and `-0`, of which a sparse matrix stores the first entry only. -/
theorem stores_column :
    let A : Matrix (Fin Shape.pair.rows.toNat) (Fin Shape.pair.cols.toNat) Float :=
      fun i _ => if i.val = 0 then 1.5 else -0.0
    let v : Value := .sparse ⟨2, 1, [⟨0, 0, 1.5⟩], List.pairwise_singleton _ _, by decide⟩
    let w : Value := .dense ⟨2, 1, #[1.5, -0.0], rfl⟩
    v.Stores A ∧ w.Stores A ∧ v.sign = .nonneg ∧ w.sign = .nonneg ∧
      ∀ l, ∃ e l', (Build.constant w).perform l = (.ok e, l') ∧
        e.attributes = ⟨.constant, .nonneg, .pair⟩ := by
  intro A v w
  have hv : v.Stores A := by
    refine .sparse rfl rfl (fun t ht i j hi hj => ?_) fun i j hij => ?_
    · rw [List.mem_singleton.1 ht] at hi ⊢
      exact if_pos hi.symm
    · refine ⟨_, List.mem_singleton_self _, ?_, (Nat.lt_one_iff.1 j.isLt).symm⟩
      by_contra hi
      have hzero : A i j = -0.0 := if_neg (Ne.symm hi)
      rw [hzero] at hij
      exact absurd hij (by decide +kernel)
  have hw : w.Stores A := by
    refine .dense rfl rfl fun ⟨i, hi⟩ ⟨j, hj⟩ => ?_
    obtain rfl : j = 0 := Nat.lt_one_iff.1 hj
    have hi : i < 2 := hi
    interval_cases i <;> rfl
  obtain ⟨-, hnonneg, -, -, -, hsame⟩ := hv.classified
  have hsign : v.sign = .nonneg := by decide +kernel
  obtain ⟨hws, hbuild⟩ := hsame w hw
  exact ⟨hv, hw, hsign, hws.trans hsign, hsign ▸ hbuild⟩

end Value

end DisciplinedConvex
