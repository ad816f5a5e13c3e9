/-
DisciplinedConvex/Proofs/Soundness/Sign.lean

The sign that is recorded for an expression is a sign of its value.

`Sign.Allows s r` says that the number `r` is as the sign `s` promises, and
`Sign.Describes s a` that every entry of the matrix `a` is.  Each rule for signs is
sound for the operation on matrices that it belongs to: for a matrix product this
is the sum of any number of products, for a broadcast one entry meets many.  The
theorem on expressions (`WellFormed.describes`) puts these together, by induction
on the expression.
-/
import DisciplinedConvex.Proofs.Graph.Buildable
import DisciplinedConvex.Proofs.Soundness.Shape

namespace DisciplinedConvex

variable {K : Type} [OrderedField K]

namespace Sign

/-- The number is as the sign promises. -/
structure Allows (s : Sign) (r : K) : Prop where
  nonneg : s.isNonneg = true → 0 ≤ r
  nonpos : s.isNonpos = true → r ≤ 0

/-! ### Which results are promised to be at least zero, and which at most zero -/

theorem isNonneg_ofBounds (p q : Bool) : (ofBounds p q).isNonneg = p := by
  cases p <;> cases q <;> rfl

theorem isNonpos_ofBounds (p q : Bool) : (ofBounds p q).isNonpos = q := by
  cases p <;> cases q <;> rfl

/-! ### Numbers -/

variable {s t : Sign} {p q : K}

theorem allows_zero (s : Sign) : s.Allows (0 : K) := ⟨fun _ => le_rfl, fun _ => le_rfl⟩

theorem allows_unknown (r : K) : unknown.Allows r := ⟨nofun, nofun⟩

/-- Zero is all that the sign `zero` allows. -/
theorem allows_zero_iff {r : K} : zero.Allows r ↔ r = 0 :=
  ⟨fun h => le_antisymm (h.nonpos rfl) (h.nonneg rfl), by rintro rfl; exact allows_zero _⟩

theorem Allows.neg (h : s.Allows p) : s.neg.Allows (-p) := by
  refine ⟨fun hs => ?_, fun hs => ?_⟩
  · rw [isNonneg_neg] at hs
    exact neg_nonneg.2 (h.nonpos hs)
  · rw [isNonpos_neg] at hs
    exact neg_nonpos.2 (h.nonneg hs)

theorem Allows.add (hp : s.Allows p) (hq : t.Allows q) : (s.add t).Allows (p + q) := by
  refine ⟨fun hs => ?_, fun hs => ?_⟩
  · rw [isNonneg_add, Bool.and_eq_true] at hs
    exact add_nonneg (hp.nonneg hs.1) (hq.nonneg hs.2)
  · rw [isNonpos_add, Bool.and_eq_true] at hs
    exact add_nonpos (hp.nonpos hs.1) (hq.nonpos hs.2)

/-- A zero factor makes the product zero; else the signs of both factors are needed. -/
theorem Allows.mul (hp : s.Allows p) (hq : t.Allows q) : (s.mul t).Allows (p * q) := by
  -- a zero factor is looked for first on either side, as in the rule
  cases s with
  | zero =>
    rw [allows_zero_iff.1 hp, zero_mul]
    exact allows_zero _
  | unknown =>
    cases t with
    | zero =>
      rw [allows_zero_iff.1 hq, mul_zero]
      exact allows_zero _
    | _ => exact allows_unknown _
  | nonneg =>
    cases t with
    | zero =>
      rw [allows_zero_iff.1 hq, mul_zero]
      exact allows_zero _
    | nonneg => exact ⟨fun _ => mul_nonneg (hp.nonneg rfl) (hq.nonneg rfl), nofun⟩
    | nonpos =>
      exact ⟨nofun, fun _ => mul_nonpos_of_nonneg_of_nonpos (hp.nonneg rfl) (hq.nonpos rfl)⟩
    | unknown => exact allows_unknown _
  | nonpos =>
    cases t with
    | zero =>
      rw [allows_zero_iff.1 hq, mul_zero]
      exact allows_zero _
    | nonneg =>
      exact ⟨nofun, fun _ => mul_nonpos_of_nonpos_of_nonneg (hp.nonpos rfl) (hq.nonneg rfl)⟩
    | nonpos =>
      exact ⟨fun _ => mul_nonneg_of_nonpos_of_nonpos (hp.nonpos rfl) (hq.nonpos rfl), nofun⟩
    | unknown => exact allows_unknown _

/-- A sum of any number of terms that share a sign. -/
theorem Allows.sum {S : Finset ℕ} {f : ℕ → K} (h : ∀ n ∈ S, s.Allows (f n)) :
    s.Allows (∑ n ∈ S, f n) :=
  ⟨fun hs => Finset.sum_nonneg fun n hn => (h n hn).nonneg hs,
    fun hs => Finset.sum_nonpos fun n hn => (h n hn).nonpos hs⟩

/-- The reciprocal has the sign of the number, where the number is not known to be zero. -/
theorem Allows.reciprocal (h : s.Allows p) : s.reciprocal.Allows p⁻¹ := by
  cases s with
  | zero => exact allows_unknown _
  | nonneg => exact ⟨fun _ => inv_nonneg.2 (h.nonneg rfl), nofun⟩
  | nonpos => exact ⟨nofun, fun _ => inv_nonpos.2 (h.nonpos rfl)⟩
  | unknown => exact allows_unknown _

/-! ### Matrices -/

/-- Every entry is as the sign promises. -/
def Describes (s : Sign) (a : Mat K) : Prop := ∀ i j, s.Allows (a.entry i j)

variable {a b v : Mat K}

theorem describes_ofFn {rows cols : ℕ} {f : ℕ → ℕ → K} (h : ∀ i j, s.Allows (f i j)) :
    s.Describes (Mat.ofFn rows cols f) := by
  intro i j
  rw [Mat.entry_ofFn]
  split
  · exact h i j
  · exact allows_zero s

theorem Describes.spread (h : s.Describes a) (i j : ℕ) : s.Allows (a.spread i j) := by
  unfold Mat.spread
  split
  · exact h 0 0
  · exact h i j

theorem Describes.neg (h : s.Describes a) : s.neg.Describes a.neg := fun i j => (h i j).neg

theorem Describes.scale {k : K} (hk : s.Allows k) (h : t.Describes a) :
    (s.mul t).Describes (Mat.scale k a) :=
  fun i j => hk.mul (h i j)

theorem Describes.transpose (h : s.Describes a) : s.Describes a.transpose := fun i j => h j i

theorem Describes.product (ha : s.Describes a) (hb : t.Describes b) :
    (s.mul t).Describes (Mat.product a b) :=
  fun i j => Allows.sum (S := Finset.range a.cols) fun n _ => (ha i n).mul (hb n j)

theorem Describes.add (ha : s.Describes a) (hb : t.Describes b) (h : a.add b = .ok v) :
    (s.add t).Describes v := by
  obtain ⟨rows, cols, rfl⟩ := Mat.eq_of_add h
  exact describes_ofFn fun i j => (ha.spread i j).add (hb.spread i j)

/-- All three ways to multiply keep to the rule for signs. -/
theorem Describes.mul (ha : s.Describes a) (hb : t.Describes b) (h : a.mul b = .ok v) :
    (s.mul t).Describes v := by
  rcases Mat.eq_of_mul h with rfl | rfl | rfl
  · exact hb.scale (ha 0 0)
  · rw [mul_comm]
    exact ha.scale (hb 0 0)
  · exact ha.product hb

theorem Describes.div (ha : s.Describes a) (hb : t.Describes b) (h : a.div b = .ok v) :
    (s.mul t.reciprocal).Describes v := by
  obtain ⟨hscalar, hne⟩ := Mat.divisor_of_div h
  rw [Mat.div_eq_scale hscalar hne] at h
  cases h
  rw [mul_comm]
  exact ha.scale (hb 0 0).reciprocal

theorem Describes.select {sel : Selection} (ha : s.Describes a) (h : a.select sel = .ok v) :
    s.Describes v := by
  obtain ⟨rows, cols, rfl⟩ := Mat.eq_of_select h
  exact describes_ofFn fun i j => ha _ _

end Sign

/-! ### Leaves -/

namespace Value

/-- The numbers that are written down. -/
def written : Value → List Float
  | scalar x => [x]
  | dense m => m.entries.toList
  | sparse m => m.stored.map (·.value)

theorem isNonneg_iff (v : Value) : v.isNonneg = true ↔ ∀ x ∈ v.written, 0.0 ≤ x := by
  cases v <;> simp [isNonneg, written, Array.forall_mem_iff_forall_getElem]

theorem isNonpos_iff (v : Value) : v.isNonpos = true ↔ ∀ x ∈ v.written, x ≤ 0.0 := by
  cases v <;> simp [isNonpos, written, Array.forall_mem_iff_forall_getElem]

/-- What holds of zero and of all that is written holds of every entry. -/
theorem entry_of_written {p : Float → Prop} (hzero : p 0.0) {v : Value} (h : ∀ x ∈ v.written, p x)
    (row col : ℕ) : p (v.entry row col) := by
  cases v with
  | scalar x => exact h x List.mem_cons_self
  | dense m =>
    show p (m.entry row col)
    unfold Dense.entry
    split
    · rename_i hin
      have hlt := m.place_lt hin.1 hin.2
      rw [Array.getD_eq_getD_getElem?, Array.getElem?_eq_getElem hlt]
      exact h _ (Array.getElem_mem_toList hlt)
    · exact hzero
  | sparse m =>
    show p (m.entry row col)
    unfold Sparse.entry
    split
    · rename_i t ht
      exact h _ (List.mem_map_of_mem (List.mem_of_find?_eq_some ht))
    · exact hzero

/-- The sign of a constant is a sign of its exact entries, whatever the storage. -/
theorem describes_exact (v : Value) : v.sign.Describes (v.exact : Mat K) := by
  refine Sign.describes_ofFn fun i j => ⟨fun hs => ?_, fun hs => ?_⟩
  · rw [sign, Sign.isNonneg_ofBounds, isNonneg_iff] at hs
    have h := entry_of_written (p := fun x => 0 ≤ Decimal.exact x) (by simp)
      (fun x hx => Decimal.exact_nonneg (hs x hx)) i j
    exact_mod_cast h
  · rw [sign, Sign.isNonpos_ofBounds, isNonpos_iff] at hs
    have h := entry_of_written (p := fun x => Decimal.exact x ≤ 0) (by simp)
      (fun x hx => Decimal.exact_nonpos (hs x hx)) i j
    exact_mod_cast h

end Value

theorem Declaration.Allows.describes {d : Declaration} {a : Mat K} (h : d.Allows a) :
    d.sign.Describes a := by
  unfold Declaration.Allows at h
  unfold Declaration.sign
  intro i j
  split at h
  · rename_i hb
    rw [hb]
    exact Sign.allows_unknown _
  · rename_i hb
    rw [hb]
    exact ⟨fun _ => h i j, nofun⟩
  · rename_i hb
    rw [hb]
    exact ⟨nofun, fun _ => h i j⟩

/-! ### Expressions -/

namespace Expr

/-- The recorded sign is a sign of the value, wherever there is one. -/
theorem WellFormed.describes {e : Expr} (he : e.WellFormed) {x : Assignment K}
    (hx : x.Respects e) {v : Mat K} (hv : e.eval x = .ok v) : e.sign.Describes v := by
  -- on the derivation, for every value; each case is the rule of its operation
  induction he generalizing v with
  | @var l d hl =>
    cases hv
    have hs : (Expr.var l d).sign = d.sign := congrArg Attributes.sign hl
    exact hs ▸ (hx l d (.refl _)).describes
  | @const l c hshape hcurv hsign =>
    cases hv
    have hs : (Expr.const l c).sign = c.sign := hsign
    exact hs ▸ c.describes_exact
  | @add l a b ha hb hl iha ihb =>
    obtain ⟨u, w, hu, hw, h⟩ := eval_add_eq_ok_iff.1 hv
    obtain ⟨s, -, hattr⟩ := Attributes.add_eq_ok_iff.1 hl
    have hs : (Expr.add l a b).sign = a.sign.add b.sign := congrArg Attributes.sign hattr
    have hau := iha (hx.child List.mem_cons_self) hu
    have hbw := ihb (hx.child (List.mem_cons_of_mem _ List.mem_cons_self)) hw
    exact hs ▸ hau.add hbw h
  | @neg l a ha hl iha =>
    obtain ⟨u, hu, rfl⟩ := eval_neg_eq_ok_iff.1 hv
    have hs : (Expr.neg l a).sign = a.sign.neg := congrArg Attributes.sign hl
    exact hs ▸ (iha (hx.child List.mem_cons_self) hu).neg
  | @mul l k a hk ha hconst hl ihk iha =>
    obtain ⟨u, w, hu, hw, h⟩ := eval_mul_eq_ok_iff.1 hv
    obtain ⟨s, -, hattr⟩ := Attributes.mul_eq_ok_iff.1 hl
    have hs : (Expr.mul l k a).sign = k.sign.mul a.sign := congrArg Attributes.sign hattr
    have hku := ihk (hx.child List.mem_cons_self) hu
    have haw := iha (hx.child (List.mem_cons_of_mem _ List.mem_cons_self)) hw
    exact hs ▸ hku.mul haw h
  | @div l a k ha hk hconst hscalar hl iha ihk =>
    obtain ⟨u, w, hu, hw, h⟩ := eval_div_eq_ok_iff.1 hv
    have hs : (Expr.div l a k).sign = a.sign.mul k.sign.reciprocal := congrArg Attributes.sign hl
    have hau := iha (hx.child List.mem_cons_self) hu
    have hkw := ihk (hx.child (List.mem_cons_of_mem _ List.mem_cons_self)) hw
    exact hs ▸ hau.div hkw h
  | @transpose l a ha hscalar hl iha =>
    obtain ⟨u, hu, rfl⟩ := eval_transpose_eq_ok_iff.1 hv
    have hs : (Expr.transpose l a).sign = a.attributes.transpose.sign := congrArg Attributes.sign hl
    exact hs ▸ (iha (hx.child List.mem_cons_self) hu).transpose
  | @index l a s t ha hscalar hfits ht hl iha =>
    obtain ⟨u, hu, h⟩ := eval_index_eq_ok_iff.1 hv
    have hs : (Expr.index l a s).sign = (a.attributes.select t).sign := congrArg Attributes.sign hl
    exact hs ▸ (iha (hx.child List.mem_cons_self) hu).select h

/-- Entries that are at least zero are all that the column asks for. -/
theorem respects_column {x : Assignment K} (h : ∀ i j, 0 ≤ x 0 i j) : x.Respects column := by
  refine Assignment.respects_var_iff.2 fun i j => ?_
  rw [Assignment.matrix, Mat.entry_ofFn]
  split
  · exact h i j
  · exact le_rfl

theorem respects_scaledColumn {x : Assignment K} (h : ∀ i j, 0 ≤ x 0 i j) :
    x.Respects scaledColumn := by
  refine Assignment.respects_of_children rfl fun c hc => ?_
  rcases List.mem_cons.1 hc with rfl | hc
  · exact Assignment.respects_of_children rfl (by simp [children])
  · rw [List.mem_singleton.1 hc]
    exact respects_column h

/-- Whatever session builds an expression, and wherever no divisor in it is zero, the expression has
a value, of the recorded shape and of the recorded sign in every entry. -/
theorem Buildable.sign_sound {e : Expr} (he : e.Buildable) {x : Assignment K}
    (hx : x.Respects e) (hdef : e.eval x ≠ .error .zeroDivisor) :
    ∃ v, e.eval x = .ok v ∧ v.HasShape e.shape ∧
      (e.sign = .zero → ∀ i j, v.entry i j = 0) ∧
      (e.sign = .nonneg → ∀ i j, 0 ≤ v.entry i j) ∧
      (e.sign = .nonpos → ∀ i j, v.entry i j ≤ 0) := by
  rcases he.wellFormed.eval_cases x with ⟨v, hv, hshape⟩ | herr
  · have hsign := he.wellFormed.describes hx hv
    refine ⟨v, hv, hshape, fun hs i j => ?_, fun hs i j => ?_, fun hs i j => ?_⟩
    · exact Sign.allows_zero_iff.1 (hs ▸ hsign i j)
    · exact (hsign i j).nonneg (by rw [hs]; rfl)
    · exact (hsign i j).nonpos (by rw [hs]; rfl)
  · exact absurd herr hdef

/-- The scaled column at three and five. -/
theorem scaledColumn_sign_sound :
    ∃ v, scaledColumn.eval (fun _ i _ => if i = 0 then (3 : ℚ) else 5) = .ok v ∧
      v.HasShape scaledColumn.shape ∧
      (scaledColumn.sign = .zero → ∀ i j, v.entry i j = 0) ∧
      (scaledColumn.sign = .nonneg → ∀ i j, 0 ≤ v.entry i j) ∧
      (scaledColumn.sign = .nonpos → ∀ i j, v.entry i j ≤ 0) := by
  refine Buildable.sign_sound scaledColumn_buildable ?_ (by intro h; cases h)
  refine respects_scaledColumn fun i j => ?_
  split <;> norm_num

end Expr

end DisciplinedConvex
