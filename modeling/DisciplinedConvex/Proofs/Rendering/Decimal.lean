/-
DisciplinedConvex/Proofs/Rendering/Decimal.lean

The text of a floating-point number is the shortest that is read as this number.

All comparisons of decimals with multiples of powers of two are made over the naturals;
`compareBinary_eq` says what they come to over the rationals.  So a decimal reads back
just where it lies between two bounds (`Binary.readsBack_iff`), and on each grid it is
enough to look at the two neighbours of the number
(`Binary.isSome_nearestOn?_of_readsBack`).  Seventeen digits make a grid that is finer
than the interval (`Binary.isSome_nearestOn?_seventeen`).  Hence the digits that are chosen
read back (`Binary.readsBack_shortest`), and none that do are fewer
(`Binary.length_shortest_le`); the text has these digits, with the point in its place
(`floatText_finite`).
-/
import Mathlib
import DisciplinedConvex.Decimal.Positional

namespace DisciplinedConvex.Decimal

/-! ### Bit patterns -/

/-- The finite floating-point numbers of 64 bits, each in its one form: the mantissa has a bit more
than is stored, unless the exponent is the least one. -/
structure Binary.Canonical (x : Binary) : Prop where
  mantissa_lt : x.mantissa < 2 ^ 53
  exponent_ge : -1074 ≤ x.exponent
  normal : 2 ^ 52 ≤ x.mantissa ∨ x.exponent = -1074
  narrowBelow_iff : x.narrowBelow = true ↔ x.mantissa = 2 ^ 52 ∧ -1074 < x.exponent

/-- The bits of a finite number are its sign, its exponent and its mantissa; the bit of the mantissa
that is not stored adds one to the exponent. -/
theorem Number.ofBits_finite {bits : ℕ} (hbits : bits < 2 ^ 64) {x : Binary}
    (hx : ofBits bits = .finite x) :
    x.Canonical ∧ (bits : ℤ) =
      (if x.negative then 2 ^ 63 else 0) + (x.exponent + 1074) * 2 ^ 52 + x.mantissa := by
  have hsign : bits.testBit 63 = true ↔ bits / 2 ^ 63 % 2 = 1 := by
    rw [Nat.testBit_eq_decide_div_mod_eq, decide_eq_true_eq]
  have hparts : bits =
      bits / 2 ^ 63 % 2 * 2 ^ 63 + bits / 2 ^ 52 % 2 ^ 11 * 2 ^ 52 + bits % 2 ^ 52 := by
    omega
  unfold ofBits at hx
  simp only [Nat.pow_eq] at hx
  split at hx
  · split at hx <;> cases hx
  split at hx
  · -- the least exponent, and no bit but those that are stored
    cases hx
    refine ⟨⟨by dsimp only; omega, le_rfl, .inr rfl, by simp⟩, ?_⟩
    dsimp only
    split <;> rename_i h <;> simp only [hsign] at h <;> omega
  · cases hx
    refine ⟨⟨by dsimp only; omega, by dsimp only; omega, .inl (Nat.le_add_right _ _), ?_⟩, ?_⟩
    · simp
      omega
    · dsimp only
      split <;> rename_i h <;> simp only [hsign] at h <;> omega

example : Number.ofFloat 1.0 = .finite ⟨false, Nat.pow 2 52, -52, true⟩ := by decide +kernel

example : Number.ofFloat (-0.0) = .finite ⟨true, 0, -1074, false⟩ := by decide +kernel

/-! ### Values -/

/-- The number that a decimal stands for. -/
def value (d : Decimal) : ℚ := d.digits * 10 ^ d.exponent

theorem zpow_mul_pow_toNat {a : ℚ} (ha : a ≠ 0) (e : ℤ) :
    a ^ e * a ^ (-e).toNat = a ^ e.toNat := by
  rw [← zpow_natCast, ← zpow_natCast, ← zpow_add₀ ha]
  congr 1
  omega

/-- The comparison is that of the numbers: both are brought to whole ones by the same factor. -/
theorem compareBinary_eq (d : Decimal) (n : ℕ) (k : ℤ) :
    d.compareBinary n k = compare d.value (n * 2 ^ k) := by
  have hc : (0 : ℚ) < 10 ^ (-d.exponent).toNat * 2 ^ (-k).toNat := by positivity
  have hscale : compare d.value (n * 2 ^ k) =
      compare (d.value * (10 ^ (-d.exponent).toNat * 2 ^ (-k).toNat))
        (n * 2 ^ k * (10 ^ (-d.exponent).toNat * 2 ^ (-k).toNat)) := by
    rw [← cmp_eq_compare, ← cmp_eq_compare, (strictMono_mul_right_of_pos hc).cmp_map_eq]
  have hcast (a b : ℕ) : compare a b = compare (a : ℚ) b := by
    rw [← cmp_eq_compare, ← cmp_eq_compare, Nat.strictMono_cast.cmp_map_eq]
  rw [hscale, compareBinary, hcast]
  congr 1
  · rw [value, ← mul_assoc, mul_assoc (d.digits : ℚ), zpow_mul_pow_toNat (by norm_num)]
    push_cast [Nat.pow_eq]
    rfl
  · rw [mul_comm (10 ^ _ : ℚ), ← mul_assoc, mul_assoc (n : ℚ), zpow_mul_pow_toNat (by norm_num)]
    push_cast [Nat.pow_eq]
    rfl

/-- The digits are brought up to the point. -/
theorem value_scaled (d : Decimal) :
    (⟨d.digits * 10 ^ d.exponent.toNat, -(-d.exponent).toNat⟩ : Decimal).value = d.value := by
  rw [value, value]
  push_cast
  rw [← zpow_mul_pow_toNat (a := 10) (by norm_num), zpow_neg, zpow_natCast, ← mul_assoc,
    mul_inv_cancel_right₀ (by positivity)]

/-- Zeros at the end make no difference. -/
theorem value_trim (d : Decimal) : d.trim.value = d.value := by
  induction d using trim.induct with
  | case1 d h ih =>
    have hten : (10 : ℚ) * (d.digits / 10 : ℕ) = d.digits := by
      exact_mod_cast Nat.mul_div_cancel' (Nat.dvd_of_mod_eq_zero h.2)
    rw [trim, if_pos h, ih, value, value, ← hten, zpow_add_one₀ (by norm_num)]
    ring
  | case2 d h => rw [trim, if_neg h]

theorem digits_trim_le (d : Decimal) : d.trim.digits ≤ d.digits := by
  induction d using trim.induct with
  | case1 d h ih =>
    rw [trim, if_pos h]
    exact ih.trans (Nat.div_le_self _ _)
  | case2 d h => rw [trim, if_neg h]

theorem digits_trim_ten_pow (n : ℕ) (k : ℤ) : (trim ⟨10 ^ n, k⟩).digits = 1 := by
  induction n generalizing k with
  | zero =>
    rw [trim, if_neg (by simp)]
    rfl
  | succ n ih =>
    have hdiv : 10 ^ (n + 1) / 10 = 10 ^ n := by
      rw [pow_succ, Nat.mul_div_cancel _ (by decide)]
    rw [trim, if_pos ⟨by positivity, by dsimp only; omega⟩, hdiv, ih]

namespace Binary

variable {x : Binary} {d : Decimal} {k : ℤ}

/-- The magnitude of a finite floating-point number. -/
def value (x : Binary) : ℚ := x.mantissa * 2 ^ x.exponent

theorem value_mul_denominator (x : Binary) : x.value * x.denominator = x.numerator := by
  rw [value, denominator, numerator, mul_assoc]
  push_cast [Nat.pow_eq]
  rw [zpow_mul_pow_toNat (by norm_num)]

theorem value_exactDecimal (x : Binary) : x.exactDecimal.value = x.value := by
  have hten : (5 : ℚ) ^ (-x.exponent).toNat * 10 ^ (-((-x.exponent).toNat : ℤ)) *
      2 ^ (-x.exponent).toNat = 1 := by
    rw [zpow_neg, zpow_natCast, mul_right_comm, ← mul_pow]
    norm_num
  rw [Decimal.value, value, exactDecimal]
  push_cast [Nat.pow_eq]
  rw [← zpow_mul_pow_toNat (a := 2) (by norm_num) x.exponent]
  linear_combination (x.mantissa * 2 ^ x.exponent : ℚ) * hten

/-! ### The interval -/

/-- Halfway to the neighbour below. -/
def lower (x : Binary) : ℚ :=
  (if x.narrowBelow then 4 * x.mantissa - 1 else 4 * x.mantissa - 2 : ℕ) * 2 ^ (x.exponent - 2)

/-- Halfway to the neighbour above. -/
def upper (x : Binary) : ℚ := (4 * x.mantissa + 2 : ℕ) * 2 ^ (x.exponent - 2)

/-- What reads back lies between the two, and may be one of them if the mantissa is even. -/
theorem readsBack_iff :
    x.readsBack d = true ↔
      (x.lower < d.value ∨ x.mantissa % 2 = 0 ∧ d.value = x.lower) ∧
        (d.value < x.upper ∨ x.mantissa % 2 = 0 ∧ d.value = x.upper) := by
  simp only [readsBack, compareBinary_eq, Bool.and_eq_true, Bool.or_eq_true, beq_iff_eq,
    compare_gt_iff_gt, compare_lt_iff_lt, compare_eq_iff_eq, lower, upper]

theorem value_eq_quarters (x : Binary) :
    x.value = (4 * x.mantissa : ℕ) * 2 ^ (x.exponent - 2) := by
  rw [value, zpow_sub₀ (by norm_num)]
  push_cast
  ring

/-- The number itself reads back. -/
theorem readsBack_of_value_eq (h : d.value = x.value) : x.readsBack d = true := by
  have hstep : (0 : ℚ) < 2 ^ (x.exponent - 2) := by positivity
  rw [readsBack_iff, h, value_eq_quarters, lower, upper]
  refine ⟨?_, .inl (mul_lt_mul_of_pos_right (by exact_mod_cast (by omega)) hstep)⟩
  rcases Nat.eq_zero_or_pos x.mantissa with hm | hm
  · exact .inr ⟨by omega, by simp [hm]⟩
  · refine .inl (mul_lt_mul_of_pos_right ?_ hstep)
    exact_mod_cast (by split <;> omega)

/-- With two decimals all between them read back. -/
theorem readsBack_between {a b c : Decimal} (ha : x.readsBack a = true) (hc : x.readsBack c = true)
    (hab : a.value ≤ b.value) (hbc : b.value ≤ c.value) : x.readsBack b = true := by
  rw [readsBack_iff] at ha hc ⊢
  refine ⟨?_, ?_⟩
  · rcases hab.lt_or_eq with hlt | heq
    · refine .inl (lt_of_le_of_lt ?_ hlt)
      exact ha.1.elim le_of_lt fun h => h.2.ge
    · exact heq ▸ ha.1
  · rcases hbc.lt_or_eq with hlt | heq
    · refine .inl (lt_of_lt_of_le hlt ?_)
      exact hc.2.elim le_of_lt fun h => h.2.le
    · exact heq ▸ hc.2

/-! ### The grids -/

/-- The number lies between two neighbours of the grid. -/
theorem floorOn_spec (x : Binary) (k : ℤ) :
    (⟨x.floorOn k, k⟩ : Decimal).value ≤ x.value ∧
      x.value < (⟨x.floorOn k + 1, k⟩ : Decimal).value := by
  have hb : 0 < x.denominator * 10 ^ k.toNat := Nat.mul_pos x.denominator_pos (by positivity)
  have hc : (0 : ℚ) < x.denominator * 10 ^ (-k).toNat := by
    have := x.denominator_pos
    positivity
  have hpoint (q : ℕ) : (⟨q, k⟩ : Decimal).value * (x.denominator * 10 ^ (-k).toNat) =
      (q * (x.denominator * 10 ^ k.toNat) : ℕ) := by
    rw [Decimal.value]
    push_cast
    rw [← zpow_mul_pow_toNat (a := 10) (by norm_num) k]
    ring
  have hvalue : x.value * (x.denominator * 10 ^ (-k).toNat) =
      (x.numerator * 10 ^ (-k).toNat : ℕ) := by
    rw [← mul_assoc, value_mul_denominator]
    push_cast
    rfl
  refine ⟨le_of_mul_le_mul_right ?_ hc, lt_of_mul_lt_mul_right ?_ hc.le⟩
  · rw [hpoint, hvalue]
    exact_mod_cast Nat.div_mul_le_self _ _
  · rw [hpoint, hvalue]
    exact_mod_cast Nat.lt_mul_of_div_lt (Nat.lt_succ_self _) hb

/-- A point is chosen if one of the two neighbours reads back. -/
theorem isSome_nearestOn?_iff : (x.nearestOn? k).isSome = true ↔
    x.readsBack ⟨x.floorOn k, k⟩ = true ∨ x.readsBack ⟨x.floorOn k + 1, k⟩ = true := by
  unfold nearestOn?
  dsimp only
  rcases x.readsBack ⟨x.floorOn k, k⟩ <;> rcases x.readsBack ⟨x.floorOn k + 1, k⟩ <;>
    simp [apply_ite Option.isSome]

theorem nearestOn?_spec (h : x.nearestOn? k = some d) :
    x.readsBack d = true ∧ d.exponent = k ∧ d.digits ≤ x.floorOn k + 1 := by
  unfold nearestOn? at h
  dsimp only at h
  split at h
  · split at h <;> cases h
    · exact ⟨by assumption, rfl, Nat.le_succ _⟩
    · exact ⟨by assumption, rfl, le_rfl⟩
  · cases h
    exact ⟨by assumption, rfl, Nat.le_succ _⟩
  · cases h
    exact ⟨by assumption, rfl, le_rfl⟩
  · cases h

/-- No point of a grid is overlooked: if any reads back, then so does a neighbour of the number. -/
theorem isSome_nearestOn?_of_readsBack {n : ℕ} (h : x.readsBack ⟨n, k⟩ = true) :
    (x.nearestOn? k).isSome = true := by
  obtain ⟨hfloor, hnext⟩ := x.floorOn_spec k
  have hvalue := x.value_exactDecimal
  have hexact := readsBack_of_value_eq hvalue
  have hmono {a b : ℕ} (hab : a ≤ b) : (⟨a, k⟩ : Decimal).value ≤ (⟨b, k⟩ : Decimal).value :=
    mul_le_mul_of_nonneg_right (by exact_mod_cast hab) (by positivity)
  rw [isSome_nearestOn?_iff]
  rcases Nat.lt_or_ge (x.floorOn k) n with hlt | hge
  · exact .inr (readsBack_between hexact h (hvalue ▸ hnext.le) (hmono hlt))
  · exact .inl (readsBack_between h hexact (hmono hge) (hvalue ▸ hfloor))

/-! ### Seventeen digits -/

theorem ten_pow_length_le {n : ℕ} (hn : 0 < n) : 10 ^ ((Nat.toDigits 10 n).length - 1) ≤ n := by
  have hlength : 0 < (Nat.toDigits 10 n).length := Nat.length_toDigits_pos
  rcases Nat.eq_zero_or_pos ((Nat.toDigits 10 n).length - 1) with h | h
  · rw [h]
    exact hn
  · by_contra hlt
    have hle := (Nat.length_toDigits_le_iff (by decide) h).2 (not_le.1 hlt)
    omega

/-- The first digit is not a zero. -/
theorem ten_pow_magnitude_le (hm : 0 < x.mantissa) : (10 : ℚ) ^ (x.magnitude - 1) ≤ x.value := by
  have hd : (0 : ℚ) < x.denominator := by exact_mod_cast x.denominator_pos
  have hn : 0 < x.numerator := Nat.mul_pos hm (Nat.two_pow_pos _)
  rw [eq_div_of_mul_eq hd.ne' x.value_mul_denominator, le_div_iff₀ hd, magnitude]
  split
  · -- there are digits before the point
    rename_i hle
    have hpow := ten_pow_length_le (Nat.div_pos hle x.denominator_pos)
    have hlength : 0 < (Nat.toDigits 10 (x.numerator / x.denominator)).length :=
      Nat.length_toDigits_pos
    rw [← Int.natCast_pred_of_pos hlength, zpow_natCast]
    exact_mod_cast (Nat.mul_le_mul_right _ hpow).trans (Nat.div_mul_le_self _ _)
  · -- all digits are behind the point
    have hpow := (Nat.length_toDigits_le_iff (n := (x.denominator - 1) / x.numerator)
      (by decide : 1 < 10) Nat.length_toDigits_pos).1 le_rfl
    rw [Nat.div_lt_iff_lt_mul hn] at hpow
    rw [sub_right_comm, sub_self, zero_sub, zpow_neg, zpow_natCast, inv_mul_le_iff₀ (by positivity)]
    exact_mod_cast (Nat.le_of_pred_lt hpow)

/-- All digits before the point are counted. -/
theorem value_lt_ten_pow_magnitude (hm : 0 < x.mantissa) : x.value < (10 : ℚ) ^ x.magnitude := by
  have hd : (0 : ℚ) < x.denominator := by exact_mod_cast x.denominator_pos
  have hn : 0 < x.numerator := Nat.mul_pos hm (Nat.two_pow_pos _)
  rw [eq_div_of_mul_eq hd.ne' x.value_mul_denominator, div_lt_iff₀ hd, magnitude]
  split
  · have hpow := (Nat.length_toDigits_le_iff (n := x.numerator / x.denominator)
      (by decide : 1 < 10) Nat.length_toDigits_pos).1 le_rfl
    rw [zpow_natCast]
    exact_mod_cast Nat.lt_mul_of_div_lt hpow x.denominator_pos
  · rename_i hlt
    have hlength : 0 < (Nat.toDigits 10 ((x.denominator - 1) / x.numerator)).length :=
      Nat.length_toDigits_pos
    have hpow := ten_pow_length_le (Nat.div_pos (Nat.le_sub_one_of_lt (not_le.1 hlt)) hn)
    rw [← neg_sub, ← Int.natCast_pred_of_pos hlength, zpow_neg, zpow_natCast,
      lt_inv_mul_iff₀ (by positivity)]
    have hle := (Nat.le_div_iff_mul_le hn).1 hpow
    exact_mod_cast hle.trans_lt (Nat.sub_one_lt x.denominator_pos.ne')

/-- Seventeen digits are always enough: the grid is then finer than the interval. -/
theorem isSome_nearestOn?_seventeen (hx : x.Canonical) (hm : 0 < x.mantissa) :
    (x.nearestOn? (x.magnitude - 17)).isSome = true := by
  have hq : (0 : ℚ) < 2 ^ (x.exponent - 2) := by positivity
  obtain ⟨hfloor, hnext⟩ := x.floorOn_spec (x.magnitude - 17)
  have hstep : (⟨x.floorOn (x.magnitude - 17) + 1, x.magnitude - 17⟩ : Decimal).value =
      (⟨x.floorOn (x.magnitude - 17), x.magnitude - 17⟩ : Decimal).value +
        10 ^ (x.magnitude - 17) := by
    rw [Decimal.value, Decimal.value]
    push_cast
    ring
  have hgrid : (10 : ℚ) ^ (x.magnitude - 17) * 10 ^ 16 ≤ x.value := by
    rw [← zpow_natCast, ← zpow_add₀ (by norm_num)]
    exact (congrArg ((10 : ℚ) ^ ·) (by push_cast; ring)).trans_le (ten_pow_magnitude_le hm)
  rw [isSome_nearestOn?_iff, readsBack_iff, readsBack_iff]
  have hupper : x.upper = x.value + 2 * 2 ^ (x.exponent - 2) := by
    rw [upper, value_eq_quarters]
    push_cast
    ring
  rw [hstep] at hnext ⊢
  generalize (⟨x.floorOn (x.magnitude - 17), x.magnitude - 17⟩ : Decimal).value = v at *
  generalize (10 : ℚ) ^ (x.magnitude - 17) = g at *
  by_cases hnarrow : x.narrowBelow = true
  · -- the gap above is the wider one, and it holds a whole step
    have hsize : x.value = 2 ^ 54 * 2 ^ (x.exponent - 2) := by
      rw [value_eq_quarters, (hx.narrowBelow_iff.1 hnarrow).1]
      norm_num
    have hlower : x.lower ≤ x.value := by
      rw [lower, value_eq_quarters]
      exact mul_le_mul_of_nonneg_right (by exact_mod_cast (by split <;> omega)) hq.le
    exact .inr ⟨.inl (hlower.trans_lt hnext), .inl (by linarith)⟩
  · -- half a step does not lead out of the interval, in one direction or the other
    have hsize : x.value < 2 ^ 55 * 2 ^ (x.exponent - 2) := by
      rw [value_eq_quarters]
      refine mul_lt_mul_of_pos_right ?_ hq
      exact_mod_cast (by have := hx.mantissa_lt; omega)
    have hlower : x.lower = x.value - 2 * 2 ^ (x.exponent - 2) := by
      rw [lower, value_eq_quarters, if_neg hnarrow, Nat.cast_sub (by omega)]
      push_cast
      ring
    rcases lt_or_ge (v + g) x.upper with hlt | hge
    · exact .inr ⟨.inl (by linarith), .inl hlt⟩
    · exact .inl ⟨.inl (by linarith), .inl (by linarith)⟩

/-! ### The digits that are chosen -/

/-- The digits that are chosen read back. -/
theorem readsBack_shortest (x : Binary) : x.readsBack x.shortest = true := by
  unfold shortest
  split
  · rename_i hm
    exact readsBack_of_value_eq (by simp [Decimal.value, value, hm])
  · dsimp only
    have hcongr {d d' : Decimal} (h : d.value = d'.value) (hd : x.readsBack d = true) :
        x.readsBack d' = true := readsBack_between hd hd h.le h.ge
    refine hcongr (value_trim _).symm ?_
    rcases hfound : (List.range' 1 17).findSome? fun (n : ℕ) => x.nearestOn? (x.magnitude - n)
      with _ | d
    · exact readsBack_of_value_eq x.value_exactDecimal
    · obtain ⟨n, -, hn⟩ := List.exists_of_findSome?_eq_some hfound
      exact (nearestOn?_spec hn).1

/-- Any decimal that reads back comes to lie on a grid with no more digits than it has, or else a
power of ten lies between it and the number. -/
theorem exists_isSome_nearestOn? (hm : 0 < x.mantissa) (hd : x.readsBack d = true) :
    ∃ i : ℕ, 0 < i ∧ i ≤ (Nat.toDigits 10 d.digits).length ∧
      (x.nearestOn? (x.magnitude - i)).isSome = true := by
  have hfirst := ten_pow_magnitude_le hm
  rcases lt_or_ge d.value (10 ^ (x.magnitude - 1)) with hlt | hge
  · have hvalue : (⟨1, x.magnitude - 1⟩ : Decimal).value = 10 ^ (x.magnitude - 1) := by
      simp [Decimal.value]
    refine ⟨1, Nat.one_pos, Nat.length_toDigits_pos, ?_⟩
    refine isSome_nearestOn?_of_readsBack (n := 1) (readsBack_between hd
      (readsBack_of_value_eq x.value_exactDecimal) ?_ ?_)
    · exact hvalue ▸ hlt.le
    · exact hvalue ▸ x.value_exactDecimal ▸ hfirst
  · have hdigits : d.digits < 10 ^ (Nat.toDigits 10 d.digits).length :=
      (Nat.length_toDigits_le_iff (by decide) Nat.length_toDigits_pos).1 le_rfl
    refine ⟨(Nat.toDigits 10 d.digits).length, Nat.length_toDigits_pos, le_rfl, ?_⟩
    generalize (Nat.toDigits 10 d.digits).length = j at *
    have hexponent : x.magnitude - 1 < j + d.exponent := by
      refine (zpow_lt_zpow_iff_right₀ (by norm_num : (1 : ℚ) < 10)).1 (hge.trans_lt ?_)
      rw [zpow_add₀ (by norm_num), zpow_natCast]
      exact mul_lt_mul_of_pos_right (by exact_mod_cast hdigits) (by positivity)
    obtain ⟨i, hi⟩ := Int.eq_ofNat_of_zero_le (show 0 ≤ d.exponent - (x.magnitude - j) by omega)
    have hvalue : (⟨d.digits * 10 ^ i, x.magnitude - j⟩ : Decimal).value = d.value := by
      rw [Decimal.value, Decimal.value, show d.exponent = i + (x.magnitude - j) by omega,
        zpow_add₀ (by norm_num), zpow_natCast]
      push_cast
      ring
    exact isSome_nearestOn?_of_readsBack (readsBack_between hd hd hvalue.ge hvalue.le)

/-- The first grid on which a point is chosen is found, and it is the coarsest one. -/
theorem exists_shortest_eq_trim (hx : x.Canonical) (hm : 0 < x.mantissa) :
    ∃ (n : ℕ) (f : Decimal), 0 < n ∧ x.nearestOn? (x.magnitude - n) = some f ∧
      x.shortest = f.trim ∧
      ∀ i : ℕ, 0 < i → (x.nearestOn? (x.magnitude - i)).isSome = true → n ≤ i := by
  rcases hfound : (List.range' 1 17).findSome? fun (n : ℕ) => x.nearestOn? (x.magnitude - n)
    with _ | f
  · have hnone := List.findSome?_eq_none_iff.1 hfound 17 (by decide)
    have hsome := isSome_nearestOn?_seventeen hx hm
    rw [show x.magnitude - 17 = x.magnitude - (17 : ℕ) from rfl, hnone] at hsome
    cases hsome
  obtain ⟨before, n, after, hrange, hn, hbefore⟩ := List.findSome?_eq_some_iff.1 hfound
  have hmem {i : ℕ} : i ∈ before ++ n :: after ↔ 1 ≤ i ∧ i < 1 + 17 := by
    rw [← hrange, List.mem_range'_1]
  have hsorted : (before ++ n :: after).Pairwise (· < ·) := hrange ▸ List.pairwise_lt_range'
  obtain ⟨hpos, hlast⟩ := (hmem (i := n)).1 (by simp)
  refine ⟨n, f, hpos, hn, by rw [shortest, if_neg hm.ne', hfound]; rfl, fun i hi hsome => ?_⟩
  -- a grid that is coarser was tried before, and no point of it was chosen
  by_contra hlt
  have hi : i ∈ before ++ n :: after := hmem.2 ⟨hi, by omega⟩
  rcases List.mem_append.1 hi with hi | hi
  · rw [hbefore i hi] at hsome
    cases hsome
  · rcases List.mem_cons.1 hi with rfl | hi
    · exact hlt le_rfl
    · exact hlt ((List.pairwise_cons.1 (List.pairwise_append.1 hsorted).2.1).1 i hi).le

/-- Ten to the power of their number is the most that the digits on a grid come to. -/
theorem digits_le_of_nearestOn? (hm : 0 < x.mantissa) {n : ℕ}
    (h : x.nearestOn? (x.magnitude - n) = some d) : d.digits ≤ 10 ^ n := by
  refine (nearestOn?_spec h).2.2.trans (Nat.succ_le_of_lt ?_)
  have hlt := (x.floorOn_spec (x.magnitude - n)).1.trans_lt (value_lt_ten_pow_magnitude hm)
  rw [Decimal.value, zpow_sub₀ (by norm_num), zpow_natCast, mul_div_assoc',
    div_lt_iff₀ (by positivity), mul_comm, mul_lt_mul_iff_right₀ (by positivity)] at hlt
  exact_mod_cast hlt

/-- Nothing that reads back has fewer digits than what is chosen. -/
theorem length_shortest_le (hx : x.Canonical) (hd : x.readsBack d = true) :
    (Nat.toDigits 10 x.shortest.digits).length ≤ (Nat.toDigits 10 d.digits).length := by
  rcases Nat.eq_zero_or_pos x.mantissa with hm | hm
  · rw [shortest, if_pos hm]
    exact Nat.length_toDigits_pos
  obtain ⟨n, f, hn, hchosen, hshortest, hfirst⟩ := exists_shortest_eq_trim hx hm
  obtain ⟨i, hi, hle, hsome⟩ := exists_isSome_nearestOn? hm hd
  refine le_trans ?_ ((hfirst i hi hsome).trans hle)
  rw [hshortest, Nat.length_toDigits_le_iff (by decide) hn]
  rcases (digits_le_of_nearestOn? hm hchosen).lt_or_eq with hlt | heq
  · exact f.digits_trim_le.trans_lt hlt
  · -- all zeros behind the first digit are moved to the exponent
    have hone : f.trim.digits = 1 := by
      rw [show f = ⟨10 ^ n, f.exponent⟩ from heq ▸ rfl, digits_trim_ten_pow]
    rw [hone]
    exact Nat.one_lt_pow hn.ne' (by decide)

-- halfway between two points of a grid the larger one is chosen
example : (Binary.mk false (Nat.pow 2 52) (-77) true).shortest = ⟨29802322387695313, -24⟩ := by
  decide +kernel

end Binary

/-! ### Positions -/

/-- The text has the digits of the decimal, with zeros up to the point, and behind the point as many
as it has places. -/
theorem positional_spec (d : Decimal) :
    ∃ whole fraction : List Char,
      d.positional.toList = whole ++ (if fraction = [] then [] else '.' :: fraction) ∧
      whole ≠ [] ∧ (∀ c ∈ whole ++ fraction, c.isDigit = true) ∧
      fraction.length = (-d.exponent).toNat ∧
      Nat.ofDigitChars 10 (whole ++ fraction) 0 = d.digits * 10 ^ d.exponent.toNat := by
  have hdigit {n : ℕ} {c : Char} (hc : c ∈ Nat.toDigits 10 n) : c.isDigit = true :=
    Nat.isDigit_of_mem_toDigits (by decide) (by decide) hc
  have hzero {n : ℕ} {c : Char} (hc : c ∈ List.replicate n '0') : c.isDigit = true := by
    rw [List.eq_of_mem_replicate hc]
    rfl
  obtain ⟨digits, exponent⟩ := d
  cases exponent with
  | ofNat zeros =>
    refine ⟨Nat.toDigits 10 digits ++ List.replicate zeros '0', [], ?_, ?_, ?_, ?_, ?_⟩
    · simp [positional]
    · simp
    · intro c hc
      rw [List.append_nil, List.mem_append] at hc
      exact hc.elim hdigit hzero
    · show 0 = (-(zeros : ℤ)).toNat
      omega
    · rw [List.append_nil, Nat.ofDigitChars_append, Nat.ofDigitChars_ten_toDigits,
        Nat.ofDigitChars_replicate_zero, Nat.mul_comm]
      rfl
  | negSucc places =>
    -- there are zeros enough in front that a digit is left before the point
    let padded := List.replicate (places + 2 - (Nat.toDigits 10 digits).length) '0' ++
      Nat.toDigits 10 digits
    have hlength : places + 2 ≤ padded.length := by
      simp only [padded, List.length_append, List.length_replicate]
      omega
    refine ⟨padded.take (padded.length - (places + 1)), padded.drop (padded.length - (places + 1)),
      ?_, ?_, ?_, ?_, ?_⟩
    · rw [if_neg (by rw [List.drop_eq_nil_iff]; omega)]
      simp [positional, padded]
    · rw [ne_eq, List.take_eq_nil_iff]
      rintro (h | h)
      · omega
      · rw [h] at hlength
        simp at hlength
    · intro c hc
      rw [List.take_append_drop, List.mem_append] at hc
      exact hc.elim hzero hdigit
    · rw [List.length_drop]
      show _ = (-(Int.negSucc places)).toNat
      omega
    · rw [List.take_append_drop, Nat.ofDigitChars_append, Nat.ofDigitChars_replicate_zero,
        Nat.mul_zero, Nat.ofDigitChars_ten_toDigits]
      simp

/-- The text of a finite floating-point number has the digits that are chosen for it.  Read as a
decimal it is rounded to this number, and no decimal that is rounded to it has fewer digits. -/
theorem floatText_finite {y : Float} {x : Binary} (hy : Number.ofFloat y = .finite x) :
    ∃ whole fraction : List Char,
      (floatText y).toList = (if x.negative then ['-'] else []) ++
        (whole ++ (if fraction = [] then [] else '.' :: fraction)) ∧
      whole ≠ [] ∧ (∀ c ∈ whole ++ fraction, c.isDigit = true) ∧
      Nat.ofDigitChars 10 (whole ++ fraction) 0 =
        x.shortest.digits * 10 ^ x.shortest.exponent.toNat ∧
      x.readsBack ⟨Nat.ofDigitChars 10 (whole ++ fraction) 0, -fraction.length⟩ = true ∧
      ∀ d, x.readsBack d = true →
        (Nat.toDigits 10 x.shortest.digits).length ≤ (Nat.toDigits 10 d.digits).length := by
  obtain ⟨whole, fraction, htext, hwhole, hdigits, hplaces, hread⟩ := positional_spec x.shortest
  have hcanonical : x.Canonical := (Number.ofBits_finite y.toBits.toNat_lt hy).1
  refine ⟨whole, fraction, ?_, hwhole, hdigits, hread, ?_, fun d => x.length_shortest_le hcanonical⟩
  · rw [← htext, floatText, hy]
    show ((if x.negative then "-" else "") ++ x.shortest.positional).toList = _
    rw [String.toList_append]
    cases x.negative <;> rfl
  · have hvalue := value_scaled x.shortest
    rw [hread, hplaces]
    exact Binary.readsBack_between x.readsBack_shortest x.readsBack_shortest hvalue.ge hvalue.le

example : floatText 0.1 = "0.1" := by decide +kernel

example : floatText (-0.0) = "-0" := by decide +kernel

example : floatText 100.0 = "100" := by decide +kernel

end DisciplinedConvex.Decimal
