/-
DisciplinedConvex/Proofs/Exact/Number.lean

The rational number that a floating-point value stands for.

`exact` reads the number off the decoded bits.  Comparison of floating-point
values is defined on their unpacked form instead, so the two readings are tied
first (`exact_eq`); then a value that compares as at least zero stands for a
number that is at least zero, and likewise for at most zero.  What is not finite
stands for no number and is read as zero: it takes no part in exact arithmetic.
All comparisons with zero have one common account (`compareZero`), in which what is
no number stands apart and both zeros are alike.
-/
import Mathlib
import DisciplinedConvex.Decimal.Binary

namespace DisciplinedConvex.Decimal

open Float.Model (UnpackedFloat Format)
open Float.Model.UnpackedFloat (unpackExponent unpackMantissa unpackSign)

/-- The rational number `± mantissa * 2 ^ exponent`. -/
def Binary.toRat (x : Binary) : ℚ :=
  (if x.negative then -1 else 1) * x.mantissa * 2 ^ x.exponent

/-- The rational number that a floating-point value stands for. -/
def exact (x : Float) : ℚ :=
  match Number.ofFloat x with
  | .finite b => b.toRat
  | .infinity _ | .notANumber => 0

/-- The rational number of an unpacked value. -/
def unpackedRat : UnpackedFloat → ℚ
  | .finite s m e _ => s.apply m * 2 ^ e
  | .zero _ | .infinity _ | .notANumber => 0

/-! ### The fields of a word -/

theorem toNat_unpackExponent (b : BitVec 64) :
    (@unpackExponent Format.binary64 b).toNat = b.toNat / 2 ^ 52 % 2 ^ 11 := by
  simp [unpackExponent, BitVec.extractLsb_toNat, Nat.shiftRight_eq_div_pow]

theorem toNat_unpackMantissa (b : BitVec 64) :
    (@unpackMantissa Format.binary64 b).toNat = b.toNat % 2 ^ 52 := by
  simp [unpackMantissa, BitVec.extractLsb_toNat]

theorem unpackSign_eq_zero_iff (b : BitVec 64) :
    @unpackSign Format.binary64 b = 0#1 ↔ b.toNat.testBit 63 = false := by
  rw [← BitVec.toNat_inj]
  simp [unpackSign, BitVec.extractLsb_toNat, Nat.testBit, Nat.shiftRight_eq_div_pow,
    Nat.and_comm 1]

/-- The implicit bit of a normal number. -/
theorem toNat_one_append (m : BitVec 52) : (1#1 ++ m).toNat = 2 ^ 52 + m.toNat := by
  rw [BitVec.toNat_append, ← Nat.shiftLeft_add_eq_or_of_lt m.isLt]
  simp [Nat.shiftLeft_eq]

theorem apply_unpackSign (b : BitVec 64) (m : Nat) :
    (((UnpackedFloat.Sign.ofBitVec (@unpackSign Format.binary64 b)).apply m : ℤ) : ℚ) =
      (if b.toNat.testBit 63 then -1 else 1) * m := by
  unfold UnpackedFloat.Sign.ofBitVec
  by_cases h : b.toNat.testBit 63
  · have hs : @unpackSign Format.binary64 b ≠ 0#1 := by
      rw [Ne, unpackSign_eq_zero_iff, h]; decide
    rw [if_neg hs, if_pos h]
    simp [UnpackedFloat.Sign.apply]
  · have hs : @unpackSign Format.binary64 b = 0#1 := by
      simpa [unpackSign_eq_zero_iff] using h
    rw [if_pos hs, if_neg h]
    simp [UnpackedFloat.Sign.apply]

/-! ### Both readings agree -/

/-- The number read off the bits is the number of the unpacked value. -/
theorem exact_eq (x : Float) : exact x = unpackedRat x.toModel.unpack := by
  let b : BitVec 64 := x.toModel.toBits.toBitVec
  have he := toNat_unpackExponent b
  have hm := toNat_unpackMantissa b
  have h1 : @unpackExponent Format.binary64 b = -1#_ ↔
      b.toNat / 2 ^ 52 % 2 ^ 11 = 2 ^ 11 - 1 := by
    rw [← BitVec.toNat_inj, he]; simp
  have h0 : @unpackExponent Format.binary64 b = 0#_ ↔
      b.toNat / 2 ^ 52 % 2 ^ 11 = 0 := by
    rw [← BitVec.toNat_inj, he]; simp
  have hm0 : @unpackMantissa Format.binary64 b = 0#_ ↔ b.toNat % 2 ^ 52 = 0 := by
    rw [← BitVec.toNat_inj, hm]; simp
  have hb : Number.ofFloat x = Number.ofBits b.toNat := rfl
  have hu : x.toModel.unpack = UnpackedFloat.unpack Format.binary64 b := rfl
  rw [exact, hb, hu]
  simp only [Number.ofBits, Nat.pow_eq, UnpackedFloat.unpack, h1, h0, hm0]
  by_cases top : b.toNat / 2 ^ 52 % 2 ^ 11 = 2 ^ 11 - 1
  · -- infinities and what is no number are read as zero on both sides
    rw [if_pos top, if_pos top]
    split_ifs <;> rfl
  rw [if_neg top, if_neg top]
  by_cases bottom : b.toNat / 2 ^ 52 % 2 ^ 11 = 0
  · rw [if_pos bottom, if_pos bottom]
    by_cases empty : b.toNat % 2 ^ 52 = 0
    · -- the unpacked form keeps zero apart, the bits do not
      rw [dif_pos empty]
      simp only [unpackedRat, Binary.toRat, empty]
      simp
    · rw [dif_neg empty, unpackedRat, apply_unpackSign, he, hm, bottom]
      rfl
  · rw [if_neg bottom, if_neg bottom, unpackedRat, apply_unpackSign, toNat_one_append, he, hm]
    rfl

/-! ### Comparison with zero -/

theorem le_iff_unpack (x y : Float) :
    x ≤ y ↔ x.toModel.unpack.le y.toModel.unpack = true :=
  decide_eq_true_iff

theorem unpack_zero : (0.0 : Float).toModel.unpack = .zero .positive := rfl

@[simp] theorem exact_zero : exact 0.0 = 0 := by
  rw [exact_eq, unpack_zero, unpackedRat]

theorem exact_nonneg {x : Float} (h : 0.0 ≤ x) : 0 ≤ exact x := by
  rw [le_iff_unpack, unpack_zero] at h
  rw [exact_eq]
  rcases hx : x.toModel.unpack with s | _ | s | ⟨s, m, e, _⟩
  · rfl
  · rfl
  · rfl
  · cases s with
    | negative => rw [hx] at h; cases h
    | positive =>
      show (0 : ℚ) ≤ (m : ℤ) * 2 ^ e
      positivity

theorem exact_nonpos {x : Float} (h : x ≤ 0.0) : exact x ≤ 0 := by
  rw [le_iff_unpack, unpack_zero] at h
  rw [exact_eq]
  rcases hx : x.toModel.unpack with s | _ | s | ⟨s, m, e, _⟩
  · rfl
  · rfl
  · rfl
  · cases s with
    | negative =>
      have hm : (0 : ℚ) ≤ m * 2 ^ e := by positivity
      show ((-(m : ℤ) : ℤ) : ℚ) * 2 ^ e ≤ 0
      push_cast
      linarith
    | positive => rw [hx] at h; cases h

/-- How a value compares with zero, unless it is no number. -/
def compareZero (x : Float) : Option Ordering := x.toModel.unpack.compare (.zero .positive)

theorem zero_compare (u : UnpackedFloat) :
    UnpackedFloat.compare (.zero .positive) u =
      (u.compare (.zero .positive)).map Ordering.swap := by
  rcases u with s | _ | s | ⟨s, m, e, _⟩
  · cases s <;> rfl
  · rfl
  · rfl
  · cases s <;> rfl

theorem isNaN_iff {x : Float} : x.isNaN = true ↔ compareZero x = none := by
  show x.toModel.unpack.isNaN = true ↔ _
  unfold compareZero
  rcases x.toModel.unpack with s | _ | s | ⟨s, m, e, _⟩
  · cases s <;> exact iff_of_false nofun nofun
  · exact iff_of_true rfl rfl
  · exact iff_of_false nofun nofun
  · cases s <;> exact iff_of_false nofun nofun

theorem beq_zero_iff {x : Float} : (x == 0.0) = true ↔ compareZero x = some .eq := by
  show (compareZero x == some .eq) = true ↔ _
  exact beq_iff_eq

theorem lt_zero_iff {x : Float} : x < 0.0 ↔ compareZero x = some .lt := by
  have hlt : x < 0.0 ↔ (compareZero x == some .lt) = true := decide_eq_true_iff
  rw [hlt, beq_iff_eq]

theorem zero_lt_iff {x : Float} : 0.0 < x ↔ compareZero x = some .gt := by
  have hlt : 0.0 < x ↔
      (UnpackedFloat.compare (.zero .positive) x.toModel.unpack == some .lt) = true :=
    decide_eq_true_iff
  rw [hlt, zero_compare, compareZero]
  rcases x.toModel.unpack.compare (.zero .positive) with _ | _ | _ | _ <;> decide

theorem le_zero_iff {x : Float} :
    x ≤ 0.0 ↔ compareZero x = some .lt ∨ compareZero x = some .eq := by
  have hle : x ≤ 0.0 ↔ (compareZero x).any Ordering.isLE = true := decide_eq_true_iff
  rw [hle]
  rcases compareZero x with _ | _ | _ | _ <;> decide

theorem zero_le_iff {x : Float} :
    0.0 ≤ x ↔ compareZero x = some .gt ∨ compareZero x = some .eq := by
  have hle : 0.0 ≤ x ↔
      (UnpackedFloat.compare (.zero .positive) x.toModel.unpack).any Ordering.isLE = true :=
    decide_eq_true_iff
  rw [hle, zero_compare, compareZero]
  rcases x.toModel.unpack.compare (.zero .positive) with _ | _ | _ | _ <;> decide

end DisciplinedConvex.Decimal
