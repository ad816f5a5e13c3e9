/-
DisciplinedConvex/Decimal/Binary.lean

What a 64-bit floating-point number stands for, read off its bits: nothing, an
infinity, or the exact number `mantissa * 2 ^ exponent` with a sign.
-/

namespace DisciplinedConvex.Decimal

/-- A finite floating-point number, `± mantissa * 2 ^ exponent`. -/
structure Binary where
  negative : Bool
  mantissa : Nat
  exponent : Int
  /-- The gap to the next number towards zero is half of the gap away from it. -/
  narrowBelow : Bool
deriving DecidableEq, Repr

/-- What a floating-point number stands for. -/
inductive Number where
  | notANumber
  | infinity (negative : Bool)
  | finite (x : Binary)
deriving DecidableEq, Repr

/-- The number of a bit pattern: one bit for the sign, eleven for the exponent and fifty-two for the
mantissa. -/
def Number.ofBits (bits : Nat) : Number :=
  let negative := bits.testBit 63
  let exponent : Nat := bits / Nat.pow 2 52 % Nat.pow 2 11
  let fraction : Nat := bits % Nat.pow 2 52
  if exponent = Nat.pow 2 11 - 1 then
    if fraction = 0 then .infinity negative else .notANumber
  else if exponent = 0 then
    .finite { negative, mantissa := fraction, exponent := -1074, narrowBelow := false }
  else
    .finite {
      negative
      mantissa := Nat.pow 2 52 + fraction
      exponent := (exponent : Int) - 1075
      narrowBelow := fraction == 0 && 1 < exponent }

/-- The number that a floating-point value stands for. -/
def Number.ofFloat (x : Float) : Number := ofBits x.toBits.toNat

namespace Binary

/-- The magnitude is `numerator / denominator`. -/
def numerator (x : Binary) : Nat := x.mantissa * Nat.pow 2 x.exponent.toNat

/-- The magnitude is `numerator / denominator`. -/
def denominator (x : Binary) : Nat := Nat.pow 2 (-x.exponent).toNat

theorem denominator_pos (x : Binary) : 0 < x.denominator :=
  Nat.two_pow_pos _

end Binary

end DisciplinedConvex.Decimal
