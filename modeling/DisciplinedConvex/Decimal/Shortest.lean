/-
DisciplinedConvex/Decimal/Shortest.lean

The fewest decimal digits that read back as a given floating-point number.

The reals that round to the number form an interval: from halfway to the
neighbour below to halfway to the neighbour above, ends included if the
mantissa is even.  For one digit, two digits, and so on, the two points next to
the number on that decimal grid are tried; the first grid with a point in the
interval wins, of two such points the nearer, and of two equally near the
larger.  All comparisons are exact, over the naturals.
-/
import DisciplinedConvex.Decimal.Binary

namespace DisciplinedConvex

/-- The number `digits * 10 ^ exponent`. -/
structure Decimal where
  digits : Nat
  exponent : Int
deriving DecidableEq, Repr

namespace Decimal

/-- How `d` compares with `n * 2 ^ k`. -/
def compareBinary (d : Decimal) (n : Nat) (k : Int) : Ordering :=
  compare (d.digits * Nat.pow 10 d.exponent.toNat * Nat.pow 2 (-k).toNat)
    (n * Nat.pow 2 k.toNat * Nat.pow 10 (-d.exponent).toNat)

/-- The same number, with the zeros at the end of its digits moved to the exponent. -/
def trim (d : Decimal) : Decimal :=
  if 0 < d.digits ∧ d.digits % 10 = 0 then
    trim { digits := d.digits / 10, exponent := d.exponent + 1 }
  else d
termination_by d.digits
decreasing_by exact Nat.div_lt_self (by omega) (by decide)

namespace Binary

/-- `d` is among the reals that round to the magnitude of `x`. -/
def readsBack (x : Binary) (d : Decimal) : Bool :=
  let lower := if x.narrowBelow then 4 * x.mantissa - 1 else 4 * x.mantissa - 2
  let upper := 4 * x.mantissa + 2
  let atEnds := x.mantissa % 2 == 0
  let low := d.compareBinary lower (x.exponent - 2)
  let high := d.compareBinary upper (x.exponent - 2)
  (low == .gt || (atEnds && low == .eq)) && (high == .lt || (atEnds && high == .eq))

/-- The least `k` for which the magnitude of a number other than zero is below `10 ^ k`. -/
def magnitude (x : Binary) : Int :=
  let count (n : Nat) : Int := (Nat.toDigits 10 n).length
  if x.denominator ≤ x.numerator then count (x.numerator / x.denominator)
  else 1 - count ((x.denominator - 1) / x.numerator)

/-- The greatest `n` for which `n * 10 ^ k` is not above the magnitude. -/
def floorOn (x : Binary) (k : Int) : Nat :=
  x.numerator * Nat.pow 10 (-k).toNat / (x.denominator * Nat.pow 10 k.toNat)

/-- The point on the grid of step `10 ^ k` that reads back, of two the nearer, of equally near ones
the larger. -/
def nearestOn? (x : Binary) (k : Int) : Option Decimal :=
  let below : Decimal := ⟨x.floorOn k, k⟩
  let above : Decimal := ⟨x.floorOn k + 1, k⟩
  let middle : Decimal := ⟨2 * x.floorOn k + 1, k⟩
  match x.readsBack below, x.readsBack above with
  | true, true =>
    if middle.compareBinary x.mantissa (x.exponent + 1) == .gt then some below else some above
  | true, false => some below
  | false, true => some above
  | false, false => none

/-- The magnitude itself, as a decimal. -/
def exactDecimal (x : Binary) : Decimal where
  digits := x.mantissa * Nat.pow 2 x.exponent.toNat * Nat.pow 5 (-x.exponent).toNat
  exponent := -(-x.exponent).toNat

/-- The shortest decimal that reads back as the magnitude of `x`. -/
def shortest (x : Binary) : Decimal :=
  if x.mantissa = 0 then ⟨0, 0⟩
  else
    let found := (List.range' 1 17).findSome? fun (n : Nat) => x.nearestOn? (x.magnitude - n)
    (found.getD x.exactDecimal).trim

end Binary

end Decimal

end DisciplinedConvex
