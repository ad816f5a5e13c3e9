/-
DisciplinedConvex/Decimal/Positional.lean

Numbers as text, always positional: there is no exponent, a whole number has no
point, the sign of zero is kept, and what is no number or infinite is named.
-/
import DisciplinedConvex.Decimal.Shortest

namespace DisciplinedConvex.Decimal

/-- The digits of a decimal, with zeros up to the point, and the point if any places follow it. -/
def positional (d : Decimal) : String :=
  let digits := Nat.toDigits 10 d.digits
  match d.exponent with
  | .ofNat zeros => String.ofList (digits ++ List.replicate zeros '0')
  | .negSucc places =>
    let padded := List.replicate (places + 2 - digits.length) '0' ++ digits
    let whole := padded.length - (places + 1)
    String.ofList (padded.take whole ++ '.' :: padded.drop whole)

/-- The sign and the shortest digits of a number. -/
def Number.text : Number → String
  | .notANumber => "NaN"
  | .infinity negative => if negative then "-inf" else "inf"
  | .finite x => (if x.negative then "-" else "") ++ x.shortest.positional

/-- A floating-point number as text. -/
def floatText (x : Float) : String := (Number.ofFloat x).text

end DisciplinedConvex.Decimal
