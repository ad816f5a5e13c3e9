/-
DisciplinedConvex/Text/Quoted.lean

Text between double quotes.  The quote and the backslash are written behind a
backslash, five controls by a letter of their own, and every other unprintable
character by its number: `\u`, then the hexadecimal digits between braces.
-/
import DisciplinedConvex.Text.Unprintable

namespace DisciplinedConvex.Text

/-- How one character stands between quotes. -/
def escape (c : Char) : List Char :=
  match c with
  | '"' => ['\\', '"']
  | '\\' => ['\\', '\\']
  | '\n' => ['\\', 'n']
  | '\r' => ['\\', 'r']
  | '\t' => ['\\', 't']
  | '\x00' => ['\\', '0']
  | c =>
    if isUnprintable c then
      ['\\', 'u', '\x7b'] ++ Nat.toDigits 16 c.toNat ++ ['\x7d']
    else [c]

/-- The text between double quotes. -/
def quote (s : String) : String :=
  String.ofList ('"' :: s.toList.flatMap escape ++ ['"'])

end DisciplinedConvex.Text
