/-
DisciplinedConvex/Text/Record.lean

Texts of structured values: a name with its fields between braces, a name with
its arguments between parentheses, and a list between brackets.
-/

namespace DisciplinedConvex.Text

/-- Items with a comma and a blank between them. -/
def commaSeparated (items : List String) : String :=
  String.intercalate ", " items

/-- The name of a structure and its fields between braces. -/
def record (name : String) (fields : List (String × String)) : String :=
  name ++ " \x7b " ++ commaSeparated (fields.map fun f => f.1 ++ ": " ++ f.2) ++ " \x7d"

/-- A name and its arguments between parentheses. -/
def applied (name : String) (args : List String) : String :=
  name ++ "(" ++ commaSeparated args ++ ")"

/-- A list between brackets. -/
def bracketed (items : List String) : String :=
  "[" ++ commaSeparated items ++ "]"

end DisciplinedConvex.Text
