import ShapeCheck.Text.Quoted
/-!
# Shown structures

How a structure is shown on one line, given the texts of its parts: a list, a table, a name applied
to one part, and a name with named parts.
-/
namespace ShapeCheck.Text

/-- The texts with a comma and a blank between them. -/
def commas (texts : List String) : String := ", ".intercalate texts

/-- A list of parts in square brackets. -/
def bracketed (parts : List String) : String := "[" ++ commas parts ++ "]"

/-- A table from keys to parts, in braces. -/
def braced (parts : List (String × String)) : String :=
  "\x7b" ++ commas (parts.map fun p => quote p.1 ++ ": " ++ p.2) ++ "\x7d"

/-- A name applied to one part. -/
def applied (name part : String) : String := name ++ "(" ++ part ++ ")"

/-- A name with named parts. Without parts it is the name alone. -/
def named (name : String) : List (String × String) → String
  | [] => name
  | parts => name ++ " \x7b " ++ commas (parts.map fun p => p.1 ++ ": " ++ p.2) ++ " \x7d"

end ShapeCheck.Text
