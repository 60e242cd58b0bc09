import ShapeCheck.Entries
import ShapeCheck.Number.Binary
/-!
# JSON trees

A JSON tree as a text spells it: members in order, a repeated key as often as it is written. Numbers
are held as an unsigned word, a negative word, or a double.
-/
namespace ShapeCheck

inductive JsonNumber where
  | unsigned (n : UInt64)
  | negative (n : Int64)
  | real (x : Double)
deriving DecidableEq, Repr

inductive Json where
  | null
  | bool (b : Bool)
  | number (n : JsonNumber)
  | string (s : String)
  | array (elements : List Json)
  | object (members : List (String × Json))

namespace Json

mutual

/-- The tree with every repeated key resolved: its first position, its last value. -/
def resolve : Json → Json
  | .null => .null
  | .bool b => .bool b
  | .number n => .number n
  | .string s => .string s
  | .array elements => .array (resolveElements elements)
  | .object members => .object (Entries.ofPairs (resolveMembers members))

def resolveElements : List Json → List Json
  | [] => []
  | j :: js => resolve j :: resolveElements js

def resolveMembers : List (String × Json) → List (String × Json)
  | [] => []
  | (key, j) :: members => (key, resolve j) :: resolveMembers members

end

end Json

end ShapeCheck
