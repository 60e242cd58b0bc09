import ShapeCheck.Json.Basic
import ShapeCheck.Source.Read
/-!
# Values of JSON trees

Two ways lead from a tree to a value: building the value from the tree, and presenting the tree as a
data source that is then read.
-/
namespace ShapeCheck

/-- The double nearest to a JSON number: `as_f64`. -/
def JsonNumber.double? : JsonNumber → Option Double
  | .unsigned n => some (.ofInt n.toNat)
  | .negative n => some (.ofInt n.toInt)
  | .real x => some x

/-- The double that a value has for a JSON number: `as_f64` with `unwrap_or`. -/
def JsonNumber.toDouble (n : JsonNumber) : Double := n.double?.getD .nan

/-- How a JSON number is handed to a reader. -/
def JsonNumber.toSource : JsonNumber → Source
  | .unsigned n => .word (.uint64 n)
  | .negative n => .word (.int64 n)
  | .real x => .double x

namespace Json

mutual

/-- A new value with the content of the tree: `from` of a borrowed tree. -/
def toValue {m : Type → Type} [Monad m] : Json → Fresh m Value
  | .null => return .null
  | .bool b => return .bool b
  | .number n => return .number n.toDouble
  | .string s => return .string s
  | .array elements => do Value.newArray (← elementValues elements)
  | .object members => do Value.newObject (← memberValues members)

def elementValues {m : Type → Type} [Monad m] : List Json → Fresh m (List Value)
  | [] => return []
  | j :: js => do
    let v ← toValue j
    let vs ← elementValues js
    return v :: vs

def memberValues {m : Type → Type} [Monad m] :
    List (String × Json) → Fresh m (List (String × Value))
  | [] => return []
  | (key, j) :: members => do
    let v ← toValue j
    let vs ← memberValues members
    return (key, v) :: vs

end

/-- The same for a tree that is given up: `from` of an owned tree. -/
def intoValue {m : Type → Type} [Monad m] (tree : Json) : Fresh m Value := toValue tree

mutual

/-- The tree as a data source. -/
def toSource : Json → Source
  | .null => .unit
  | .bool b => .bool b
  | .number n => n.toSource
  | .string s => .text .transient s
  | .array elements => .sequence (elementSources elements)
  | .object members => .map (memberSources members)

def elementSources : List Json → List Source
  | [] => []
  | j :: js => toSource j :: elementSources js

def memberSources : List (String × Json) → List (Source × Source)
  | [] => []
  | (key, j) :: members => (.text .transient key, toSource j) :: memberSources members

end

end Json

end ShapeCheck
