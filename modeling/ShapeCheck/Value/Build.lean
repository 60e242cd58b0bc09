import ShapeCheck.Value.Basic
/-!
# Building values

Making an array, an object or a host object draws a fresh tag from a supply, which only counts.
Everything else is built from parts as they are: a copied value keeps its tag.
-/
namespace ShapeCheck

/-- A computation that draws tags from a supply; the state is the next serial. -/
abbrev Fresh (m : Type → Type) : Type → Type := StateT Nat m

variable {m : Type → Type} [Monad m]

/-- A tag that was not given out before. -/
def freshTag : Fresh m Tag := fun serial => pure (⟨serial⟩, serial + 1)

namespace Value

/-- A new array of these elements: `array`. -/
def newArray (elements : List Value) : Fresh m Value :=
  return .array (← freshTag) elements

/-- A new object: `object`. A repeated key keeps its first position and takes the last value. -/
def newObject (pairs : List (String × Value)) : Fresh m Value :=
  return .object (← freshTag) (Entries.ofPairs pairs)

/-- A new host object: `instance`. -/
def newHost (type : HostType) (payload : Payload) : Fresh m Value :=
  return .host (.mk (← freshTag) type payload)

/-- The `from` of an optional value: nothing is `null`. -/
def ofOption : Option Value → Value
  | none => .null
  | some v => v

/-- The `from` of an integer, one text for all widths in `number_from`. -/
def ofWord (w : Word) : Value := .number w.toDouble

/-- The `from` of a single: the number as it is, in the wider format. -/
def ofSingle (x : Single) : Value := .number x.convert

end Value

end ShapeCheck
