import ShapeCheck.Text.Quoted
import ShapeCheck.Validator.Basic
/-!
# Ready-made rules

Rules on the content of strings, the length of arrays and the range of numbers.
-/
namespace ShapeCheck

namespace Rule

/-- A string with a character in it. -/
def nonEmptyString : Rule where
  name := "NonEmptyString"
  params := []
  accepts v := v.asString?.any (· ≠ "")

/-- An array with at least `min` elements. -/
def minItems (min : Nat) : Rule where
  name := "MinItems"
  params := [("min", toString min)]
  accepts v := v.asArray?.any (min ≤ ·.length)

/-- A string that begins with `start`. -/
def startsWith (start : String) : Rule where
  name := "Prefix"
  params := [("prefix", Text.quote start)]
  accepts v := v.asString?.any fun s => start.toList.isPrefixOf s.toList

end Rule

namespace Validator

/-- Finite numbers. -/
def finite : Validator := .closure fun v => v.asNumber?.any Binary.isFinite

/-- Numbers greater than zero. -/
def positive : Validator := .closure fun v => v.asNumber?.any Binary.isPositive

end Validator

end ShapeCheck
