import ShapeCheck.Text.Layout
import ShapeCheck.Validator.Basic
/-!
# Layers

A layer is one combinator or container around its parts, whatever the parts are: validators, their
texts, or anything else that can be told apart.
-/
namespace ShapeCheck

inductive Layer (α : Type) where
  | and (left right : α)
  | or (left right : α)
  | object (inner : α)
  | array (inner : α)
  | asserts (inner : α)
deriving DecidableEq, Repr

namespace Layer

variable {α β : Type}

/-- The parts from left to right: `into_parts` where there are two, else `inner`. -/
def parts : Layer α → List α
  | .and left right => [left, right]
  | .or left right => [left, right]
  | .object inner => [inner]
  | .array inner => [inner]
  | .asserts inner => [inner]

def map (f : α → β) : Layer α → Layer β
  | .and left right => .and (f left) (f right)
  | .or left right => .or (f left) (f right)
  | .object inner => .object (f inner)
  | .array inner => .array (f inner)
  | .asserts inner => .asserts (f inner)

theorem parts_map (f : α → β) (layer : Layer α) : (layer.map f).parts = layer.parts.map f := by
  cases layer <;> rfl

/-- The text that shows a layer, given the texts of its parts. -/
def shown : Layer String → String
  | .and left right => Text.named "And" [("left", left), ("right", right)]
  | .or left right => Text.named "Or" [("left", left), ("right", right)]
  | .object inner => Text.named "ObjectOf" [("inner", inner)]
  | .array inner => Text.named "ArrayOf" [("inner", inner)]
  | .asserts inner => Text.named "Asserts" [("inner", inner)]

/-- The validator of a layer of validators. -/
def toValidator : Layer Validator → Validator
  | .and left right => .and left right
  | .or left right => .or left right
  | .object inner => .object inner
  | .array inner => .array inner
  | .asserts inner => .asserting inner

end Layer

end ShapeCheck
