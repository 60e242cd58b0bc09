import ShapeCheck.Validator.Layer
import ShapeCheck.Value.Shown
/-!
# Shown validators

The text that shows a validator to a reader. Members of schemas and of `any` and `all` are held with
their type erased, and so are boxed validators: they show as handles. Closures show as such.
-/
namespace ShapeCheck.Validator

open Text

/-- How a validator shows whose type is erased: `fmt` of `DynValidator`. -/
def handle : String := "DynValidator"

/-- How a validator shows that is a function. -/
def functionText : String := "Closure"

/-- The text that shows a validator: `fmt`, one clause for each form. -/
def shown : Validator → String
  | .boolean => "Boolean"
  | .string => "Str"
  | .number => "Number"
  | .empty => "Empty"
  | .nil => "Nil"
  | .literal expected => named "Literal" [("expected", expected.shown)]
  | .host type => applied "InstanceOf" (quote type.name)
  | .rule r => named r.name r.params
  | .closure _ => functionText
  | .object inner => (Layer.object inner.shown).shown
  | .array inner => (Layer.array inner.shown).shown
  | .record fields => named "Record" [("fields", braced (fields.map fun p => (p.1, handle)))]
  | .tuple items => named "Tuple" [("items", handles items)]
  | .any members => named "Any" [("validators", handles members)]
  | .all members => named "All" [("validators", handles members)]
  | .or left right => (Layer.or left.shown right.shown).shown
  | .and left right => (Layer.and left.shown right.shown).shown
  | .boxed _ => handle
  | .asserting _ => functionText
  | .stub _ _ => functionText
  | .spy _ _ => functionText
where
  handles (validators : List Validator) : String := bracketed (validators.map fun _ => handle)

end ShapeCheck.Validator
