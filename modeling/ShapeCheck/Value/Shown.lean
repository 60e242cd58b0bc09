import ShapeCheck.Number.Text
import ShapeCheck.Text.Layout
import ShapeCheck.Value.Basic
/-!
# Shown values

The text that shows a value to a reader: its kind, and its content where it has one. Tags and
payloads of host objects do not show.
-/
namespace ShapeCheck.Value

open Text

/-- A host object shows its type: `fmt` on `type_name`. -/
def showHost (h : Host) : String := applied Kind.host.title (quote h.type.name)

mutual

/-- The text that shows a value: `fmt`, as it is derived. -/
def shown : Value → String
  | .undefined => Kind.undefined.title
  | .null => Kind.null.title
  | .bool b => applied Kind.bool.title (if b then "true" else "false")
  | .number x => applied Kind.number.title x.literal
  | .string s => applied Kind.string.title (quote s)
  | .array _ elements => applied Kind.array.title (bracketed (shownElements elements))
  | .object _ entries => applied Kind.object.title (braced (shownEntries entries))
  | .host h => applied Kind.host.title (showHost h)

def shownElements : List Value → List String
  | [] => []
  | v :: vs => shown v :: shownElements vs

def shownEntries : List (String × Value) → List (String × String)
  | [] => []
  | (key, v) :: entries => (key, shown v) :: shownEntries entries

end

end ShapeCheck.Value
