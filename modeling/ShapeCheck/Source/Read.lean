import ShapeCheck.Number.Text
import ShapeCheck.Source.Basic
import ShapeCheck.Value.Build
/-!
# Reading a source

Reading goes from left to right and depth first, and stops at the first node that it refuses. Of a
map entry the key is read first, then checked, and then the value is read. Keys are text in the end:
a scalar key is replaced by its text, other keys are refused.
-/
namespace ShapeCheck

/-- The text that a value has as a key: `object_key`. -/
def Value.keyText : Value → Except SourceError String
  | .string s => .ok s
  | .number x => .ok x.plain
  | .bool b => .ok (if b then "true" else "false")
  | v => .error (.unsupportedKey v.kind)

/-- Reading draws tags, and ends at the first refusal. -/
abbrev Reading : Type → Type := Fresh (Except SourceError)

namespace Source

mutual

/-- The value of a source: `deserialize`, which takes whatever comes. The nodes that become values
have a visitor of their own: `visit_bool`, `visit_i64`, `visit_u64`, `visit_f64`, `visit_str`,
`visit_string`, `visit_none`, `visit_some`, `visit_unit`, `visit_seq` and `visit_map`. -/
def read : Source → Reading Value
  | .bool b => return .bool b
  | .word w => return .ofWord w
  | .single x => return .ofSingle x
  | .double x => return .number x
  | .char c => return .string c.toString
  | .text _ s => return .string s
  | .absent => return .null
  | .present inner => read inner
  | .unit => return .null
  | .sequence items => do Value.newArray (← readItems items)
  | .map entries => do Value.newObject (← readEntries entries)
  | .wideInt signed n => throw (.unsupported (.wideInt signed n))
  | .bytes _ _ => throw (.unsupported .bytes)
  | .newtype _ => throw (.unsupported .newtype)
  | .enumeration _ => throw (.unsupported .enumeration)
  | .failure message => throw (.failure message)

/-- The loop of `visit_seq`. -/
def readItems : List Source → Reading (List Value)
  | [] => return []
  | item :: items => do
    let v ← read item
    let vs ← readItems items
    return v :: vs

/-- The loop of `visit_map`, which takes each key through `object_key`. The pairs are put together
after it, by `newObject`. -/
def readEntries : List (Source × Source) → Reading (List (String × Value))
  | [] => return []
  | (key, value) :: entries => do
    let k ← read key
    let text ← k.keyText
    let v ← read value
    let rest ← readEntries entries
    return (text, v) :: rest

end

end Source

end ShapeCheck
