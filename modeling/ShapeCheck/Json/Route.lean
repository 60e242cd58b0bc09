import ShapeCheck.Json.Convert
import ShapeCheck.Json.Text
/-!
# Values of JSON texts

Two ways lead from a text to a value: the text is made a tree that is converted, or it is read as it
comes, without a tree. Either way a text with a fault has no value.
-/
namespace ShapeCheck

/-- Why a text has no value. -/
inductive TextError where
  | json (e : JsonError)
  | source (e : SourceError)
deriving DecidableEq, Repr

namespace Json

/-- The tree of a text, as it is kept: a repeated key is there once. -/
def ofText (text : String) : Except JsonError Json := (parse text).map resolve

/-- The value of a text by way of its tree: `from_str` to a tree, then `from`. -/
def valueOfText (text : String) : Fresh (Except TextError) Value := fun serial =>
  match ofText text with
  | .error e => .error (.json e)
  | .ok tree => toValue tree serial

/-- The value that a text is read to directly: `from_str` to a value. No tree is refused, so it
makes no difference that all of the text is looked at before the first value is made. -/
def readText (text : String) : Fresh (Except TextError) Value := fun serial =>
  match parse text with
  | .error e => .error (.json e)
  | .ok tree => ((toSource tree).read serial).mapError .source

end Json

end ShapeCheck
