import ShapeCheck.Value.Basic
/-!
# Data sources

A source is what a data format hands over: scalars of every width, text in several forms, optional
data, sequences and maps whose keys are data again. It describes itself, so it can be read without
knowing what to expect. Some nodes have no value to stand for them, and a source may fail by itself.
-/
namespace ShapeCheck

/-- Who owns a text that a source hands over. Readers make no difference. -/
inductive TextForm where
  | transient
  | borrowed
  | owned
deriving DecidableEq, Repr

inductive Source where
  | bool (b : Bool)
  | word (w : Word)
  | single (x : Single)
  | double (x : Double)
  | char (c : Char)
  | text (form : TextForm) (s : String)
  | absent
  | present (inner : Source)
  | unit
  | sequence (items : List Source)
  | map (entries : List (Source × Source))
  | wideInt (signed : Bool) (n : Int)
  | bytes (owned : Bool) (content : String)
  | newtype (inner : Source)
  | enumeration (variant : String)
  | failure (message : String)

/-- A node that no value stands for. -/
inductive Unsupported where
  | wideInt (signed : Bool) (n : Int)
  | bytes
  | newtype
  | enumeration
deriving DecidableEq, Repr

/-- Why a source was refused. -/
inductive SourceError where
  | unsupported (node : Unsupported)
  | unsupportedKey (kind : Kind)
  | failure (message : String)
deriving DecidableEq, Repr

/-- What the node is called in messages. -/
def Unsupported.name : Unsupported → String
  | .wideInt signed n =>
    "integer `" ++ toString n ++ "` as " ++ (if signed then "i128" else "u128")
  | .bytes => "byte array"
  | .newtype => "newtype struct"
  | .enumeration => "enum"

/-- The message of a refusal. What a value can be read from is called as in `expecting`. -/
def SourceError.message : SourceError → String
  | .unsupported node => "invalid type: " ++ node.name ++ ", expected any self-describing value"
  | .unsupportedKey kind => "unsupported " ++ kind.name ++ " map key"
  | .failure message => message

end ShapeCheck
