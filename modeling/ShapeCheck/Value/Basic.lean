import ShapeCheck.Entries
import ShapeCheck.Word
/-!
# Values

A value is untyped data as a validator sees it. Two markers stand for absence: `undefined` for what
is missing, `null` for what is explicitly empty. Arrays, objects and host objects carry a **tag**,
the identity they got when they were made; a copy keeps it. Host objects are opaque: a validator
sees their type, and only who knows the type reads the payload.
-/
namespace ShapeCheck

/-- The identity of an array, an object or a host object. -/
structure Tag where
  serial : Nat
deriving DecidableEq, Repr

/-- A type of host objects. Types are nominal: they are told apart by their identity alone. The name
is for messages, and two types may share it. -/
structure HostType where
  id : Nat
  name : String
deriving DecidableEq, Repr

mutual

inductive Value where
  | undefined
  | null
  | bool (b : Bool)
  | number (x : Double)
  | string (s : String)
  | array (tag : Tag) (elements : List Value)
  | object (tag : Tag) (entries : List (String × Value))
  | host (h : Host)

/-- An object of the host program. -/
inductive Host where
  | mk (tag : Tag) (type : HostType) (payload : Payload)

/-- What a host object holds. -/
inductive Payload where
  | unit
  | number (x : Double)
  | natural (n : Nat)
  | text (s : String)
  | value (v : Value)
  | host (h : Host)

end

instance : Inhabited Value := ⟨.undefined⟩

namespace Host

/-- The identity that `ptr_eq` compares. -/
def tag : Host → Tag
  | .mk tag _ _ => tag

/-- The type that it was made with; its name is `type_name`. -/
def type : Host → HostType
  | .mk _ type _ => type

def payload : Host → Payload
  | .mk _ _ payload => payload

/-- The same host object, not only one like it: `ptr_eq`. -/
def same (g h : Host) : Bool := g.tag == h.tag

/-- The payload, for who asks with the right type: `downcast_ref`, and `is` if only whether there is
one. Names are not looked at. -/
def payload? (h : Host) (type : HostType) : Option Payload :=
  if h.type.id = type.id then some h.payload else none

end Host

/-! ## Kinds -/

/-- The kind of a value. -/
inductive Kind where
  | undefined
  | null
  | bool
  | number
  | string
  | array
  | object
  | host
deriving DecidableEq, Repr

namespace Kind

/-- The kind in messages: `as_str`. -/
def name : Kind → String
  | .undefined => "undefined"
  | .null => "null"
  | .bool => "boolean"
  | .number => "number"
  | .string => "string"
  | .array => "array"
  | .object => "object"
  | .host => "instance"

/-- The kind as the head of a shown value. -/
def title : Kind → String
  | .undefined => "Undefined"
  | .null => "Null"
  | .bool => "Bool"
  | .number => "Number"
  | .string => "String"
  | .array => "Array"
  | .object => "Object"
  | .host => "Instance"

end Kind

namespace Value

/-- The kind of a value: `kind`. -/
def kind : Value → Kind
  | .undefined => .undefined
  | .null => .null
  | .bool _ => .bool
  | .number _ => .number
  | .string _ => .string
  | .array _ _ => .array
  | .object _ _ => .object
  | .host _ => .host

/-- Is the value `undefined`? This is `is_undefined`. -/
def isUndefined (v : Value) : Bool := v.kind = .undefined

/-- Is the value `null`? This is `is_null`. -/
def isNull (v : Value) : Bool := v.kind = .null

/-! ## Typed views

The content of a value of one kind, and nothing of the others: `as_bool`, `as_f64`, `as_str`,
`as_array`, `as_object` and `as_instance`. -/

def asBool? : Value → Option Bool
  | .bool b => some b
  | _ => none

def asNumber? : Value → Option Double
  | .number x => some x
  | _ => none

def asString? : Value → Option String
  | .string s => some s
  | _ => none

def asArray? : Value → Option (List Value)
  | .array _ elements => some elements
  | _ => none

def asObject? : Value → Option (Entries Value)
  | .object _ entries => some entries
  | _ => none

def asHost? : Value → Option Host
  | .host h => some h
  | _ => none

/-! ## Parts -/

/-- The value at a key, `get`: `undefined` when the key is missing or the value is no object. -/
def field (v : Value) (key : String) : Value :=
  match v with
  | .object _ entries => (Entries.get? entries key).getD .undefined
  | _ => .undefined

/-- The element at an index, `at`: `undefined` past the end or when the value is no array. -/
def item (v : Value) (index : Nat) : Value :=
  match v with
  | .array _ elements => elements.getD index .undefined
  | _ => .undefined

end Value

end ShapeCheck
