import ShapeCheck.Value.Equality
/-!
# Validators

A validator says whether a value has a shape. Leaves test the value itself, containers test its
parts, and combinators join validators. Closures and named rules bring in tests from outside.
**Probes** record that they were asked: a stub with an answer of its own, a spy on behalf of another
validator. How a validator answers is `Validator.run`.
-/
namespace ShapeCheck

/-- A test with a name and shown parameters, as `validator` declares one. -/
structure Rule where
  name : String
  params : List (String × String)
  accepts : Value → Bool

inductive Validator where
  -- Leaves.
  | boolean
  | string
  | number
  /-- Accepts `undefined`. -/
  | empty
  /-- Accepts `null`. -/
  | nil
  /-- Accepts what is strictly equal to a value. -/
  | literal (expected : Value)
  /-- Accepts host objects of exactly this type: `instance`. -/
  | host (type : HostType)
  | rule (rule : Rule)
  | closure (accepts : Value → Bool)
  -- Containers.
  | object (inner : Validator)
  | array (inner : Validator)
  | record (fields : List (String × Validator))
  | tuple (items : List Validator)
  -- Combinators.
  | any (members : List Validator)
  | all (members : List Validator)
  | or (left right : Validator)
  | and (left right : Validator)
  /-- The same validator with its type erased: `DynValidator`. -/
  | boxed (inner : Validator)
  /-- Asserts another validator, and accepts if the assertion holds: `asserts`. -/
  | asserting (inner : Validator)
  -- Probes.
  | stub (name : String) (answer : Bool)
  | spy (name : String) (inner : Validator)

instance : Inhabited Validator := ⟨.empty⟩

namespace Validator

/-- Also accepts `undefined`: `optional`. -/
def optional (inner : Validator) : Validator := .or .empty inner

/-- Also accepts `null`: `nullable`. -/
def nullable (inner : Validator) : Validator := .or .nil inner

/-- Validators of which one must accept, joined from the right: `any_of`. -/
def anyOf (first : Validator) : List Validator → Validator
  | [] => first
  | second :: rest => .or first (anyOf second rest)

/-- Validators that must all accept, joined from the right: `all_of`. -/
def allOf (first : Validator) : List Validator → Validator
  | [] => first
  | second :: rest => .and first (allOf second rest)

/-- The validators that an `any` or `all` joins: `validators`. -/
def members : Validator → List Validator
  | .any ms => ms
  | .all ms => ms
  | _ => []

end Validator

end ShapeCheck
