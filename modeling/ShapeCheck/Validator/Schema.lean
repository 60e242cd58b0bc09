import ShapeCheck.Validator.Run
/-!
# Schemas

A record schema gives each key a validator, a tuple schema each position. Both are open: a key or an
element that the schema does not mention is ignored, and what is missing is seen as `undefined`.
A schema is made at once from its parts or grown part by part.
-/
namespace ShapeCheck

/-- A validator for each key, in schema order: `Record`. -/
@[ext]
structure RecordSchema where
  fields : Entries Validator
  /-- A key has one validator. -/
  distinct : Entries.Distinct fields

namespace RecordSchema

/-- The schema that asks nothing of an object: `new`. -/
def empty : RecordSchema := ⟨[], List.nodup_nil⟩

/-- Adds the validator of a key, or replaces it where it stands: `field`. -/
def field (schema : RecordSchema) (key : String) (validator : Validator) : RecordSchema :=
  ⟨schema.fields.insert key validator, Entries.distinct_insert schema.distinct key validator⟩

/-- The schema of these pairs, by `from_iter`: of a repeated key the last validator, at its first
position. -/
def ofPairs (pairs : List (String × Validator)) : RecordSchema :=
  ⟨Entries.ofPairs pairs, Entries.distinct_ofPairs pairs⟩

/-- The schema grown pair by pair: `record` with its pairs written out. -/
def chain (pairs : List (String × Validator)) : RecordSchema :=
  pairs.foldl (fun schema p => schema.field p.1 p.2) empty

/-- The keys in schema order: `keys`. -/
def keys (schema : RecordSchema) : List String := Entries.keys schema.fields

/-- How many keys there are: `len`. -/
def size (schema : RecordSchema) : Nat := schema.fields.length

/-- Is there no key? This is `is_empty`. -/
def isEmpty (schema : RecordSchema) : Bool := schema.fields.isEmpty

def toValidator (schema : RecordSchema) : Validator := .record schema.fields

theorem toValidator_ofPairs (pairs : List (String × Validator)) :
    (ofPairs pairs).toValidator = .record (Entries.ofPairs pairs) := rfl

end RecordSchema

/-- A validator for each position: `Tuple`. -/
structure TupleSchema where
  items : List Validator

namespace TupleSchema

/-- The schema that asks nothing of an array: `new`. -/
def empty : TupleSchema := ⟨[]⟩

/-- Adds the validator of the next position: `item`. -/
def item (schema : TupleSchema) (validator : Validator) : TupleSchema :=
  ⟨schema.items ++ [validator]⟩

/-- The schema of these validators, by `from_iter`. -/
def ofList (items : List Validator) : TupleSchema := ⟨items⟩

/-- The schema grown item by item: `tuple` with its items written out. -/
def chain (items : List Validator) : TupleSchema := items.foldl item empty

/-- How many positions there are: `len`. -/
def size (schema : TupleSchema) : Nat := schema.items.length

/-- Is there no position? This is `is_empty`. -/
def isEmpty (schema : TupleSchema) : Bool := schema.items.isEmpty

def toValidator (schema : TupleSchema) : Validator := .tuple schema.items

end TupleSchema

end ShapeCheck
