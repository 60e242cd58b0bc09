import ShapeCheck.Proofs.Lookup
import ShapeCheck.Source.Read
/-!
# What a source stands for

Values that were made apart differ in the identities of their arrays and objects even if they are
the same otherwise. `Value.untagged` strikes these identities out, and `Source.meaning` is the
value of a source without them: an element for each item and an entry for each key, to the last one.
Nothing here mentions serials or refusals.
-/
namespace ShapeCheck

namespace Value

mutual

/-- The value with the identities of its arrays and objects struck out, at every depth. Host objects
are not entered. -/
@[simp] def untagged : Value → Value
  | .undefined => .undefined
  | .null => .null
  | .bool b => .bool b
  | .number x => .number x
  | .string s => .string s
  | .array _ elements => .array ⟨0⟩ (untaggedElements elements)
  | .object _ entries => .object ⟨0⟩ (untaggedEntries entries)
  | .host h => .host h

@[simp] def untaggedElements : List Value → List Value
  | [] => []
  | v :: vs => untagged v :: untaggedElements vs

@[simp] def untaggedEntries : List (String × Value) → List (String × Value)
  | [] => []
  | (key, v) :: entries => (key, untagged v) :: untaggedEntries entries

end

theorem untaggedEntries_eq_map (entries : List (String × Value)) :
    untaggedEntries entries = entries.map fun e => (e.1, e.2.untagged) := by
  induction entries with
  | nil => rfl
  | cons e entries ih => rw [untaggedEntries, ih, List.map_cons]

/-- An object made of pairs is made of the pairs without identities. -/
theorem untaggedEntries_ofPairs (pairs : List (String × Value)) :
    untaggedEntries (Entries.ofPairs pairs) = Entries.ofPairs (untaggedEntries pairs) := by
  rw [untaggedEntries_eq_map, untaggedEntries_eq_map, Entries.ofPairs_map]

@[simp] theorem kind_untagged (v : Value) : v.untagged.kind = v.kind := by
  cases v <;> rfl

/-- The text that a value has as a key; nothing for a value that is no key. -/
def keyString (v : Value) : String := v.keyText.toOption.getD ""

@[simp] theorem keyString_untagged (v : Value) : v.untagged.keyString = v.keyString := by
  cases v <;> rfl

end Value

namespace Source

mutual

/-- The value that a source stands for, without identities. A node that no value stands for counts
as `undefined`. -/
@[simp] def meaning : Source → Value
  | .bool b => .bool b
  | .word w => .ofWord w
  | .single x => .ofSingle x
  | .double x => .number x
  | .char c => .string c.toString
  | .text _ s => .string s
  | .absent => .null
  | .present inner => meaning inner
  | .unit => .null
  | .sequence items => .array ⟨0⟩ (meaningItems items)
  | .map entries => .object ⟨0⟩ (Entries.ofPairs (meaningEntries entries))
  | .wideInt _ _ => .undefined
  | .bytes _ _ => .undefined
  | .newtype _ => .undefined
  | .enumeration _ => .undefined
  | .failure _ => .undefined

@[simp] def meaningItems : List Source → List Value
  | [] => []
  | item :: items => meaning item :: meaningItems items

@[simp] def meaningEntries : List (Source × Source) → List (String × Value)
  | [] => []
  | (key, value) :: entries =>
    ((meaning key).keyString, meaning value) :: meaningEntries entries

end

theorem meaningItems_eq_map (items : List Source) :
    meaningItems items = items.map meaning := by
  induction items with
  | nil => rfl
  | cons item items ih => rw [meaningItems, ih, List.map_cons]

theorem meaningEntries_eq_map (entries : List (Source × Source)) :
    meaningEntries entries =
      entries.map fun e => (e.1.meaning.keyString, e.2.meaning) := by
  induction entries with
  | nil => rfl
  | cons e entries ih => rw [meaningEntries, ih, List.map_cons]

end Source

end ShapeCheck
