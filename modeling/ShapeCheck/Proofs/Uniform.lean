import ShapeCheck.Proofs.Connective
import ShapeCheck.Proofs.Reach
import ShapeCheck.Validator.Schema
/-!
# Uniform schemas

A schema that asks one and the same validator everywhere. Main theorem `uniform_schemas`: over the
keys of an object it runs as the validator of all values, over the positions of an array as the
validator of all elements. A shorter tuple schema sees a part of the array, a longer one `undefined`
after the end.
-/
namespace ShapeCheck

/-- The schema that gives each key the validator. -/
def RecordSchema.uniform (keys : List String) (w : Validator) : RecordSchema :=
  ofPairs (keys.map fun key => (key, w))

/-- The schema that gives each of so many positions the validator. -/
def TupleSchema.uniform (size : Nat) (w : Validator) : TupleSchema :=
  ofList (List.replicate size w)

variable (w : Validator)

namespace RecordSchema

theorem fields_uniform {keys : List String} (h : keys.Nodup) :
    (uniform keys w).fields = keys.map fun key => (key, w) := by
  refine Entries.ofPairs_of_distinct ?_
  rw [Entries.Distinct, Entries.keys, List.map_map]
  exact (List.map_id keys).symm ▸ h

/-- A uniform record schema asks its validator about the value at each key. -/
theorem run_uniform {keys : List String} (h : keys.Nodup) {v : Value} (hv : v.kind = .object) :
    (uniform keys w).toValidator.run v =
      Connective.and.runs (keys.map fun key => w.run (v.field key)) := by
  rw [toValidator, Validator.run_record _ hv, fields_uniform w h, List.map_map]
  rfl

/-- **Over its own keys, an object is asked value by value.** -/
theorem run_uniform_keys (tag : Tag) {entries : Entries Value} (h : entries.Distinct) :
    (uniform entries.keys w).toValidator.run (.object tag entries) =
      (Validator.object w).run (.object tag entries) := by
  rw [run_uniform w h rfl, Validator.run_object_of_distinct w tag h]

end RecordSchema

namespace TupleSchema

/-- Equal items see the elements as far as there are any, and `undefined` from there on. -/
theorem runItems_replicate (size : Nat) (elements : List Value) :
    Validator.runItems (List.replicate size w) elements =
      Connective.and.runs ((elements.take size).map w.run ++
        List.replicate (size - elements.length) (w.run .undefined)) := by
  induction size generalizing elements with
  | zero => rw [List.take_zero, Nat.zero_sub]; rfl
  | succ size ih =>
    rw [List.replicate_succ, Validator.runItems, ih]
    cases elements with
    | nil => simp only [List.headD_nil, List.tail_nil, List.take_nil]; rfl
    | cons v elements => rw [List.length_cons, Nat.succ_sub_succ]; rfl

/-- **A uniform tuple schema runs as the validator of all elements on as many elements as it has
items,** and goes on to `undefined` for the items that are left. -/
theorem run_uniform (size : Nat) (tag tag' : Tag) (elements : List Value) :
    (uniform size w).toValidator.run (.array tag elements) =
      ((Validator.array w).run (.array tag' (elements.take size))).andThen fun _ =>
        Connective.and.runs (List.replicate (size - elements.length) (w.run .undefined)) := by
  rw [Validator.run_array]
  exact (runItems_replicate w size elements).trans (Connective.runs_append .and _ _)

/-- **Over its own length, an array is asked element by element.** -/
theorem run_uniform_length (tag : Tag) (elements : List Value) :
    (uniform elements.length w).toValidator.run (.array tag elements) =
      (Validator.array w).run (.array tag elements) := by
  rw [run_uniform w _ tag tag, List.take_length, Nat.sub_self]
  exact Connective.next_silent_right .and _

theorem accepts_uniform (size : Nat) (tag tag' : Tag) (elements : List Value) :
    (uniform size w).toValidator.accepts (.array tag elements) = true ↔
      (Validator.array w).accepts (.array tag' (elements.take size)) = true ∧
        (elements.length < size → w.accepts .undefined = true) := by
  rw [Validator.accepts, run_uniform w size tag tag', Run.accepted_andThen, Bool.and_eq_true,
    Connective.accepted_runs_and, List.all_replicate, ← Nat.sub_pos_iff_lt]
  cases size - elements.length <;> simp [Validator.accepts]

end TupleSchema

/-- A validator of all parts is a uniform schema over them. On an array, the validator of all
elements runs as the tuple schema of as many items, with the same verdict, the same calls and the
same rejections, in the same order. On an object, the validator of all values runs as the record
schema over its keys; the keys are distinct in every object that a program can hold. A uniform tuple
schema of any size runs as the validator of all elements on the array cut to this size, and then on
`undefined` for each item that is left: so it accepts just if the validator of all elements accepts
the cut array and, where the array is too short, the validator accepts `undefined`. -/
structure UniformAlike (w : Validator) : Prop where
  array : ∀ (tag : Tag) (elements : List Value), (Validator.array w).run (.array tag elements) =
    (TupleSchema.uniform elements.length w).toValidator.run (.array tag elements)
  object : ∀ (tag : Tag) (entries : Entries Value), entries.Distinct →
    (Validator.object w).run (.object tag entries) =
      (RecordSchema.uniform entries.keys w).toValidator.run (.object tag entries)
  distinct : ∀ (world : World) (tag : Tag) (entries : Entries Value), World.Reachable world →
    world.Found (.object tag entries) → entries.Distinct
  tuple : ∀ (size : Nat) (tag tag' : Tag) (elements : List Value),
    (TupleSchema.uniform size w).toValidator.run (.array tag elements) =
      ((Validator.array w).run (.array tag' (elements.take size))).andThen fun _ =>
        Connective.and.runs (List.replicate (size - elements.length) (w.run .undefined))
  accepts_tuple_iff : ∀ (size : Nat) (tag tag' : Tag) (elements : List Value),
    (TupleSchema.uniform size w).toValidator.accepts (.array tag elements) = true ↔
      (Validator.array w).accepts (.array tag' (elements.take size)) = true ∧
        (elements.length < size → w.accepts .undefined = true)

/-- **A validator of all parts is a uniform schema over them.** -/
theorem uniform_schemas (w : Validator) : UniformAlike w where
  array tag elements := (TupleSchema.run_uniform_length w tag elements).symm
  object tag _ h := (RecordSchema.run_uniform_keys w tag h).symm
  distinct _ _ _ hw hfound := (World.wellKeyed_of_found hw hfound).entries
  tuple := TupleSchema.run_uniform w
  accepts_tuple_iff := TupleSchema.accepts_uniform w

namespace Validator

/-- Watched at every value: a rejection is signalled after the call. -/
def watchedNil : Validator := .asserting (.spy "watched" .nil)

theorem uniform_schemas_watched :
    Entries.Distinct [("a", Value.null), ("b", .bool true), ("c", .null)] ∧
    (RecordSchema.uniform ["a", "b", "c"] watchedNil).toValidator.run
        (.object ⟨0⟩ [("a", .null), ("b", .bool true), ("c", .null)]) =
      ⟨false, [.call "watched" .null, .call "watched" .bool, .rejection .bool]⟩ := by
  have hd : Entries.Distinct [("a", Value.null), ("b", .bool true), ("c", .null)] := by
    rw [Entries.Distinct]
    decide
  exact ⟨hd, ((uniform_schemas watchedNil).object ⟨0⟩ _ hd).symm⟩

end Validator

end ShapeCheck
