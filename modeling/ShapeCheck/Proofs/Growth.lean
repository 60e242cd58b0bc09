import ShapeCheck.Proofs.Connective
import ShapeCheck.Proofs.Lookup
import ShapeCheck.Proofs.Traversal
import ShapeCheck.Validator.Schema
/-!
# Growing schemas

A schema can be grown part by part or made at once. Main theorem `schemas_grow_alike`: it comes out
the same. A key that is given again keeps its place and takes the new validator, so a record asks,
for each key in the order in which the keys were given first, the validator that was given last; the
ones before it are gone.
-/
namespace ShapeCheck

open Entries

namespace RecordSchema

variable {pairs : List (String × Validator)} {v : Value}

theorem chain_append (pairs : List (String × Validator)) (key : String) (w : Validator) :
    chain (pairs ++ [(key, w)]) = (chain pairs).field key w := by
  rw [chain, List.foldl_append]
  rfl

/-- **Grown pair by pair or made at once, a schema is the same.** -/
theorem chain_eq_ofPairs (pairs : List (String × Validator)) : chain pairs = ofPairs pairs := by
  induction pairs using List.reverseRecOn with
  | nil => rfl
  | append_singleton pairs p ih =>
    rw [chain_append, ih]
    exact RecordSchema.ext (Entries.ofPairs_append pairs p.1 p.2).symm

theorem keys_chain (pairs : List (String × Validator)) :
    (chain pairs).keys = (Entries.keys pairs).eraseDups := by
  rw [chain_eq_ofPairs]
  exact keys_ofPairs pairs

example : (chain [("a", .nil), ("b", .string), ("a", .number)]).keys = ["a", "b"] := by decide

theorem size_chain (pairs : List (String × Validator)) :
    (chain pairs).size = (Entries.keys pairs).eraseDups.length := by
  rw [chain_eq_ofPairs]
  exact length_ofPairs pairs

theorem isEmpty_chain : (chain pairs).isEmpty = true ↔ pairs = [] := by
  rw [isEmpty, List.isEmpty_iff_length_eq_zero, ← size, size_chain]
  cases pairs with
  | nil => exact ⟨fun _ => rfl, fun _ => rfl⟩
  | cons p pairs => simp [Entries.keys, List.eraseDups_cons]

/-- The last validator of each key is run on the value at the key. -/
theorem run_chain (pairs : List (String × Validator)) :
    ∃ last : String → Validator,
      (∀ key ∈ Entries.keys pairs, LastGiven pairs key (last key)) ∧
      ∀ v, v.kind = .object → (chain pairs).toValidator.run v = Connective.and.runs
        ((Entries.keys pairs).eraseDups.map fun key => (last key).run (v.field key)) := by
  let last (key : String) : Validator := (get? (Entries.ofPairs pairs) key).getD default
  refine ⟨last, fun key hkey => ?_, fun v hv => ?_⟩
  · obtain ⟨w, hw⟩ := exists_get?_ofPairs_of_mem_keys hkey
    have hlast : last key = w := by simp [last, hw]
    rw [hlast]
    exact (get?_ofPairs pairs key w).1 hw
  · rw [chain_eq_ofPairs, toValidator, Validator.run_record _ hv, ← keys_ofPairs, Entries.keys,
      List.map_map]
    refine congrArg _ (List.map_congr_left fun f hf => ?_)
    have hlast : last f.1 = f.2 := by
      simp [last, (get?_eq_some_iff (distinct_ofPairs pairs)).2 hf]
    rw [Function.comp_apply, hlast]

/-- What is signalled is signalled by the last validator of some key. -/
theorem exists_lastGiven_of_mem_log {signal : Signal}
    (h : signal ∈ ((chain pairs).toValidator.run v).log) :
    ∃ key w, LastGiven pairs key w ∧ signal ∈ (w.run (v.field key)).log := by
  by_cases hv : v.kind = .object
  · rw [chain_eq_ofPairs, toValidator, Validator.run_record _ hv] at h
    obtain ⟨r, hr, h⟩ := Connective.exists_mem_log_of_mem_log_runs h
    obtain ⟨f, hf, rfl⟩ := List.mem_map.1 hr
    exact ⟨f.1, f.2, (mem_ofPairs pairs f.1 f.2).1 hf, h⟩
  · rw [toValidator, Validator.run_of_kind_ne rfl hv] at h
    cases h

/-- A validator whose type is erased counts as the same. -/
theorem run_ofPairs_boxed (pairs : List (String × Validator)) (v : Value) :
    (ofPairs (pairs.map fun p => (p.1, .boxed p.2))).toValidator.run v =
      (ofPairs pairs).toValidator.run v := by
  rw [toValidator_ofPairs, toValidator_ofPairs, ofPairs_map]
  by_cases hv : v.kind = .object
  · rw [Validator.run_record _ hv, Validator.run_record _ hv, List.map_map]
    rfl
  · rw [Validator.run_of_kind_ne rfl hv, Validator.run_of_kind_ne rfl hv]

end RecordSchema

namespace TupleSchema

theorem chain_append (items : List Validator) (w : Validator) :
    chain (items ++ [w]) = (chain items).item w := by
  rw [chain, List.foldl_append]
  rfl

theorem chain_eq_ofList (items : List Validator) : chain items = ofList items := by
  induction items using List.reverseRecOn with
  | nil => rfl
  | append_singleton items w ih => rw [chain_append, ih]; rfl

theorem run_ofList_boxed (items : List Validator) (v : Value) :
    (ofList (items.map .boxed)).toValidator.run v = (ofList items).toValidator.run v := by
  rw [toValidator, toValidator]
  by_cases hv : v.kind = .array
  · rw [Validator.run_tuple _ hv, Validator.run_tuple _ hv]
    refine congrArg _ (List.ext_getElem? fun i => ?_)
    rw [ofList, List.getElem?_mapIdx, List.getElem?_mapIdx, List.getElem?_map, Option.map_map]
    rfl
  · rw [Validator.run_of_kind_ne rfl hv, Validator.run_of_kind_ne rfl hv]

end TupleSchema

/-- Schemas are the same however they are built. A record schema that is grown pair by pair is the
one that is made of the pairs at once. At every stage its keys are the distinct keys given so far,
in the order in which they were given first; a key that is given again does not move. On an object
it runs, for each key in this order and up to the first rejection, the validator that was given
last, on the value at the key, and other values it rejects at once; whatever is signalled is
signalled by one of these validators, and which validator was replaced makes no difference. A tuple
schema that is grown item by item is the one that is made of the items at once. To erase the types
of validators on the way in changes no run. -/
structure GrowAlike : Prop where
  record : ∀ pairs, RecordSchema.chain pairs = RecordSchema.ofPairs pairs
  record_empty : RecordSchema.chain [] = .empty
  record_append : ∀ pairs key w,
    RecordSchema.chain (pairs ++ [(key, w)]) = (RecordSchema.chain pairs).field key w
  keys : ∀ pairs, (RecordSchema.chain pairs).keys = (Entries.keys pairs).eraseDups
  size : ∀ pairs, (RecordSchema.chain pairs).size = (Entries.keys pairs).eraseDups.length
  isEmpty_iff : ∀ pairs, (RecordSchema.chain pairs).isEmpty = true ↔ pairs = []
  again : ∀ (schema : RecordSchema) (key : String) (w : Validator), key ∈ schema.keys →
    (schema.field key w).keys = schema.keys
  last : ∀ pairs, ∃ last : String → Validator,
    (∀ key ∈ Entries.keys pairs, LastGiven pairs key (last key)) ∧
    ∀ v, v.kind = .object → (RecordSchema.chain pairs).toValidator.run v = Connective.and.runs
      ((Entries.keys pairs).eraseDups.map fun key => (last key).run (v.field key))
  misplaced : ∀ pairs v, v.kind ≠ .object →
    (RecordSchema.chain pairs).toValidator.run v = .silent false
  signal : ∀ pairs v signal, signal ∈ ((RecordSchema.chain pairs).toValidator.run v).log →
    ∃ key w, LastGiven pairs key w ∧ signal ∈ (w.run (v.field key)).log
  replaced : ∀ before after key old new, key ∈ Entries.keys after →
    RecordSchema.chain (before ++ (key, old) :: after) =
      RecordSchema.chain (before ++ (key, new) :: after)
  tuple : ∀ items, TupleSchema.chain items = TupleSchema.ofList items
  tuple_empty : TupleSchema.chain [] = .empty
  tuple_append : ∀ items w,
    TupleSchema.chain (items ++ [w]) = (TupleSchema.chain items).item w
  length : ∀ items, (TupleSchema.chain items).size = items.length
  noItems_iff : ∀ items, (TupleSchema.chain items).isEmpty = true ↔ items = []
  record_boxed : ∀ pairs v,
    (RecordSchema.ofPairs (pairs.map fun p => (p.1, .boxed p.2))).toValidator.run v =
      (RecordSchema.ofPairs pairs).toValidator.run v
  tuple_boxed : ∀ items v, (TupleSchema.ofList (items.map .boxed)).toValidator.run v =
    (TupleSchema.ofList items).toValidator.run v

/-- **Schemas are the same however they are built.** -/
theorem schemas_grow_alike : GrowAlike where
  record := RecordSchema.chain_eq_ofPairs
  record_empty := rfl
  record_append := RecordSchema.chain_append
  keys := RecordSchema.keys_chain
  size := RecordSchema.size_chain
  isEmpty_iff _ := RecordSchema.isEmpty_chain
  again _ _ w h := keys_insert_of_mem h w
  last := RecordSchema.run_chain
  misplaced _ _ hv := Validator.run_of_kind_ne rfl hv
  signal _ _ _ := RecordSchema.exists_lastGiven_of_mem_log
  replaced before after key old new h := by
    rw [RecordSchema.chain_eq_ofPairs, RecordSchema.chain_eq_ofPairs]
    exact RecordSchema.ext (ofPairs_overwritten h old new)
  tuple := TupleSchema.chain_eq_ofList
  tuple_empty := rfl
  tuple_append := TupleSchema.chain_append
  length items := by rw [TupleSchema.chain_eq_ofList]; rfl
  noItems_iff items := by
    rw [TupleSchema.chain_eq_ofList]
    exact List.isEmpty_iff
  record_boxed := RecordSchema.run_ofPairs_boxed
  tuple_boxed := TupleSchema.run_ofList_boxed

/-- Two keys, the first given again. -/
def regrown : List (String × Validator) :=
  [("a", .spy "first" .nil), ("b", .string), ("a", .spy "second" .boolean)]

/-- Another validator in place of the replaced one leads to the same schema, to replace one more
moves no key, and what is no object is rejected without a signal. -/
theorem schemas_grow_alike_regrown :
    "a" ∈ Entries.keys [("b", Validator.string), ("a", .spy "second" .boolean)] ∧
    RecordSchema.chain regrown =
      RecordSchema.chain [("a", .nil), ("b", .string), ("a", .spy "second" .boolean)] ∧
    "a" ∈ (RecordSchema.chain regrown).keys ∧
    ((RecordSchema.chain regrown).field "a" .string).keys = ["a", "b"] ∧
    Value.null.kind ≠ .object ∧
    (RecordSchema.chain regrown).toValidator.run .null = .silent false := by
  have hlater : "a" ∈ Entries.keys [("b", Validator.string), ("a", .spy "second" .boolean)] := by
    decide
  have hmem : "a" ∈ (RecordSchema.chain regrown).keys := by decide
  have hkind : Value.null.kind ≠ .object := nofun
  exact ⟨hlater, schemas_grow_alike.replaced [] _ "a" _ .nil hlater, hmem,
    (schemas_grow_alike.again _ "a" .string hmem).trans (by decide), hkind,
    schemas_grow_alike.misplaced regrown .null hkind⟩

end ShapeCheck
