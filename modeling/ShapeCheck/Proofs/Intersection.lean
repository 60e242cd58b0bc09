import ShapeCheck.Proofs.Verdict
import ShapeCheck.Proofs.Traversal
import ShapeCheck.Validator.Schema
/-!
# Intersections of schemas

Several record schemas can be asked one after the other, with `all`, or put together into one. Main
theorem `intersect_records`: if no key is in two of them, the schema of all their fields runs as the
schemas in turn do. Else it may ask too little, since a field gives way to a later one with the same
key; what has the verdict of all schemas is the schema that asks at each key what all of them ask
there (`RecordSchema.intersection`).
-/
namespace ShapeCheck

open Entries

namespace RecordSchema

variable {lists : List (List (String × Validator))} {v : Value}

/-- All of these schemas. -/
def every (lists : List (List (String × Validator))) : Validator :=
  .all (lists.map fun pairs => (ofPairs pairs).toValidator)

/-- What the schemas ask at a key: all validators that they hold for it. -/
def conjunction (schemas : List RecordSchema) (key : String) : Validator :=
  .all (schemas.filterMap fun schema => get? schema.fields key)

/-- The schema that asks at each key what all the schemas ask there. -/
def intersection (schemas : List RecordSchema) : RecordSchema :=
  ofPairs ((schemas.flatMap keys).map fun key => (key, conjunction schemas key))

theorem keys_intersection (schemas : List RecordSchema) :
    (intersection schemas).keys = (schemas.flatMap keys).eraseDups := by
  refine (keys_ofPairs _).trans ?_
  rw [Entries.keys, List.map_map]
  exact congrArg _ (List.map_id _)

theorem get?_intersection {schemas : List RecordSchema} {key : String}
    (h : key ∈ schemas.flatMap keys) :
    get? (intersection schemas).fields key = some (conjunction schemas key) := by
  have hmem : key ∈ (intersection schemas).keys := by
    rw [keys_intersection]
    exact List.mem_eraseDups.2 h
  obtain ⟨w, hw⟩ := exists_get?_of_mem_keys hmem
  obtain ⟨before, after, hpairs, -⟩ := (get?_ofPairs _ key w).1 hw
  have hp : (key, w) ∈ (schemas.flatMap keys).map fun key => (key, conjunction schemas key) := by
    rw [hpairs]
    simp
  obtain ⟨key', -, he⟩ := List.mem_map.1 hp
  cases he
  exact hw

/-! ## Verdicts -/

/-- A schema asks at each key the validator that it holds for it. -/
theorem accepts_iff_get? {schema : RecordSchema} :
    schema.toValidator.accepts v = true ↔ v.kind = .object ∧
      ∀ key w, get? schema.fields key = some w → w.accepts (v.field key) = true := by
  rw [toValidator, Validator.accepts_record_iff]
  refine and_congr_right fun _ => ⟨fun h key w hw => h _ (mem_of_get? hw), fun h f hf => ?_⟩
  exact h f.1 f.2 ((get?_eq_some_iff schema.distinct).2 hf)

theorem accepts_every_iff (h : lists ≠ []) :
    (every lists).accepts v = true ↔ v.kind = .object ∧ ∀ pairs ∈ lists, ∀ key w,
      get? (ofPairs pairs).fields key = some w → w.accepts (v.field key) = true := by
  obtain ⟨first, rest, rfl⟩ := List.exists_cons_of_ne_nil h
  simp only [every, Validator.accepts_all, List.all_map, List.all_eq_true, Function.comp_apply,
    accepts_iff_get?]
  constructor
  · intro h
    exact ⟨(h first List.mem_cons_self).1, fun pairs hp => (h pairs hp).2⟩
  · rintro ⟨hv, h⟩ pairs hp
    exact ⟨hv, h pairs hp⟩

/-- **The intersection has the verdict of all schemas.** -/
theorem accepts_intersection (h : lists ≠ []) (v : Value) :
    (intersection (lists.map ofPairs)).toValidator.accepts v = (every lists).accepts v := by
  rw [Bool.eq_iff_iff, accepts_iff_get?, accepts_every_iff h]
  refine and_congr_right fun _ => ⟨fun h pairs hp key w hw => ?_, fun h key c hc => ?_⟩
  · have hkey : key ∈ (lists.map ofPairs).flatMap keys :=
      List.mem_flatMap.2 ⟨_, List.mem_map_of_mem hp, mem_keys_of_mem (mem_of_get? hw)⟩
    have hall := h key _ (get?_intersection hkey)
    rw [conjunction, Validator.accepts_all, List.all_eq_true] at hall
    exact hall w (List.mem_filterMap.2 ⟨_, List.mem_map_of_mem hp, hw⟩)
  · have hkey : key ∈ (lists.map ofPairs).flatMap keys := by
      rw [← List.mem_eraseDups, ← keys_intersection]
      exact mem_keys_of_mem (mem_of_get? hc)
    rw [get?_intersection hkey] at hc
    cases hc
    rw [conjunction, Validator.accepts_all, List.all_eq_true]
    intro w hw
    obtain ⟨schema, hschema, hw⟩ := List.mem_filterMap.1 hw
    obtain ⟨pairs, hp, rfl⟩ := List.mem_map.1 hschema
    exact h pairs hp key w hw

/-- What all schemas accept is accepted by the schema of all their fields: each of its validators is
that of some schema. -/
theorem accepts_flatten_of_accepts_every (h : lists ≠ []) (hv : (every lists).accepts v = true) :
    (ofPairs lists.flatten).toValidator.accepts v = true := by
  obtain ⟨hk, hall⟩ := (accepts_every_iff h).1 hv
  refine accepts_iff_get?.2 ⟨hk, fun key w hw => ?_⟩
  obtain ⟨pairs, hp, hlast⟩ := exists_lastGiven_of_flatten ((get?_ofPairs _ key w).1 hw)
  exact hall pairs hp key w ((get?_ofPairs pairs key w).2 hlast)

/-! ## Runs -/

/-- **Schemas without a common key run in turn as the schema of all their fields.** -/
theorem run_every (hne : lists ≠ [])
    (h : lists.Pairwise fun pairs others => (Entries.keys pairs).Disjoint (Entries.keys others))
    (v : Value) : (every lists).run v = (ofPairs lists.flatten).toValidator.run v := by
  rw [every, Validator.run_all, List.map_map]
  by_cases hv : v.kind = .object
  · rw [toValidator_ofPairs, Validator.run_record _ hv, ofPairs_flatten_of_disjoint h,
      List.map_flatten, Connective.runs_flatten, List.map_map, List.map_map]
    refine congrArg _ (List.map_congr_left fun pairs _ => ?_)
    exact Validator.run_record _ hv
  · obtain ⟨first, rest, rfl⟩ := List.exists_cons_of_ne_nil hne
    have hfirst : (ofPairs first).toValidator.run v = .silent false :=
      Validator.run_of_kind_ne rfl hv
    have hrejected : (Run.silent false).accepted ≠ Connective.and.neutral := nofun
    rw [List.map_cons, Connective.runs, Function.comp_apply, hfirst,
      Connective.next_of_accepted_ne hrejected]
    exact (Validator.run_of_kind_ne rfl hv).symm

/-- Two schemas that ask for different kinds at one key. -/
def contested : List (List (String × Validator)) := [[("a", .string)], [("a", .number)]]

theorem contested_flatten (x : Double) :
    (ofPairs contested.flatten).toValidator.accepts (.object ⟨0⟩ [("a", .number x)]) = true ∧
      (every contested).accepts (.object ⟨0⟩ [("a", .number x)]) = false := by
  simp only [contested, every, toValidator_ofPairs, ofPairs_eq_insertAll]
  exact ⟨rfl, rfl⟩

/-- Intersecting records puts their schemas together. If no key is in two of the schemas, all of
them in turn run as the one schema of their fields in order: with the same verdict, the same calls
and the same rejections, also on what is no object and where some schemas are empty. With common
keys they have the verdict of the schema that asks, at each key of any of them and at no other, the
conjunction of the validators that they hold for it. The schema of all their fields accepts whatever
they accept, and may accept more. -/
structure Intersects : Prop where
  run : ∀ lists : List (List (String × Validator)), lists ≠ [] →
    (lists.Pairwise fun pairs others => (Entries.keys pairs).Disjoint (Entries.keys others)) →
      ∀ v, (every lists).run v = (ofPairs lists.flatten).toValidator.run v
  verdict : ∀ lists : List (List (String × Validator)), lists ≠ [] → ∀ v,
    (every lists).accepts v = (intersection (lists.map ofPairs)).toValidator.accepts v
  keys : ∀ schemas : List RecordSchema,
    (intersection schemas).keys = (schemas.flatMap RecordSchema.keys).eraseDups
  conjunction : ∀ schemas : List RecordSchema, ∀ key ∈ schemas.flatMap RecordSchema.keys,
    get? (intersection schemas).fields key =
      some (.all (schemas.filterMap fun schema => get? schema.fields key))
  flatten : ∀ lists : List (List (String × Validator)), lists ≠ [] → ∀ v,
    (every lists).accepts v = true → (ofPairs lists.flatten).toValidator.accepts v = true
  flatten_more : ∃ (lists : List (List (String × Validator))) (v : Value), lists ≠ [] ∧
    (ofPairs lists.flatten).toValidator.accepts v = true ∧ (every lists).accepts v = false

/-- **Intersecting records puts their schemas together.** -/
theorem intersect_records : Intersects where
  run _ hne h v := run_every hne h v
  verdict _ hne v := (accepts_intersection hne v).symm
  keys := keys_intersection
  conjunction _ _ := get?_intersection
  flatten _ hne _ := accepts_flatten_of_accepts_every hne
  flatten_more := ⟨contested, .object ⟨0⟩ [("a", .number .nan)], nofun, contested_flatten .nan⟩

/-- Schemas without a common key, one of them empty. -/
def split : List (List (String × Validator)) :=
  [[("a", .spy "first" .string)], [], [("b", .spy "second" .string), ("c", .stub "third" true)]]

/-- The schemas in turn stop where the one schema does. -/
theorem intersect_records_split :
    split ≠ [] ∧
    (split.Pairwise fun pairs others => (Entries.keys pairs).Disjoint (Entries.keys others)) ∧
    (every split).run (.object ⟨0⟩ [("c", .null), ("a", .string "x")]) =
      ⟨false, [.call "first" .string, .call "second" .undefined]⟩ := by
  have hne : split ≠ [] := nofun
  have hd : split.Pairwise fun pairs others =>
      (Entries.keys pairs).Disjoint (Entries.keys others) := by
    simp [split, Entries.keys]
  refine ⟨hne, hd, ?_⟩
  rw [intersect_records.run split hne hd, toValidator_ofPairs, ofPairs_eq_insertAll]
  rfl

end RecordSchema

end ShapeCheck
