import ShapeCheck.Proofs.Connective
import ShapeCheck.Validator.Assertion
import ShapeCheck.Validator.Schema
/-!
# Open schemas

A schema reads a value only at the keys and the positions that it names. Main theorem
`schemas_are_open`: on two values that are alike there, its runs are the same, signals and all,
whatever else the values hold; and it cannot tell a value that is missing from one that is there and
is `undefined`.
-/
namespace ShapeCheck.Validator

open Entries

variable {fields : List (String × Validator)} {items : List Validator} {v u : Value}

/-! ## What a run reads -/

/-- A record reads the values at its keys. -/
theorem run_record_congr (hv : v.kind = .object) (hu : u.kind = .object)
    (h : ∀ key ∈ keys fields, v.field key = u.field key) :
    run (.record fields) v = run (.record fields) u := by
  rw [run_record fields hv, run_record fields hu]
  refine congrArg _ (List.map_congr_left fun f hf => ?_)
  rw [h f.1 (mem_keys_of_mem hf)]

/-- A tuple reads the elements at its positions. -/
theorem run_tuple_congr (hv : v.kind = .array) (hu : u.kind = .array)
    (h : ∀ i < items.length, v.item i = u.item i) :
    run (.tuple items) v = run (.tuple items) u := by
  rw [run_tuple items hv, run_tuple items hu]
  refine congrArg _ (List.mapIdx_eq_mapIdx_iff.2 fun i hi => ?_)
  rw [h i hi]

/-- An assertion is its run and the kind of the value. -/
theorem assert_congr {w : Validator} (hr : w.run v = w.run u) (hk : v.kind = u.kind) :
    w.assert v = w.assert u := by
  rw [assert, assert, hr, hk]

/-! ## What a run does not read -/

/-- An entry under another key, or one that holds `undefined`, is as good as none. -/
theorem run_record_of_unseen {s t : Tag} {before after : Entries Value} {key : String}
    {value : Value}
    (h : key ∉ keys fields ∨ value = .undefined ∧ key ∉ keys (before ++ after)) :
    run (.record fields) (.object s (before ++ (key, value) :: after)) =
      run (.record fields) (.object t (before ++ after)) := by
  refine run_record_congr rfl rfl fun k hk => ?_
  rw [Value.field, Value.field]
  by_cases hne : key = k
  · subst hne
    rcases h with h | ⟨rfl, h⟩
    · exact absurd hk h
    · have hnone : get? (before ++ after) key = none := get?_eq_none_iff.2 h
      rw [get?_append, Option.or_eq_none_iff] at hnone
      rw [get?_append, get?_append, get?, if_pos rfl, hnone.1, hnone.2]
      rfl
  · rw [get?_append_cons_of_ne hne]

theorem run_record_of_perm {s t : Tag} {entries others : Entries Value} (hd : entries.Distinct)
    (h : entries.Perm others) :
    run (.record fields) (.object s entries) = run (.record fields) (.object t others) := by
  refine run_record_congr rfl rfl fun k _ => ?_
  rw [Value.field, Value.field, get?_eq_of_perm hd h]

theorem run_tuple_take {s t : Tag} {elements : List Value} :
    run (.tuple items) (.array s elements) =
      run (.tuple items) (.array t (elements.take items.length)) := by
  refine run_tuple_congr rfl rfl fun i hi => ?_
  rw [Value.item, Value.item, List.getD_eq_getElem?_getD, List.getD_eq_getElem?_getD,
    List.getElem?_take_of_lt hi]

theorem run_tuple_pad {s t : Tag} {elements : List Value} (n : Nat) :
    run (.tuple items) (.array s (elements ++ List.replicate n .undefined)) =
      run (.tuple items) (.array t elements) := by
  refine run_tuple_congr rfl rfl fun i _ => ?_
  rw [Value.item, Value.item, List.getD_eq_getElem?_getD, List.getD_eq_getElem?_getD,
    List.getElem?_append]
  split
  · rfl
  · rename_i hi
    rw [List.getElem?_eq_none (Nat.le_of_not_lt hi), List.getElem?_replicate]
    split <;> rfl

/-- Schemas look only at what they name. On two objects that have the same values at the keys of a
record schema, its runs are the same: verdict, calls and rejections, and so are the outcome and the
messages of its assertion. An entry under another key makes no difference, wherever it stands; nor
does an entry that holds `undefined`, or the order of entries. So it is with the positions of a
tuple schema: elements after them make no difference, nor does `undefined` in place of elements that
are missing. -/
structure SchemasOpen : Prop where
  keys : ∀ (schema : RecordSchema) (o p : Value), o.kind = .object → p.kind = .object →
    (∀ key ∈ schema.keys, o.field key = p.field key) →
      schema.toValidator.run o = schema.toValidator.run p ∧
        schema.toValidator.assert o = schema.toValidator.assert p
  unseen : ∀ (schema : RecordSchema) (s t : Tag) (before after : Entries Value) (key : String)
    (value : Value),
    key ∉ schema.keys ∨ value = .undefined ∧ key ∉ Entries.keys (before ++ after) →
      schema.toValidator.run (.object s (before ++ (key, value) :: after)) =
        schema.toValidator.run (.object t (before ++ after))
  order : ∀ (schema : RecordSchema) (s t : Tag) (entries others : Entries Value),
    entries.Distinct → entries.Perm others →
      schema.toValidator.run (.object s entries) = schema.toValidator.run (.object t others)
  positions : ∀ (schema : TupleSchema) (a b : Value), a.kind = .array → b.kind = .array →
    (∀ i < schema.size, a.item i = b.item i) →
      schema.toValidator.run a = schema.toValidator.run b ∧
        schema.toValidator.assert a = schema.toValidator.assert b
  beyond : ∀ (schema : TupleSchema) (s t : Tag) (elements : List Value),
    schema.toValidator.run (.array s elements) =
      schema.toValidator.run (.array t (elements.take schema.size))
  missing : ∀ (schema : TupleSchema) (s t : Tag) (elements : List Value) (n : Nat),
    schema.toValidator.run (.array s (elements ++ List.replicate n .undefined)) =
      schema.toValidator.run (.array t elements)

/-- **Schemas look only at what they name.** -/
theorem schemas_are_open : SchemasOpen where
  keys _ o p ho hp h := by
    have hr := run_record_congr ho hp h
    exact ⟨hr, assert_congr hr (ho.trans hp.symm)⟩
  unseen _ _ _ _ _ _ _ := run_record_of_unseen
  order _ _ _ _ _ := run_record_of_perm
  positions _ a b ha hb h := by
    have hr := run_tuple_congr ha hb h
    exact ⟨hr, assert_congr hr (ha.trans hb.symm)⟩
  beyond _ _ _ _ := run_tuple_take
  missing _ _ _ _ := run_tuple_pad

/-- A text at one key, with a probe that it is asked. -/
def titled : RecordSchema := RecordSchema.empty.field "title" (.spy "title" .string)

theorem schemas_are_open_titled :
    "note" ∉ titled.keys ∧
    titled.toValidator.run (.object ⟨0⟩ [("note", .null), ("title", .string "x")]) =
      titled.toValidator.run (.object ⟨1⟩ [("title", .string "x")]) ∧
    titled.toValidator.assert (.object ⟨0⟩ [("note", .bool true)]) =
      titled.toValidator.assert (.object ⟨1⟩ []) ∧
    Entries.Distinct [("note", Value.null), ("title", .string "x")] ∧
    titled.toValidator.run (.object ⟨0⟩ [("note", .null), ("title", .string "x")]) =
      titled.toValidator.run (.object ⟨2⟩ [("title", .string "x"), ("note", .null)]) ∧
    (TupleSchema.empty.item .nil).toValidator.assert (.array ⟨0⟩ [.null, .bool true]) =
      (TupleSchema.empty.item .nil).toValidator.assert (.array ⟨1⟩ [.null]) := by
  have hnote : "note" ∉ titled.keys := by decide
  have hd : Entries.Distinct [("note", Value.null), ("title", .string "x")] := by
    rw [Entries.Distinct]
    decide
  refine ⟨hnote, schemas_are_open.unseen titled ⟨0⟩ ⟨1⟩ [] _ "note" .null (.inl hnote), ?_, hd,
    schemas_are_open.order titled ⟨0⟩ ⟨2⟩ _ _ hd (.swap ..), ?_⟩
  · refine (schemas_are_open.keys titled _ _ rfl rfl fun key hkey => ?_).2
    rw [List.mem_singleton.1 hkey]
    rfl
  · refine (schemas_are_open.positions _ _ _ rfl rfl fun i hi => ?_).2
    rw [Nat.lt_one_iff.1 hi]
    rfl

end ShapeCheck.Validator
