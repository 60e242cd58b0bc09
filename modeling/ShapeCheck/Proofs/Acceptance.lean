import Mathlib.Data.List.Basic
import ShapeCheck.Proofs.Lookup
import ShapeCheck.Proofs.Verdict
import ShapeCheck.Validator.Schema
/-!
# What a validator accepts

`Admits` says which values have the shape that a validator describes, with no order of evaluation
and no early stop: all fields, some member, every element. Main theorem
`accepts_iff_admits_and_forms`: running a validator from left to right, stopping at the first part
that decides, accepts exactly these values.
-/
namespace ShapeCheck.Validator

/-- The value has the shape that the validator describes. -/
inductive Admits : Validator → Value → Prop where
  | boolean (b : Bool) : Admits .boolean (.bool b)
  | string (s : String) : Admits .string (.string s)
  | number (x : Double) : Admits .number (.number x)
  | empty : Admits .empty .undefined
  | nil : Admits .nil .null
  | literal {expected v : Value} (h : v.strictEq expected = true) : Admits (.literal expected) v
  | host {type : HostType} {g : Host} (h : g.type.id = type.id) : Admits (.host type) (.host g)
  | rule {r : Rule} {v : Value} (h : r.accepts v = true) : Admits (.rule r) v
  | closure {f : Value → Bool} {v : Value} (h : f v = true) : Admits (.closure f) v
  | object {w : Validator} {tag : Tag} {entries : Entries Value}
      (h : ∀ e ∈ entries, Admits w e.2) : Admits (.object w) (.object tag entries)
  | array {w : Validator} {tag : Tag} {elements : List Value}
      (h : ∀ u ∈ elements, Admits w u) : Admits (.array w) (.array tag elements)
  | record {fields : List (String × Validator)} {v : Value} (hv : v.kind = .object)
      (h : ∀ f ∈ fields, Admits f.2 (v.field f.1)) : Admits (.record fields) v
  | tuple {items : List Validator} {v : Value} (hv : v.kind = .array)
      (h : ∀ i w, items[i]? = some w → Admits w (v.item i)) : Admits (.tuple items) v
  | any {members : List Validator} {w : Validator} {v : Value} (hw : w ∈ members)
      (h : Admits w v) : Admits (.any members) v
  | all {members : List Validator} {v : Value} (h : ∀ w ∈ members, Admits w v) :
      Admits (.all members) v
  | orLeft {left right : Validator} {v : Value} (h : Admits left v) : Admits (.or left right) v
  | orRight {left right : Validator} {v : Value} (h : Admits right v) : Admits (.or left right) v
  | and {left right : Validator} {v : Value} (hl : Admits left v) (hr : Admits right v) :
      Admits (.and left right) v
  | boxed {w : Validator} {v : Value} (h : Admits w v) : Admits (.boxed w) v
  | asserting {w : Validator} {v : Value} (h : Admits w v) : Admits (.asserting w) v
  | stub (name : String) (v : Value) : Admits (.stub name true) v
  | spy {name : String} {w : Validator} {v : Value} (h : Admits w v) : Admits (.spy name w) v

/-! ## Running accepts what is admitted, and nothing else -/

theorem admits_of_accepts (w : Validator) (v : Value) : w.accepts v = true → Admits w v := by
  induction w using Validator.induction generalizing v with
  | boolean => cases v <;> simp [accepts_boolean_iff, Value.kind]; exact .boolean _
  | string => cases v <;> simp [accepts_string_iff, Value.kind]; exact .string _
  | number => cases v <;> simp [accepts_number_iff, Value.kind]; exact .number _
  | empty => cases v <;> simp [accepts_empty_iff, Value.kind]; exact .empty
  | nil => cases v <;> simp [accepts_nil_iff, Value.kind]; exact .nil
  | literal expected => rw [accepts_literal]; exact .literal
  | host type =>
    rw [accepts_host_iff]
    rintro ⟨g, rfl, h⟩
    exact .host h
  | rule r => rw [accepts_rule]; exact .rule
  | closure f => rw [accepts_closure]; exact .closure
  | object w ih =>
    rw [accepts_object_iff]
    rintro ⟨tag, entries, rfl, h⟩
    exact .object fun e he => ih _ (h e he)
  | array w ih =>
    rw [accepts_array_iff]
    rintro ⟨tag, elements, rfl, h⟩
    exact .array fun u hu => ih _ (h u hu)
  | record fields ih =>
    rw [accepts_record_iff]
    rintro ⟨hv, h⟩
    exact .record hv fun f hf => ih f hf _ (h f hf)
  | tuple items ih =>
    rw [accepts_tuple_iff]
    rintro ⟨hv, h⟩
    exact .tuple hv fun i w hw => ih w (List.mem_of_getElem? hw) _ (h i w hw)
  | any members ih =>
    rw [accepts_any, List.any_eq_true]
    rintro ⟨w, hw, h⟩
    exact .any hw (ih w hw v h)
  | all members ih =>
    rw [accepts_all, List.all_eq_true]
    intro h
    exact .all fun w hw => ih w hw v (h w hw)
  | or left right ihl ihr =>
    rw [accepts_or, Bool.or_eq_true]
    rintro (h | h)
    · exact .orLeft (ihl v h)
    · exact .orRight (ihr v h)
  | and left right ihl ihr =>
    rw [accepts_and, Bool.and_eq_true]
    rintro ⟨hl, hr⟩
    exact .and (ihl v hl) (ihr v hr)
  | boxed w ih =>
    rw [accepts_boxed]
    intro h
    exact .boxed (ih v h)
  | asserting w ih =>
    rw [accepts_asserting]
    intro h
    exact .asserting (ih v h)
  | stub name answer => rw [accepts_stub]; rintro rfl; exact .stub name v
  | spy name w ih =>
    rw [accepts_spy]
    intro h
    exact .spy (ih v h)

theorem accepts_of_admits {w : Validator} {v : Value} (h : Admits w v) : w.accepts v = true := by
  induction h with
  | boolean b => exact accepts_boolean_iff.2 rfl
  | string s => exact accepts_string_iff.2 rfl
  | number x => exact accepts_number_iff.2 rfl
  | empty => exact accepts_empty_iff.2 rfl
  | nil => exact accepts_nil_iff.2 rfl
  | literal h => rwa [accepts_literal]
  | host h => exact accepts_host_iff.2 ⟨_, rfl, h⟩
  | rule h => rwa [accepts_rule]
  | closure h => rwa [accepts_closure]
  | object _ ih => exact accepts_object_iff.2 ⟨_, _, rfl, ih⟩
  | array _ ih => exact accepts_array_iff.2 ⟨_, _, rfl, ih⟩
  | record hv _ ih => exact accepts_record_iff.2 ⟨hv, ih⟩
  | tuple hv _ ih => exact accepts_tuple_iff.2 ⟨hv, ih⟩
  | any hw _ ih => rw [accepts_any]; exact List.any_eq_true.2 ⟨_, hw, ih⟩
  | all _ ih => rw [accepts_all]; exact List.all_eq_true.2 ih
  | orLeft _ ih => rw [accepts_or, ih, Bool.true_or]
  | orRight _ ih => rw [accepts_or, ih, Bool.or_true]
  | and _ _ ihl ihr => rw [accepts_and, ihl, ihr, Bool.and_self]
  | boxed _ ih => rwa [accepts_boxed]
  | asserting _ ih => rwa [accepts_asserting]
  | stub name v => rw [accepts_stub]
  | spy _ ih => rwa [accepts_spy]

theorem accepts_iff_admits (w : Validator) (v : Value) : w.accepts v = true ↔ Admits w v :=
  ⟨admits_of_accepts w v, accepts_of_admits⟩

/-! ## The forms that are made of others -/

/-- Of a key that a schema was given twice, only the last validator counts. -/
theorem admits_ofPairs_iff (pairs : List (String × Validator)) (v : Value) :
    Admits (RecordSchema.ofPairs pairs).toValidator v ↔
      v.kind = .object ∧
        ∀ key w, Entries.LastGiven pairs key w → Admits w (v.field key) := by
  constructor
  · rintro (_ | _)
    rename_i hv h
    exact ⟨hv, fun key w hw => h (key, w) ((Entries.mem_ofPairs pairs key w).2 hw)⟩
  · rintro ⟨hv, h⟩
    exact .record hv fun f hf => h f.1 f.2 ((Entries.mem_ofPairs pairs f.1 f.2).1 hf)

theorem admits_or_iff {left right : Validator} {v : Value} :
    Admits (.or left right) v ↔ Admits left v ∨ Admits right v := by
  constructor
  · intro h
    cases h with
    | orLeft h => exact .inl h
    | orRight h => exact .inr h
  · rintro (h | h)
    · exact .orLeft h
    · exact .orRight h

theorem admits_and_iff {left right : Validator} {v : Value} :
    Admits (.and left right) v ↔ Admits left v ∧ Admits right v := by
  constructor
  · intro h; cases h with | and hl hr => exact ⟨hl, hr⟩
  · rintro ⟨hl, hr⟩; exact .and hl hr

theorem admits_optional_iff {w : Validator} {v : Value} :
    Admits (optional w) v ↔ v = .undefined ∨ Admits w v := by
  rw [optional, admits_or_iff]
  refine or_congr_left ⟨fun h => ?_, fun h => ?_⟩
  · cases h; rfl
  · subst h; exact .empty

theorem admits_nullable_iff {w : Validator} {v : Value} :
    Admits (nullable w) v ↔ v = .null ∨ Admits w v := by
  rw [nullable, admits_or_iff]
  refine or_congr_left ⟨fun h => ?_, fun h => ?_⟩
  · cases h; rfl
  · subst h; exact .nil

theorem admits_anyOf_iff (first : Validator) (rest : List Validator) (v : Value) :
    Admits (anyOf first rest) v ↔ ∃ w ∈ first :: rest, Admits w v := by
  induction rest generalizing first with
  | nil => simp [anyOf]
  | cons second rest ih =>
    rw [anyOf, admits_or_iff, ih]
    exact (List.exists_mem_cons_iff (Admits · v) first _).symm

theorem admits_allOf_iff (first : Validator) (rest : List Validator) (v : Value) :
    Admits (allOf first rest) v ↔ ∀ w ∈ first :: rest, Admits w v := by
  induction rest generalizing first with
  | nil => simp [allOf]
  | cons second rest ih =>
    rw [allOf, admits_and_iff, ih]
    exact (List.forall_mem_cons (p := (Admits · v))).symm

/-- What a run decides is whether the value is admitted. The relation is also read at the forms that
are made of others. -/
structure Decides : Prop where
  accepts_iff : ∀ (w : Validator) (v : Value), w.accepts v = true ↔ Admits w v
  /-- A schema that is given pair by pair asks at each key the validator that it was given last. -/
  ofPairs_iff : ∀ (pairs : List (String × Validator)) (v : Value),
    Admits (RecordSchema.ofPairs pairs).toValidator v ↔
      v.kind = .object ∧ ∀ key w, Entries.LastGiven pairs key w → Admits w (v.field key)
  anyOf_iff : ∀ (first : Validator) (rest : List Validator) (v : Value),
    Admits (anyOf first rest) v ↔ ∃ w ∈ first :: rest, Admits w v
  allOf_iff : ∀ (first : Validator) (rest : List Validator) (v : Value),
    Admits (allOf first rest) v ↔ ∀ w ∈ first :: rest, Admits w v
  optional_iff : ∀ (w : Validator) (v : Value),
    Admits (optional w) v ↔ v = .undefined ∨ Admits w v
  nullable_iff : ∀ (w : Validator) (v : Value),
    Admits (nullable w) v ↔ v = .null ∨ Admits w v

/-- **Short-circuit evaluation is sound and complete.** -/
theorem accepts_iff_admits_and_forms : Decides where
  accepts_iff := accepts_iff_admits
  ofPairs_iff := admits_ofPairs_iff
  anyOf_iff := admits_anyOf_iff
  allOf_iff := admits_allOf_iff
  optional_iff _ _ := admits_optional_iff
  nullable_iff _ _ := admits_nullable_iff

end ShapeCheck.Validator
