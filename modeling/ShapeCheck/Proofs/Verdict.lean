import ShapeCheck.Proofs.Connective
import ShapeCheck.Proofs.Parts
/-!
# Verdicts

What a validator accepts, one statement for each form, in terms of what its parts accept. Nothing
here mentions logs or where evaluation stops.
-/
namespace ShapeCheck.Validator

open Run

variable {v : Value}

/-! ## Leaves -/

theorem accepts_boolean_iff : accepts .boolean v = true ↔ v.kind = .bool := by
  simp [accepts, silent]

theorem accepts_string_iff : accepts .string v = true ↔ v.kind = .string := by
  simp [accepts, silent]

theorem accepts_number_iff : accepts .number v = true ↔ v.kind = .number := by
  simp [accepts, silent]

theorem accepts_empty_iff : accepts .empty v = true ↔ v.kind = .undefined := by
  simp [accepts, silent]

theorem accepts_nil_iff : accepts .nil v = true ↔ v.kind = .null := by
  simp [accepts, silent]

@[simp] theorem accepts_literal (expected : Value) :
    accepts (.literal expected) v = v.strictEq expected := by
  simp [accepts, silent]

theorem accepts_host_iff {type : HostType} :
    accepts (.host type) v = true ↔ ∃ h, v = .host h ∧ h.type.id = type.id := by
  cases v <;> simp [accepts, silent]

@[simp] theorem accepts_rule (r : Rule) : accepts (.rule r) v = r.accepts v := by
  simp [accepts, silent]

@[simp] theorem accepts_closure (f : Value → Bool) : accepts (.closure f) v = f v := by
  simp [accepts, silent]

@[simp] theorem accepts_stub (name : String) (answer : Bool) :
    accepts (.stub name answer) v = answer := by
  simp [accepts, after, silent]

/-! ## Wrappers -/

@[simp] theorem accepts_boxed (w : Validator) : accepts (.boxed w) v = w.accepts v := by
  simp [accepts]

@[simp] theorem accepts_asserting (w : Validator) : accepts (.asserting w) v = w.accepts v := by
  simp [accepts, accepted_asserted]

@[simp] theorem accepts_spy (name : String) (w : Validator) :
    accepts (.spy name w) v = w.accepts v := by
  simp [accepts, accepted_after]

/-! ## Combinators -/

@[simp] theorem accepts_or (left right : Validator) :
    accepts (.or left right) v = (left.accepts v || right.accepts v) := by
  simp [accepts, accepted_orElse]

@[simp] theorem accepts_and (left right : Validator) :
    accepts (.and left right) v = (left.accepts v && right.accepts v) := by
  simp [accepts, accepted_andThen]

@[simp] theorem accepts_any (members : List Validator) :
    accepts (.any members) v = members.any (·.accepts v) := by
  rw [accepts, run_any, Connective.accepted_runs_or, List.any_map]
  rfl

@[simp] theorem accepts_all (members : List Validator) :
    accepts (.all members) v = members.all (·.accepts v) := by
  rw [accepts, run_all, Connective.accepted_runs_and, List.all_map]
  rfl

/-! ## Containers -/

@[simp] theorem accepts_object (w : Validator) (tag : Tag) (entries : Entries Value) :
    accepts (.object w) (.object tag entries) = entries.all fun e => w.accepts e.2 := by
  rw [accepts, run_object, Connective.accepted_runs_and, List.all_map]
  rfl

theorem accepts_object_iff {w : Validator} :
    accepts (.object w) v = true ↔
      ∃ tag entries, v = .object tag entries ∧ ∀ e ∈ entries, w.accepts e.2 = true := by
  cases v with
  | object tag entries =>
    rw [accepts_object, List.all_eq_true]
    constructor
    · exact fun h => ⟨tag, entries, rfl, h⟩
    · rintro ⟨_, _, ⟨⟩, h⟩; exact h
  | _ => simp [accepts, silent]

@[simp] theorem accepts_array (w : Validator) (tag : Tag) (elements : List Value) :
    accepts (.array w) (.array tag elements) = elements.all w.accepts := by
  rw [accepts, run_array, Connective.accepted_runs_and, List.all_map]
  rfl

theorem accepts_array_iff {w : Validator} :
    accepts (.array w) v = true ↔
      ∃ tag elements, v = .array tag elements ∧ ∀ u ∈ elements, w.accepts u = true := by
  cases v with
  | array tag elements =>
    rw [accepts_array, List.all_eq_true]
    constructor
    · exact fun h => ⟨tag, elements, rfl, h⟩
    · rintro ⟨_, _, ⟨⟩, h⟩; exact h
  | _ => simp [accepts, silent]

theorem accepts_record_iff {fields : List (String × Validator)} :
    accepts (.record fields) v = true ↔
      v.kind = .object ∧ ∀ f ∈ fields, f.2.accepts (v.field f.1) = true := by
  by_cases hv : v.kind = .object
  · rw [accepts, run_record fields hv, Connective.accepted_runs_and, List.all_map,
      List.all_eq_true]
    exact (and_iff_right hv).symm
  · cases v with
    | object => exact absurd rfl hv
    | _ => simp [accepts, silent, Value.kind]

theorem accepts_tuple_iff {items : List Validator} :
    accepts (.tuple items) v = true ↔
      v.kind = .array ∧ ∀ i w, items[i]? = some w → accepts w (v.item i) = true := by
  by_cases hv : v.kind = .array
  · rw [accepts, run_tuple items hv, Connective.accepted_runs_and, List.all_eq_true,
      and_iff_right hv]
    constructor
    · intro h i w hw
      obtain ⟨hi, rfl⟩ := List.getElem?_eq_some_iff.1 hw
      exact h _ (List.mem_mapIdx.2 ⟨i, hi, rfl⟩)
    · intro h r hr
      obtain ⟨i, hi, rfl⟩ := List.mem_mapIdx.1 hr
      exact h i items[i] (List.getElem?_eq_getElem hi)
  · cases v with
    | array => exact absurd rfl hv
    | _ => simp [accepts, silent, Value.kind]

end ShapeCheck.Validator
