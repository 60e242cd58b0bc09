import ShapeCheck.Proofs.Reach
import ShapeCheck.Proofs.Traversal
import ShapeCheck.Validator.Schema
/-!
# Mandatory parts

A part of a validator is **mandatory** if nothing on the way to it offers an alternative: the way
goes through schemas, containers, conjunctions and wrappers only. `Mandatory` follows such a way and
a path of accesses into the value at once. Main theorem `guard_then_access`: once a validator has
accepted a value, every access on the way finds the kind of value that it is meant for, and what it
leads to is accepted by the mandatory part there; and this is all that such a validator asks for.
-/
namespace ShapeCheck.Validator

open Entries

variable {w u : Validator} {v : Value} {path : List Access}

/-- It is no container, no schema, no conjunction and no wrapper. -/
def isLeaf : Validator → Bool
  | .object _ | .array _ | .record _ | .tuple _ => false
  | .all _ | .and _ _ | .boxed _ | .asserting _ => false
  | _ => true

/-- In the first validator, the last one is mandatory where the path leads to from the value. A
schema says where to look; a container asks for whatever it holds, so that any key that is present
and any index below the length will do. -/
inductive Mandatory : Validator → Value → List Access → Validator → Prop where
  | here (w : Validator) (v : Value) : Mandatory w v [] w
  | record {fields : List (String × Validator)} {key : String} {w u : Validator} {v : Value}
      {path : List Access} (hf : (key, w) ∈ fields) (h : Mandatory w (v.field key) path u) :
      Mandatory (.record fields) v (.field key :: path) u
  | tuple {items : List Validator} {i : Nat} {w u : Validator} {v : Value} {path : List Access}
      (hi : items[i]? = some w) (h : Mandatory w (v.item i) path u) :
      Mandatory (.tuple items) v (.item i :: path) u
  | object {key : String} {w u : Validator} {v : Value} {path : List Access}
      (hk : key ∈ v.entries.keys) (h : Mandatory w (v.field key) path u) :
      Mandatory (.object w) v (.field key :: path) u
  | array {i : Nat} {w u : Validator} {v : Value} {path : List Access}
      (hi : i < v.elements.length) (h : Mandatory w (v.item i) path u) :
      Mandatory (.array w) v (.item i :: path) u
  | all {members : List Validator} {w u : Validator} {v : Value} {path : List Access}
      (hw : w ∈ members) (h : Mandatory w v path u) : Mandatory (.all members) v path u
  | andLeft {left right u : Validator} {v : Value} {path : List Access}
      (h : Mandatory left v path u) : Mandatory (.and left right) v path u
  | andRight {left right u : Validator} {v : Value} {path : List Access}
      (h : Mandatory right v path u) : Mandatory (.and left right) v path u
  | boxed {w u : Validator} {v : Value} {path : List Access} (h : Mandatory w v path u) :
      Mandatory (.boxed w) v path u
  | asserting {w u : Validator} {v : Value} {path : List Access} (h : Mandatory w v path u) :
      Mandatory (.asserting w) v path u

/-! ## What a guard guarantees -/

theorem kind_eq_of_accepts {k : Kind} (h : w.accepts v = true) (hk : w.container? = some k) :
    v.kind = k := by
  by_contra hv
  rw [accepts, run_of_kind_ne hk hv] at h
  cases h

theorem accepts_field_of_accepts_object {key : String} (h : accepts (.object w) v = true)
    (hk : key ∈ v.entries.keys) : w.accepts (v.field key) = true := by
  obtain ⟨tag, entries, rfl, he⟩ := accepts_object_iff.1 h
  obtain ⟨u, hu⟩ := exists_get?_of_mem_keys hk
  rw [Value.field_eq, hu]
  exact he _ (mem_of_get? hu)

theorem accepts_item_of_accepts_array {i : Nat} (h : accepts (.array w) v = true)
    (hi : i < v.elements.length) : w.accepts (v.item i) = true := by
  obtain ⟨tag, elements, rfl, he⟩ := accepts_array_iff.1 h
  rw [Value.item_eq, List.getElem?_eq_getElem hi]
  exact he _ (List.getElem_mem hi)

/-- **What was accepted can be taken apart**, and the mandatory parts accept what is found. -/
theorem accepts_reach_of_mandatory (hm : w.Mandatory v path u) (h : w.accepts v = true) :
    u.accepts (v.reach path) = true ∧ v.Opens path := by
  induction hm with
  | here w v => exact ⟨h, trivial⟩
  | record hf _ ih =>
    obtain ⟨hv, hfields⟩ := accepts_record_iff.1 h
    obtain ⟨hu, hpath⟩ := ih (hfields _ hf)
    exact ⟨hu, hv, hpath⟩
  | tuple hi _ ih =>
    obtain ⟨hv, hitems⟩ := accepts_tuple_iff.1 h
    obtain ⟨hu, hpath⟩ := ih (hitems _ _ hi)
    exact ⟨hu, hv, hpath⟩
  | object hk _ ih =>
    obtain ⟨hu, hpath⟩ := ih (accepts_field_of_accepts_object h hk)
    exact ⟨hu, kind_eq_of_accepts h rfl, hpath⟩
  | array hi _ ih =>
    obtain ⟨hu, hpath⟩ := ih (accepts_item_of_accepts_array h hi)
    exact ⟨hu, kind_eq_of_accepts h rfl, hpath⟩
  | all hw _ ih =>
    rw [accepts_all, List.all_eq_true] at h
    exact ih (h _ hw)
  | andLeft _ ih =>
    rw [accepts_and, Bool.and_eq_true] at h
    exact ih h.1
  | andRight _ ih =>
    rw [accepts_and, Bool.and_eq_true] at h
    exact ih h.2
  | boxed _ ih => exact ih (by rwa [accepts_boxed] at h)
  | asserting _ ih => exact ih (by rwa [accepts_asserting] at h)

/-- The typed view that the validator vouches for gives something. -/
def Viewable : Validator → Value → Prop
  | .boolean, v => ∃ b, v.asBool? = some b
  | .number, v => ∃ x, v.asNumber? = some x
  | .string, v => ∃ s, v.asString? = some s
  | .array _, v => ∃ elements, v.asArray? = some elements
  | .tuple _, v => ∃ elements, v.asArray? = some elements
  | .object _, v => ∃ entries, v.asObject? = some entries
  | .record _, v => ∃ entries, v.asObject? = some entries
  | .host type, v => ∃ h, v.asHost? = some h ∧ h.type.id = type.id
  | _, _ => True

theorem viewable_of_accepts (h : w.accepts v = true) : w.Viewable v := by
  cases w with
  | boolean => cases v <;> first | exact ⟨_, rfl⟩ | cases accepts_boolean_iff.1 h
  | number => cases v <;> first | exact ⟨_, rfl⟩ | cases accepts_number_iff.1 h
  | string => cases v <;> first | exact ⟨_, rfl⟩ | cases accepts_string_iff.1 h
  | array | tuple =>
    have hk : v.kind = .array := kind_eq_of_accepts h rfl
    cases v <;> first | exact ⟨_, rfl⟩ | cases hk
  | object | record =>
    have hk : v.kind = .object := kind_eq_of_accepts h rfl
    cases v <;> first | exact ⟨_, rfl⟩ | cases hk
  | host type =>
    obtain ⟨g, rfl, ht⟩ := accepts_host_iff.1 h
    exact ⟨g, rfl, ht⟩
  | _ => trivial

/-! ## What a guard asks for -/

/-- Wherever it leads there is a value of the right kind, and the mandatory leaves accept. -/
def Answers (w : Validator) (v : Value) : Prop :=
  ∀ path u, w.Mandatory v path u → (∀ k, u.container? = some k → (v.reach path).kind = k) ∧
    (u.isLeaf = true → u.accepts (v.reach path) = true)

theorem answers_of_accepts (h : w.accepts v = true) : w.Answers v := by
  intro path u hm
  obtain ⟨hu, -⟩ := accepts_reach_of_mandatory hm h
  exact ⟨fun k hk => kind_eq_of_accepts hu hk, fun _ => hu⟩

theorem Answers.kind_eq {k : Kind} (h : w.Answers v) (hk : w.container? = some k) : v.kind = k :=
  (h [] w (.here w v)).1 k hk

/-- **Nothing else is asked for.** -/
theorem accepts_of_answers (hv : v.WellKeyed) (h : w.Answers v) : w.accepts v = true := by
  induction w using Validator.induction generalizing v with
  | object w ih =>
    have hk := h.kind_eq rfl
    cases v with
    | object tag entries =>
      refine accepts_object_iff.2 ⟨tag, entries, rfl, fun e he => ?_⟩
      have hfield : (Value.object tag entries).field e.1 = e.2 := by
        rw [Value.field_eq]
        exact congrArg (·.getD .undefined) ((get?_eq_some_iff hv.entries).2 he)
      have hkey : e.1 ∈ (Value.object tag entries).entries.keys := mem_keys_of_mem he
      rw [← hfield]
      exact ih (hv.field e.1) fun path u hm => h (.field e.1 :: path) u (.object hkey hm)
    | _ => cases hk
  | array w ih =>
    have hk := h.kind_eq rfl
    cases v with
    | array tag elements =>
      refine accepts_array_iff.2 ⟨tag, elements, rfl, fun x hx => ?_⟩
      obtain ⟨i, hi, rfl⟩ := List.mem_iff_getElem.1 hx
      have hitem : (Value.array tag elements).item i = elements[i] := by
        rw [Value.item_eq]
        exact congrArg (·.getD .undefined) (List.getElem?_eq_getElem hi)
      rw [← hitem]
      exact ih (hv.item i) fun path u hm => h (.item i :: path) u (.array hi hm)
    | _ => cases hk
  | record fields ih =>
    refine accepts_record_iff.2 ⟨h.kind_eq rfl, fun f hf => ?_⟩
    exact ih f hf (hv.field f.1) fun path u hm => h (.field f.1 :: path) u (.record hf hm)
  | tuple items ih =>
    refine accepts_tuple_iff.2 ⟨h.kind_eq rfl, fun i w hi => ?_⟩
    have hw := List.mem_of_getElem? hi
    exact ih w hw (hv.item i) fun path u hm => h (.item i :: path) u (.tuple hi hm)
  | all members ih =>
    rw [accepts_all, List.all_eq_true]
    intro w hw
    exact ih w hw hv fun path u hm => h path u (.all hw hm)
  | and left right ihl ihr =>
    rw [accepts_and, Bool.and_eq_true]
    exact ⟨ihl hv fun path u hm => h path u (.andLeft hm),
      ihr hv fun path u hm => h path u (.andRight hm)⟩
  | boxed w ih =>
    rw [accepts_boxed]
    exact ih hv fun path u hm => h path u (.boxed hm)
  | asserting w ih =>
    rw [accepts_asserting]
    exact ih hv fun path u hm => h path u (.asserting hm)
  | _ => exact (h [] _ (.here _ v)).2 rfl

/-! ## The forms that are made of others -/

/-- Of a key that a schema was given twice, only the last validator is mandatory. -/
theorem mandatory_ofPairs_iff {pairs : List (String × Validator)} {key : String} :
    (RecordSchema.ofPairs pairs).toValidator.Mandatory v (.field key :: path) u ↔
      ∃ w, LastGiven pairs key w ∧ w.Mandatory (v.field key) path u := by
  constructor
  · rintro (_ | ⟨hf, h⟩)
    exact ⟨_, (mem_ofPairs pairs key _).1 hf, h⟩
  · rintro ⟨w, hw, h⟩
    exact .record ((mem_ofPairs pairs key w).2 hw) h

theorem mandatory_allOf {first : Validator} {rest : List Validator} (hw : w ∈ first :: rest)
    (h : w.Mandatory v path u) : (allOf first rest).Mandatory v path u := by
  induction rest generalizing first with
  | nil =>
    rw [allOf, ← List.mem_singleton.1 hw]
    exact h
  | cons second rest ih =>
    rcases List.mem_cons.1 hw with rfl | hw
    · exact .andLeft h
    · exact .andRight (ih hw)

/-- What holds after a guard, and what a guard asks for. From a value that a validator accepts, a
walk to a mandatory part finds objects where it looks for keys and arrays where it looks for
indices; the part accepts what the walk leads to, so that the typed view of it is there. Conversely,
a value is accepted if all walks find the right kinds and the leaves that they come to accept;
objects have no key twice, which holds of all values in a program. In a schema that was given a key
more than once only the last validator is mandatory, and in a join of any number of validators every
one is. -/
structure GuardsAccess : Prop where
  reached : ∀ (w u : Validator) (v : Value) (path : List Access), w.accepts v = true →
    w.Mandatory v path u →
      u.accepts (v.reach path) = true ∧ v.Opens path ∧ u.Viewable (v.reach path)
  accepts_iff : ∀ (w : Validator) (v : Value), v.WellKeyed →
    (w.accepts v = true ↔ ∀ path u, w.Mandatory v path u →
      (∀ k, u.container? = some k → (v.reach path).kind = k) ∧
        (u.isLeaf = true → u.accepts (v.reach path) = true))
  wellKeyed : ∀ (world : World) (v : Value), world.Reachable → world.Found v → v.WellKeyed
  ofPairs_iff : ∀ (pairs : List (String × Validator)) (u : Validator) (v : Value) (key : String)
    (path : List Access),
    (RecordSchema.ofPairs pairs).toValidator.Mandatory v (.field key :: path) u ↔
      ∃ w, LastGiven pairs key w ∧ w.Mandatory (v.field key) path u
  allOf : ∀ (first u : Validator) (rest : List Validator) (v : Value) (path : List Access),
    (∃ w ∈ first :: rest, w.Mandatory v path u) →
      (Validator.allOf first rest).Mandatory v path u

/-- **First guard, then access.** -/
theorem guard_then_access : GuardsAccess where
  reached w u v path h hm := by
    obtain ⟨hu, hpath⟩ := accepts_reach_of_mandatory hm h
    exact ⟨hu, hpath, viewable_of_accepts hu⟩
  accepts_iff _ _ hv := ⟨answers_of_accepts, accepts_of_answers hv⟩
  wellKeyed _ _ := World.wellKeyed_of_found
  ofPairs_iff _ _ _ _ _ := mandatory_ofPairs_iff
  allOf first u rest v path := by
    rintro ⟨w, hw, h⟩
    exact mandatory_allOf hw h

/-- Orders have items, and each says whether it is paid. -/
def order : Validator := .record [("items", .array (.record [("paid", .boolean)]))]

/-- An order of one item. -/
def book : Value := .object ⟨2⟩ [("items", .array ⟨1⟩ [.object ⟨0⟩ [("paid", .bool true)]])]

theorem guard_then_access_paid :
    order.accepts book = true ∧
    order.Mandatory book [.field "items", .item 0, .field "paid"] .boolean ∧
    accepts .boolean (book.reach [.field "items", .item 0, .field "paid"]) = true := by
  have h : order.accepts book = true := rfl
  have hm : order.Mandatory book [.field "items", .item 0, .field "paid"] .boolean :=
    .record (.head _) (.array Nat.zero_lt_one (.record (.head _) (.here ..)))
  exact ⟨h, hm, (guard_then_access.reached order .boolean book _ h hm).1⟩

end ShapeCheck.Validator
