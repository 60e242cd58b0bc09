import ShapeCheck.Validator.Basic
/-!
# Parts

Validators are nested in lists of validators, and values in lists of values and in payloads. The
**parts** of either are what it holds directly, whatever it holds them in, and the inductions here
go from parts to the whole.
-/
namespace ShapeCheck

namespace Validator

/-- To hold of every validator, it is enough to hold of one whenever it holds of its parts. -/
theorem induction {P : Validator → Prop}
    (boolean : P .boolean) (string : P .string) (number : P .number) (empty : P .empty)
    (nil : P .nil) (literal : ∀ expected, P (.literal expected)) (host : ∀ type, P (.host type))
    (rule : ∀ r, P (.rule r)) (closure : ∀ f, P (.closure f))
    (object : ∀ inner, P inner → P (.object inner))
    (array : ∀ inner, P inner → P (.array inner))
    (record : ∀ fields, (∀ f ∈ fields, P f.2) → P (.record fields))
    (tuple : ∀ items, (∀ w ∈ items, P w) → P (.tuple items))
    (any : ∀ members, (∀ w ∈ members, P w) → P (.any members))
    (all : ∀ members, (∀ w ∈ members, P w) → P (.all members))
    (or : ∀ left right, P left → P right → P (.or left right))
    (and : ∀ left right, P left → P right → P (.and left right))
    (boxed : ∀ inner, P inner → P (.boxed inner))
    (asserting : ∀ inner, P inner → P (.asserting inner))
    (stub : ∀ name answer, P (.stub name answer))
    (spy : ∀ name inner, P inner → P (.spy name inner)) (w : Validator) : P w := by
  refine Validator.rec (motive_1 := P) (motive_2 := fun fields => ∀ f ∈ fields, P f.2)
    (motive_3 := fun ws => ∀ w ∈ ws, P w) (motive_4 := fun f => P f.2)
    boolean string number empty nil literal host rule closure object array record tuple any all
    or and boxed asserting stub spy ?_ ?_ ?_ ?_ ?_ w
  · exact fun _ h => absurd h List.not_mem_nil
  · exact fun f fs hf hfs => List.forall_mem_cons.2 ⟨hf, hfs⟩
  · exact fun _ h => absurd h List.not_mem_nil
  · exact fun w ws hw hws => List.forall_mem_cons.2 ⟨hw, hws⟩
  · exact fun _ _ h => h

/-- The validators that a validator asks, in order. -/
def parts : Validator → List Validator
  | .object inner => [inner]
  | .array inner => [inner]
  | .record fields => fields.map Prod.snd
  | .tuple items => items
  | .any members => members
  | .all members => members
  | .or left right => [left, right]
  | .and left right => [left, right]
  | .boxed inner => [inner]
  | .asserting inner => [inner]
  | .spy _ inner => [inner]
  | _ => []

/-- The same induction, with all forms treated alike. -/
theorem parts_induction {P : Validator → Prop} (h : ∀ w, (∀ u ∈ w.parts, P u) → P w)
    (w : Validator) : P w := by
  induction w using Validator.induction with
  | object inner ih | array inner ih | boxed inner ih | asserting inner ih | spy name inner ih =>
    exact h _ (by simpa [parts] using ih)
  | record fields ih =>
    refine h _ fun u hu => ?_
    obtain ⟨f, hf, rfl⟩ := List.mem_map.1 hu
    exact ih f hf
  | tuple ws ih | any ws ih | all ws ih => exact h _ ih
  | or left right ihl ihr | and left right ihl ihr =>
    exact h _ (by simpa [parts] using ⟨ihl, ihr⟩)
  | _ => exact h _ fun u hu => by simp [parts] at hu

/-- It holds of the validator and of all that are in it. -/
inductive Throughout (P : Validator → Prop) : Validator → Prop where
  | mk {w : Validator} : P w → (∀ u ∈ w.parts, Throughout P u) → Throughout P w

theorem throughout_iff {P : Validator → Prop} {w : Validator} :
    Throughout P w ↔ P w ∧ ∀ u ∈ w.parts, Throughout P u := by
  constructor
  · rintro ⟨hw, hp⟩
    exact ⟨hw, hp⟩
  · rintro ⟨hw, hp⟩
    exact .mk hw hp

/-- The part of a part of a part, by the numbers of the parts. -/
def part? (w : Validator) : List Nat → Option Validator
  | [] => some w
  | i :: rest => w.parts[i]?.bind fun u => u.part? rest

end Validator

/-- What a payload holds. -/
def Payload.parts : Payload → List Value
  | .value v => [v]
  | .host h => [.host h]
  | _ => []

namespace Value

/-- What a value holds: elements, the values of entries, or what is in the payload. -/
def parts : Value → List Value
  | .array _ elements => elements
  | .object _ entries => entries.map Prod.snd
  | .host h => h.payload.parts
  | _ => []

/-- To hold of every value, it is enough to hold of one whenever it holds of its parts. -/
theorem parts_induction {P : Value → Prop} (h : ∀ v, (∀ u ∈ v.parts, P u) → P v)
    (v : Value) : P v := by
  have leaf : ∀ v : Value, v.parts = [] → P v := fun v hv => h v (by simp [hv])
  refine Value.rec (motive_1 := P) (motive_2 := fun g => P (.host g))
    (motive_3 := fun p => ∀ tag type, P (.host (.mk tag type p)))
    (motive_4 := fun vs => ∀ u ∈ vs, P u) (motive_5 := fun es => ∀ e ∈ es, P e.2)
    (motive_6 := fun e => P e.2) (leaf _ rfl) (leaf _ rfl) (fun _ => leaf _ rfl)
    (fun _ => leaf _ rfl) (fun _ => leaf _ rfl) ?array ?object (fun _ hg => hg)
    (fun tag type p hp => hp tag type) (fun _ _ => leaf _ rfl) (fun _ _ _ => leaf _ rfl)
    (fun _ _ _ => leaf _ rfl) (fun _ _ _ => leaf _ rfl) ?value ?host ?nil ?cons ?nil' ?cons'
    (fun _ _ h => h) v
  case array => exact fun tag elements ih => h _ ih
  case object =>
    intro tag entries ih
    refine h _ fun u hu => ?_
    obtain ⟨e, he, rfl⟩ := List.mem_map.1 hu
    exact ih e he
  case value => exact fun v hv tag type => h _ (List.forall_mem_singleton.2 hv)
  case host => exact fun g hg tag type => h _ (List.forall_mem_singleton.2 hg)
  case nil => exact fun _ h => absurd h List.not_mem_nil
  case cons => exact fun v vs hv hvs => List.forall_mem_cons.2 ⟨hv, hvs⟩
  case nil' => exact fun _ h => absurd h List.not_mem_nil
  case cons' => exact fun e es he hes => List.forall_mem_cons.2 ⟨he, hes⟩

/-- A value is found in itself and in what holds it, at any depth. -/
inductive Within : Value → Value → Prop where
  | refl (v : Value) : Within v v
  | part {u v w : Value} : u ∈ v.parts → Within w u → Within w v

theorem within_iff {u v : Value} : u.Within v ↔ u = v ∨ ∃ w ∈ v.parts, u.Within w := by
  constructor
  · rintro (_ | ⟨hw, h⟩)
    · exact .inl rfl
    · exact .inr ⟨_, hw, h⟩
  · rintro (rfl | ⟨w, hw, h⟩)
    · exact .refl u
    · exact .part hw h

theorem Within.trans {u v w : Value} (huv : u.Within v) (hvw : v.Within w) : u.Within w := by
  induction hvw with
  | refl => exact huv
  | part hu _ ih => exact .part hu (ih huv)

/-- It holds of the value and of all that is found within it. -/
def Everywhere (P : Value → Prop) (v : Value) : Prop := ∀ u : Value, u.Within v → P u

theorem everywhere_iff {P : Value → Prop} {v : Value} :
    v.Everywhere P ↔ P v ∧ ∀ u ∈ v.parts, u.Everywhere P := by
  constructor
  · intro h
    exact ⟨h v (.refl v), fun u hu w hw => h w (.part hu hw)⟩
  · rintro ⟨hv, hp⟩ w hw
    rcases within_iff.1 hw with rfl | ⟨u, hu, hw⟩
    · exact hv
    · exact hp u hu w hw

end Value

end ShapeCheck
