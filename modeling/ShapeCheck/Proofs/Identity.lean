import ShapeCheck.Proofs.Equality
import ShapeCheck.Proofs.Verdict
import ShapeCheck.Proofs.World
/-!
# Identity

In a reachable world, strictly equal values with an identity are one and the same, the result of one
construction. Strictly equal scalars are the same but for the sign of zero, which no built-in
validator sees. Main theorem `identity_sound`.
-/
namespace ShapeCheck

/-! ## Strict equality -/

namespace Value

theorem identity?_eq_of_strictEq {a b : Value} (h : a.strictEq b = true) :
    a.identity? = b.identity? := by
  cases a <;> cases b <;> simp_all [strictEq, identity?, Host.same]

/-- With an identity, a value is strictly equal to itself. -/
theorem strictEq_self {a : Value} {tag : Tag} (h : a.identity? = some tag) :
    a.strictEq a = true := by
  cases a <;> simp_all [strictEq, identity?, Host.same]

/-- Scalars that are strictly equal differ at most in the sign of zero. -/
theorem eq_or_numEq_of_strictEq {a b : Value} (h : a.strictEq b = true) (ha : a.identity? = none) :
    a = b ∨ ∃ x y, a = .number x ∧ b = .number y ∧ x.numEq y = true := by
  cases a <;> cases b <;> simp_all [strictEq, identity?]

end Value

/-! ## Runs on strictly equal values -/

namespace Validator

/-- No rule and no closure. -/
def isBuiltIn : Validator → Bool
  | .rule _ | .closure _ => false
  | _ => true

/-- Built of the given forms alone, without tests from outside. -/
def BuiltIn (w : Validator) : Prop := Throughout (fun u => u.isBuiltIn = true) w

/-- A built-in validator does not see the sign of zero. -/
theorem run_number_congr {w : Validator} (hw : w.BuiltIn) {x y : Double}
    (hxy : x.numEq y = true) : w.run (.number x) = w.run (.number y) := by
  induction w using Validator.induction with
  | rule | closure => cases (throughout_iff.1 hw).1
  | literal expected =>
    cases expected with
    | number z => rw [run, run, Value.strictEq, Value.strictEq, Binary.numEq_congr hxy]
    | _ => rfl
  | any members ih =>
    have hp := (throughout_iff.1 hw).2
    rw [run_any, run_any]
    exact congrArg _ (List.map_congr_left fun u hu => ih u hu (hp u hu))
  | all members ih =>
    have hp := (throughout_iff.1 hw).2
    rw [run_all, run_all]
    exact congrArg _ (List.map_congr_left fun u hu => ih u hu (hp u hu))
  | or left right ihl ihr | and left right ihl ihr =>
    obtain ⟨hl, hr⟩ := List.forall_mem_cons.1 (throughout_iff.1 hw).2
    rw [run, run, ihl hl, ihr (hr right List.mem_cons_self)]
  | boxed inner ih => exact ih (List.forall_mem_singleton.1 (throughout_iff.1 hw).2)
  | asserting inner ih | spy name inner ih =>
    have hp := List.forall_mem_singleton.1 (throughout_iff.1 hw).2
    rw [run, run, ih hp]
    rfl
  | _ => rfl

end Validator

/-! ## Identity in reachable worlds -/

namespace Ledger

variable {made : Ledger} {a b : Value} {tag : Tag}

/-- On record, what has the identity of a value is that value. -/
theorem Recorded.eq_of_strictEq (ha : Recorded made a) (hb : Recorded made b)
    (ht : a.identity? = some tag) (h : a.strictEq b = true) : a = b := by
  have hra := ha a tag (.refl a) ht
  have hrb := hb b tag (.refl b) (Value.identity?_eq_of_strictEq h ▸ ht)
  exact Option.some.inj (hra.symm.trans hrb)

/-- The results of two constructions are never strictly equal. -/
theorem Sound.strictEq_eq_false (hs : Sound made) {m n : Nat} (hmn : m ≠ n)
    (ha : made[m]? = some a) (hb : made[n]? = some b) : a.strictEq b = false := by
  refine Bool.eq_false_iff.2 fun h => hmn ?_
  have he := Value.identity?_eq_of_strictEq h
  rw [hs.numbered m a ha, hs.numbered n b hb] at he
  exact congrArg Tag.serial (Option.some.inj he)

end Ledger

namespace World

/-- Identity is sound in a world. Values with an identity are strictly equal exactly if both are
copies of the result of one construction, and then they are the same, content and all. No results of
two constructions are strictly equal. Strictly equal values, scalars too, are the same to every
built-in validator: the same verdict, calls and rejections. And the literal of a value with an
identity accepts its copies and nothing else. -/
structure TellsApart (w : World) : Prop where
  strictEq_iff : ∀ a b tag, w.Found a → w.Found b → a.identity? = some tag →
    (a.strictEq b = true ↔ ∃ n : Nat, w.made[n]? = some a ∧ w.made[n]? = some b)
  content : ∀ a b tag, w.Found a → w.Found b → a.identity? = some tag →
    a.strictEq b = true → a = b
  distinct : ∀ (m n : Nat) (c d : Value), m ≠ n → w.made[m]? = some c → w.made[n]? = some d →
    c.strictEq d = false
  run : ∀ a b, w.Found a → w.Found b → a.strictEq b = true →
    ∀ validator : Validator, validator.BuiltIn → validator.run a = validator.run b
  literal : ∀ x y tag, w.Found x → w.Found y → y.identity? = some tag →
    ((Validator.literal y).accepts x = true ↔ x = y)

end World

open World in
/-- **Identity is sound** in every reachable world. -/
theorem identity_sound {w : World} (h : Reachable w) : w.TellsApart where
  strictEq_iff a b tag ha hb ht := by
    have hra := recorded_of_found h ha
    constructor
    · intro hab
      obtain rfl := hra.eq_of_strictEq (recorded_of_found h hb) ht hab
      exact ⟨tag.serial, hra a tag (.refl a) ht, hra a tag (.refl a) ht⟩
    · rintro ⟨n, hna, hnb⟩
      obtain rfl := Option.some.inj (hna.symm.trans hnb)
      exact Value.strictEq_self ht
  content _ _ _ ha hb ht := (recorded_of_found h ha).eq_of_strictEq (recorded_of_found h hb) ht
  distinct _ _ _ _ := (reachable_sound h).made.strictEq_eq_false
  run a b ha hb hab validator hV := by
    cases ht : a.identity? with
    | some tag => rw [(recorded_of_found h ha).eq_of_strictEq (recorded_of_found h hb) ht hab]
    | none =>
      rcases Value.eq_or_numEq_of_strictEq hab ht with rfl | ⟨x, y, rfl, rfl, hxy⟩
      · rfl
      · exact Validator.run_number_congr hV hxy
  literal x y tag hx hy ht := by
    rw [Validator.accepts_literal]
    constructor
    · intro hxy
      have htx := (Value.identity?_eq_of_strictEq hxy).trans ht
      exact (recorded_of_found h hx).eq_of_strictEq (recorded_of_found h hy) htx hxy
    · rintro rfl
      exact Value.strictEq_self ht

namespace World

/-- A world with two empty arrays, a copy of the first, and both zeros. -/
def twins : World :=
  let arrays := (start.build (Value.newArray [])).build (Value.newArray [])
  ((arrays.hold (.array ⟨0⟩ [])).hold (.zero false)).hold (.zero true)

theorem reachable_twins : Reachable twins := by
  refine .step (.step (.step (.step (.step .start (.array ?_)) (.array ?_)) (.copy ?_))
    (.scalar rfl)) (.scalar rfl)
  · exact fun _ h => absurd h List.not_mem_nil
  · exact fun _ h => absurd h List.not_mem_nil
  · exact List.mem_cons_of_mem _ List.mem_cons_self

/-- Empty arrays made one after the other are told apart, a copy is not, and the two zeros are the
same to a probe around a literal. -/
theorem identity_sound_twins :
    Reachable twins ∧
    (Value.array ⟨0⟩ []).strictEq (.array ⟨1⟩ []) = false ∧
    ((Validator.literal (.array ⟨0⟩ [])).accepts (.array ⟨0⟩ []) = true) ∧
    (Validator.asserting (.spy "zero" (.literal (.zero true)))).run (.zero true) =
      (Validator.asserting (.spy "zero" (.literal (.zero true)))).run (.zero false) := by
  have hcopy : twins.Found (.array ⟨0⟩ []) := ⟨_, by simp [twins, hold], .refl _⟩
  have htrue : twins.Found (.zero true) := ⟨_, by simp [twins, hold], .refl _⟩
  have hfalse : twins.Found (.zero false) := ⟨_, by simp [twins, hold], .refl _⟩
  have hapart : twins.TellsApart := identity_sound reachable_twins
  refine ⟨reachable_twins, hapart.distinct 0 1 _ _ (by decide) rfl rfl,
    (hapart.literal _ _ _ hcopy hcopy rfl).2 rfl, hapart.run _ _ htrue hfalse rfl _ ?_⟩
  refine .mk rfl (List.forall_mem_singleton.2 (.mk rfl (List.forall_mem_singleton.2 (.mk rfl ?_))))
  exact fun _ h => absurd h List.not_mem_nil

end World

end ShapeCheck
