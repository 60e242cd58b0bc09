import ShapeCheck.Proofs.Equality
import ShapeCheck.Proofs.Verdict
import ShapeCheck.Proofs.World
/-!
# Judging by content

A validator judges **by content** if it has no test from outside and no literal of an array or an
object. Such a validator cannot tell structurally equal values apart (`accepts_eq_of_match`). Main
theorem `accepts_by_content`: in reachable worlds it gives equal values, and all rearrangements of a
value that holds no `nan`, the same verdict.
-/
namespace ShapeCheck

/-- Values that can stand side by side: what is inside them is among them, the keys of their objects
are distinct, and a host object has one type. -/
structure Coherent (P : Value → Prop) : Prop where
  undefined : P .undefined
  parts : ∀ v, P v → ∀ u ∈ v.parts, P u
  distinct : ∀ (tag : Tag) (entries : Entries Value), P (.object tag entries) → entries.Distinct
  hosts : ∀ g h : Host, P (.host g) → P (.host h) → g.tag = h.tag → g.type = h.type

namespace Coherent

open Entries

/-- Two of the values, and equal. -/
def Match (P : Value → Prop) (a b : Value) : Prop := P a ∧ P b ∧ a.eqv b = true

variable {P : Value → Prop} {a b : Value} {s t : Tag}

theorem match_getD {x y : Option Value} (hP : Coherent P) (h : Option.Rel (Match P) x y) :
    Match P (x.getD .undefined) (y.getD .undefined) := by
  cases h with
  | some h => exact h
  | none => exact ⟨hP.undefined, hP.undefined, rfl⟩

/-- Equal arrays have equal elements at each place, or both none. -/
theorem match_getElem? {xs ys : List Value} (hP : Coherent P)
    (h : Match P (.array s xs) (.array t ys)) (i : Nat) :
    Option.Rel (Match P) xs[i]? ys[i]? := by
  obtain ⟨ha, hb, h⟩ := h
  have hrel := Value.rel_getElem?_of_eqv h i
  generalize hx : xs[i]? = x at hrel ⊢
  generalize hy : ys[i]? = y at hrel ⊢
  cases hrel with
  | none => exact .none
  | @some x y hxy =>
    have hmx : x ∈ (Value.array s xs).parts := List.mem_of_getElem? hx
    have hmy : y ∈ (Value.array t ys).parts := List.mem_of_getElem? hy
    exact .some ⟨hP.parts _ ha x hmx, hP.parts _ hb y hmy, hxy⟩

/-- Equal objects have equal values at each key, or both none. -/
theorem match_get? {xs ys : Entries Value} (hP : Coherent P)
    (h : Match P (.object s xs) (.object t ys)) (key : String) :
    Option.Rel (Match P) (get? xs key) (get? ys key) := by
  obtain ⟨ha, hb, h⟩ := h
  have hrel := Value.rel_get?_of_eqv (hP.distinct _ _ ha) h key
  generalize hx : get? xs key = x at hrel ⊢
  generalize hy : get? ys key = y at hrel ⊢
  cases hrel with
  | none => exact .none
  | @some x y hxy =>
    have hmx : x ∈ (Value.object s xs).parts := List.mem_map.2 ⟨_, mem_of_get? hx, rfl⟩
    have hmy : y ∈ (Value.object t ys).parts := List.mem_map.2 ⟨_, mem_of_get? hy, rfl⟩
    exact .some ⟨hP.parts _ ha x hmx, hP.parts _ hb y hmy, hxy⟩

theorem match_field (hP : Coherent P) (h : Match P a b) (key : String) :
    Match P (a.field key) (b.field key) := by
  have hk := Value.kind_eq_of_eqv h.2.2
  cases a with
  | object s xs =>
    cases b with
    | object t ys => exact hP.match_getD (hP.match_get? h key)
    | _ => cases hk
  | _ => cases b <;> first | exact ⟨hP.undefined, hP.undefined, rfl⟩ | cases hk

theorem match_item (hP : Coherent P) (h : Match P a b) (index : Nat) :
    Match P (a.item index) (b.item index) := by
  have hk := Value.kind_eq_of_eqv h.2.2
  cases a with
  | array s xs =>
    cases b with
    | array t ys =>
      simp only [Value.item, List.getD_eq_getElem?_getD]
      exact hP.match_getD (hP.match_getElem? h index)
    | _ => cases hk
  | _ => cases b <;> first | exact ⟨hP.undefined, hP.undefined, rfl⟩ | cases hk

theorem forall_mem_iff_getElem? {xs : List Value} {Q : Value → Prop} :
    (∀ x ∈ xs, Q x) ↔ ∀ (i : Nat) (x : Value), xs[i]? = some x → Q x := by
  simp only [List.mem_iff_getElem?, forall_exists_index]
  exact forall_comm

/-- What tells no two matched values apart holds of all of the first if of all of the second. -/
theorem forall_congr_of_rel {ι : Type} {f g : ι → Option Value} {Q : Value → Prop}
    (h : ∀ i, Option.Rel (Match P) (f i) (g i)) (hQ : ∀ x y, Match P x y → (Q x ↔ Q y)) :
    (∀ i x, f i = some x → Q x) ↔ ∀ i y, g i = some y → Q y := by
  refine forall_congr' fun i => ?_
  have hi := h i
  generalize f i = x at hi ⊢
  generalize g i = y at hi ⊢
  cases hi with
  | some hxy => simp [hQ _ _ hxy]
  | none => simp

end Coherent

/-! ## Verdicts on equal values -/

namespace Validator

open Coherent

/-- No rule, no closure, and no literal of a container. -/
def judgesContent : Validator → Bool
  | .rule _ | .closure _ => false
  | .literal expected => !expected.isContainer
  | _ => true

def ByContent (w : Validator) : Prop := Throughout (fun u => u.judgesContent = true) w

variable {P : Value → Prop} {a b : Value}

theorem accepts_object_of_match (hP : Coherent P) {w : Validator}
    (ih : ∀ {x y}, Match P x y → w.accepts x = w.accepts y) (h : Match P a b) :
    accepts (.object w) a = accepts (.object w) b := by
  have hk := Value.kind_eq_of_eqv h.2.2
  cases a with
  | object s xs =>
    cases b with
    | object t ys =>
      rw [accepts_object, accepts_object, Bool.eq_iff_iff, List.all_eq_true, List.all_eq_true,
        Entries.forall_mem_iff_get? (Q := fun x => w.accepts x = true) (hP.distinct _ _ h.1),
        Entries.forall_mem_iff_get? (Q := fun x => w.accepts x = true) (hP.distinct _ _ h.2.1)]
      exact forall_congr_of_rel (hP.match_get? h) fun x y hxy => by rw [ih hxy]
    | _ => cases hk
  | _ => cases b <;> first | rfl | cases hk

theorem accepts_array_of_match (hP : Coherent P) {w : Validator}
    (ih : ∀ {x y}, Match P x y → w.accepts x = w.accepts y) (h : Match P a b) :
    accepts (.array w) a = accepts (.array w) b := by
  have hk := Value.kind_eq_of_eqv h.2.2
  cases a with
  | array s xs =>
    cases b with
    | array t ys =>
      rw [accepts_array, accepts_array, Bool.eq_iff_iff, List.all_eq_true, List.all_eq_true,
        forall_mem_iff_getElem?, forall_mem_iff_getElem?]
      exact forall_congr_of_rel (hP.match_getElem? h) fun x y hxy => by rw [ih hxy]
    | _ => cases hk
  | _ => cases b <;> first | rfl | cases hk

theorem accepts_host_of_match (hP : Coherent P) (type : HostType) (h : Match P a b) :
    accepts (.host type) a = accepts (.host type) b := by
  have hk := Value.kind_eq_of_eqv h.2.2
  cases a with
  | host g =>
    cases b with
    | host k =>
      have ht : g.type = k.type := hP.hosts g k h.1 h.2.1 (eq_of_beq h.2.2)
      rw [Bool.eq_iff_iff, accepts_host_iff, accepts_host_iff]
      simp [ht]
    | _ => cases hk
  | _ => cases b <;> first | rfl | cases hk

/-- **Equal values get the same verdict.** -/
theorem accepts_eq_of_match (hP : Coherent P) {w : Validator} (hw : w.ByContent)
    (h : Match P a b) : w.accepts a = w.accepts b := by
  have hk := Value.kind_eq_of_eqv h.2.2
  induction w using Validator.induction generalizing a b with
  | rule | closure => cases (throughout_iff.1 hw).1
  | boolean | string | number | empty | nil => simp [accepts, hk]
  | literal expected =>
    have hc : expected.isContainer = false := by
      simpa [judgesContent] using (throughout_iff.1 hw).1
    rw [accepts_literal, accepts_literal, Value.strictEq_eq_of_eqv h.2.2 hc]
  | host type => exact accepts_host_of_match hP type h
  | object w ih =>
    have hp := List.forall_mem_singleton.1 (throughout_iff.1 hw).2
    exact accepts_object_of_match hP (fun h => ih hp h (Value.kind_eq_of_eqv h.2.2)) h
  | array w ih =>
    have hp := List.forall_mem_singleton.1 (throughout_iff.1 hw).2
    exact accepts_array_of_match hP (fun h => ih hp h (Value.kind_eq_of_eqv h.2.2)) h
  | record fields ih =>
    have hp := (throughout_iff.1 hw).2
    rw [Bool.eq_iff_iff, accepts_record_iff, accepts_record_iff, hk]
    refine and_congr_right fun _ => forall₂_congr fun f hf => ?_
    have hm := hP.match_field h f.1
    rw [ih f hf (hp f.2 (List.mem_map_of_mem hf)) hm (Value.kind_eq_of_eqv hm.2.2)]
  | tuple items ih =>
    have hp := (throughout_iff.1 hw).2
    rw [Bool.eq_iff_iff, accepts_tuple_iff, accepts_tuple_iff, hk]
    refine and_congr_right fun _ => forall₃_congr fun i u hu => ?_
    have hmem := List.mem_of_getElem? hu
    have hm := hP.match_item h i
    rw [ih u hmem (hp u hmem) hm (Value.kind_eq_of_eqv hm.2.2)]
  | any members ih =>
    have hp := (throughout_iff.1 hw).2
    rw [accepts_any, accepts_any, Bool.eq_iff_iff, List.any_eq_true, List.any_eq_true]
    exact exists_congr fun u => and_congr_right fun hu => by rw [ih u hu (hp u hu) h hk]
  | all members ih =>
    have hp := (throughout_iff.1 hw).2
    rw [accepts_all, accepts_all, Bool.eq_iff_iff, List.all_eq_true, List.all_eq_true]
    exact forall₂_congr fun u hu => by rw [ih u hu (hp u hu) h hk]
  | or left right ihl ihr | and left right ihl ihr =>
    obtain ⟨hl, hr⟩ := List.forall_mem_cons.1 (throughout_iff.1 hw).2
    simp [ihl hl h hk, ihr (List.forall_mem_singleton.1 hr) h hk]
  | boxed inner ih | asserting inner ih | spy name inner ih =>
    have hp := List.forall_mem_singleton.1 (throughout_iff.1 hw).2
    simp [ih hp h hk]
  | stub name answer => simp

end Validator

/-! ## Values of reachable worlds -/

namespace Coherent

variable {P : Value → Prop}

/-- What is on record in a sound ledger can stand side by side. -/
theorem recorded {made : Ledger} (h : made.Sound) : Coherent made.Recorded where
  undefined := Ledger.recorded_of_identity?_eq_none rfl
  parts _ hv _ hu := hv.part hu
  distinct tag entries hv :=
    h.distinct tag entries (List.mem_of_getElem? (hv _ tag (.refl _) rfl))
  hosts g k hg hk ht := by
    have hrg := hg _ g.tag (.refl _) rfl
    have hrk := hk _ k.tag (.refl _) rfl
    rw [ht] at hrg
    obtain rfl := Value.host.inj (Option.some.inj (hrg.symm.trans hrk))
    rfl

theorem wellKeyed (hP : Coherent P) {v : Value} (hv : P v) : v.WellKeyed := by
  intro tag entries h
  refine hP.distinct tag entries ?_
  generalize Value.object tag entries = u at h
  induction h with
  | refl => exact hv
  | part hw _ ih => exact ih (hP.parts _ hv _ hw)

/-- So can their rearrangements. -/
theorem rearranged (hP : Coherent P) : Coherent fun v => ∃ u, P u ∧ u.Rearranged v where
  undefined := ⟨.undefined, hP.undefined, .refl _⟩
  parts v := by
    rintro ⟨u, hu, h⟩ y hy
    cases h with
    | refl => exact ⟨y, hP.parts _ hu y hy, .refl y⟩
    | @array s t xs ys hlen h =>
      obtain ⟨i, hi⟩ := List.mem_iff_getElem?.1 hy
      have hlt : i < xs.length := hlen ▸ (List.getElem?_eq_some_iff.1 hi).1
      have hx : xs[i]? = some xs[i] := List.getElem?_eq_getElem hlt
      exact ⟨xs[i], hP.parts _ hu _ (List.getElem_mem hlt), h i _ y hx hi⟩
    | @object s t xs ys hkeys h =>
      obtain ⟨e, he, rfl⟩ := List.mem_map.1 hy
      have hk : e.1 ∈ xs.keys := hkeys.mem_iff.2 (Entries.mem_keys_of_mem he)
      obtain ⟨x, hx⟩ := Entries.exists_get?_of_mem_keys hk
      have hm : (e.1, x) ∈ xs := Entries.mem_of_get? hx
      have hp : x ∈ (Value.object s xs).parts := List.mem_map.2 ⟨_, hm, rfl⟩
      exact ⟨x, hP.parts _ hu x hp, h e.1 x e.2 hm he⟩
  distinct tag entries := by
    rintro ⟨u, hu, h⟩
    cases h with
    | refl => exact hP.distinct _ _ hu
    | object hkeys _ => exact hkeys.nodup_iff.1 (hP.distinct _ _ hu)
  hosts g k := by
    rintro ⟨u, hu, h⟩ ⟨u', hu', h'⟩
    cases h
    cases h'
    exact hP.hosts g k hu hu'

end Coherent

open World in
/-- **Validators that judge by content cannot tell equal values apart.** In a reachable world they
give structurally equal values the same verdict. A value that holds no `nan` is equal to each of its
rearrangements, with entries in another order and arrays and objects made anew at any depth, so
these get the verdict of the value. -/
theorem accepts_by_content {w : World} (h : Reachable w) {validator : Validator}
    (hv : validator.ByContent) :
    (∀ a b, w.Found a → w.Found b → a.eqv b = true →
      validator.accepts a = validator.accepts b) ∧
    (∀ a b, w.Found a → ¬ a.HoldsNaN → a.Rearranged b →
      a.eqv b = true ∧ validator.accepts a = validator.accepts b) := by
  have hP := Coherent.recorded (reachable_sound h).made
  constructor
  · intro a b ha hb hab
    exact Validator.accepts_eq_of_match hP hv
      ⟨recorded_of_found h ha, recorded_of_found h hb, hab⟩
  · intro a b ha hn hab
    have hra := recorded_of_found h ha
    have heq := Value.eqv_of_rearranged hab (hP.wellKeyed hra) hn
    exact ⟨heq, Validator.accepts_eq_of_match hP.rearranged hv
      ⟨⟨a, hra, .refl a⟩, ⟨a, hra, hab⟩, heq⟩⟩

namespace World

/-- Two entries, with either zero. -/
def turnedPairs (negative : Bool) : List (String × Value) :=
  [("size", .zero negative), ("next", .null)]

/-- A world with two equal objects, the second turned round and with the other zero. -/
def turned : World :=
  let scalars := ((start.hold (.zero false)).hold (.zero true)).hold .null
  (scalars.build (Value.newObject (turnedPairs false))).build
    (Value.newObject (turnedPairs true).reverse)

theorem reachable_turned : Reachable turned := by
  refine .step (.step (.step (.step (.step .start (.scalar rfl)) (.scalar rfl)) (.scalar rfl))
    (.object ?_)) (.object ?_)
  · simp [turnedPairs, hold]
  · simp [turnedPairs, hold, build, Ledger.build]

theorem ofPairs_turnedPairs (negative : Bool) :
    Entries.ofPairs (turnedPairs negative) = turnedPairs negative ∧
      Entries.ofPairs (turnedPairs negative).reverse = (turnedPairs negative).reverse := by
  rw [Entries.ofPairs_eq_insertAll, Entries.ofPairs_eq_insertAll]
  exact ⟨rfl, rfl⟩

/-- An object and the same turned round, with the other zero, are one to a record. -/
theorem accepts_by_content_turned :
    let a := Value.object ⟨0⟩ (turnedPairs false)
    let b := Value.object ⟨1⟩ (turnedPairs true).reverse
    let c := Value.object ⟨2⟩ (turnedPairs false).reverse
    let validator := Validator.record [("size", .literal (.zero false)), ("next", .nil)]
    Reachable turned ∧ validator.ByContent ∧ a.eqv b = true ∧ ¬ a.HoldsNaN ∧ a.Rearranged c ∧
      validator.accepts a = validator.accepts b ∧ validator.accepts a = validator.accepts c := by
  intro a b c validator
  have held : turned.held = [b, a, .null, .zero true, .zero false] := by
    show [Value.object ⟨1⟩ _, Value.object ⟨0⟩ _, _, _, _] = _
    rw [(ofPairs_turnedPairs true).2, (ofPairs_turnedPairs false).1]
  have ha : turned.Found a := ⟨a, by simp [held], .refl a⟩
  have hb : turned.Found b := ⟨b, by simp [held], .refl b⟩
  have leaf : ∀ {u : Validator}, u.judgesContent = true → u.parts = [] → u.ByContent :=
    fun hu hp => .mk hu (by simp [hp])
  have hv : validator.ByContent := .mk rfl (List.forall_mem_cons.2
    ⟨leaf rfl rfl, List.forall_mem_singleton.2 (leaf rfl rfl)⟩)
  have hab : a.eqv b = true := Value.eqv_object_iff.2 ⟨rfl, List.forall_mem_cons.2
    ⟨⟨.zero true, rfl, rfl⟩, List.forall_mem_singleton.2 ⟨.null, rfl, rfl⟩⟩⟩
  have hn : ¬ a.HoldsNaN := by
    show ¬ (Value.object ⟨0⟩ [("size", .zero false), ("next", .null)]).HoldsNaN
    rintro (_ | _ | ⟨hm, h⟩)
    simp only [List.mem_cons, Prod.mk.injEq, List.not_mem_nil, or_false] at hm
    rcases hm with ⟨-, rfl⟩ | ⟨-, rfl⟩
    · cases h; contradiction
    · cases h
  have hac : a.Rearranged c :=
    .of_perm (by simp [Entries.Distinct, Entries.keys, turnedPairs]) (List.reverse_perm _).symm _ _
  obtain ⟨equal, turn⟩ := accepts_by_content reachable_turned hv
  exact ⟨reachable_turned, hv, hab, hn, hac, equal a b ha hb hab, (turn a c ha hn hac).2⟩

end World

end ShapeCheck
