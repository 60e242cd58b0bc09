import Mathlib.Data.List.Forall2
import ShapeCheck.Proofs.Lookup
import ShapeCheck.Proofs.Verdict
import ShapeCheck.Validator.Schema
/-!
# Loosening

No form of a validator turns the verdicts of its parts round: with looser parts in place of its own,
all of them at once, a validator is looser (`looserThan_withParts`). A **loosening** is one edit of
a whole validator, such as one more alternative or one field less; it can be made on any part of a
part of a validator. Main theorem `accepts_of_loosened`: whatever such edits are made, nothing that
was accepted is rejected.
-/
namespace ShapeCheck.Validator

open Entries

variable {w u s t : Validator} {v : Value} {ts us : List Validator}

/-- It accepts whatever the other accepts. -/
def LooserThan (u w : Validator) : Prop := ∀ v, w.accepts v = true → u.accepts v = true

theorem LooserThan.refl (w : Validator) : w.LooserThan w := fun _ h => h

theorem LooserThan.trans (h : s.LooserThan u) (h' : u.LooserThan w) : s.LooserThan w :=
  fun v hv => h v (h' v hv)

/-! ## Other parts in the same form -/

/-- The same form around other parts, as many as there were. -/
def withParts : Validator → List Validator → Validator
  | .object _, [u] => .object u
  | .array _, [u] => .array u
  | .record fields, us => .record ((fields.zip us).map fun p => (p.1.1, p.2))
  | .tuple _, us => .tuple us
  | .any _, us => .any us
  | .all _, us => .all us
  | .or _ _, [l, r] => .or l r
  | .and _ _, [l, r] => .and l r
  | .boxed _, [u] => .boxed u
  | .asserting _, [u] => .asserting u
  | .spy name _, [u] => .spy name u
  | w, _ => w

theorem parts_withParts (h : us.length = w.parts.length) : (w.withParts us).parts = us := by
  cases w with
  | record fields =>
    have hle : us.length ≤ fields.length := Nat.le_of_eq (h.trans (List.length_map _))
    rw [withParts, parts, List.map_map]
    exact List.map_snd_zip hle
  | tuple | any | all => rfl
  | object | array | boxed | asserting | spy =>
    obtain ⟨u, rfl⟩ := List.length_eq_one_iff.1 h
    rfl
  | or | and =>
    obtain ⟨l, r, rfl⟩ := List.length_eq_two.1 h
    rfl
  | _ => exact (List.length_eq_zero_iff.1 h).symm

/-- Each validator looser than the one at its place. -/
def Looser (us ts : List Validator) : Prop := List.Forall₂ (fun t u => u.LooserThan t) ts us

theorem Looser.any (h : Looser us ts) (hv : ts.any (·.accepts v) = true) :
    us.any (·.accepts v) = true := by
  induction h with
  | nil => exact hv
  | cons htu _ ih =>
    rw [List.any_cons, Bool.or_eq_true] at hv ⊢
    exact hv.imp (htu v) ih

theorem Looser.all (h : Looser us ts) (hv : ts.all (·.accepts v) = true) :
    us.all (·.accepts v) = true := by
  induction h with
  | nil => exact hv
  | cons htu _ ih =>
    rw [List.all_cons, Bool.and_eq_true] at hv ⊢
    exact hv.imp (htu v) ih

theorem Looser.single (h : Looser us [t]) : ∃ u, us = [u] ∧ u.LooserThan t := by
  obtain ⟨u, _, hu, hnil, rfl⟩ := List.forall₂_cons_left_iff.1 h
  exact ⟨u, by rw [List.forall₂_nil_left_iff.1 hnil], hu⟩

theorem Looser.double (h : Looser us [s, t]) :
    ∃ l r, us = [l, r] ∧ l.LooserThan s ∧ r.LooserThan t := by
  obtain ⟨l, _, hl, hrest, rfl⟩ := List.forall₂_cons_left_iff.1 h
  obtain ⟨r, rfl, hr⟩ := Looser.single hrest
  exact ⟨l, r, rfl, hl, hr⟩

theorem looserThan_tuple (h : Looser us ts) : (tuple us).LooserThan (.tuple ts) := by
  intro v hv
  obtain ⟨hk, hitems⟩ := accepts_tuple_iff.1 hv
  obtain ⟨hlen, hget⟩ := List.forall₂_iff_get.1 h
  refine accepts_tuple_iff.2 ⟨hk, fun i u hu => ?_⟩
  obtain ⟨hi, rfl⟩ := List.getElem?_eq_some_iff.1 hu
  have hi' : i < ts.length := hlen ▸ hi
  exact hget i hi' hi _ (hitems i ts[i] (List.getElem?_eq_getElem hi'))

theorem looserThan_record {fields : List (String × Validator)}
    (h : Looser us (fields.map Prod.snd)) :
    (record ((fields.zip us).map fun p => (p.1.1, p.2))).LooserThan (.record fields) := by
  intro v hv
  obtain ⟨hk, hfields⟩ := accepts_record_iff.1 hv
  refine accepts_record_iff.2 ⟨hk, fun f hf => ?_⟩
  obtain ⟨⟨g, u⟩, hp, rfl⟩ := List.mem_map.1 hf
  have hgu : u.LooserThan g.2 := List.forall₂_zip (List.forall₂_map_left_iff.1 h) hp
  exact hgu _ (hfields g (List.of_mem_zip hp).1)

/-- **A validator with looser parts is looser**, whatever its form. -/
theorem looserThan_withParts (h : Looser us w.parts) : (w.withParts us).LooserThan w := by
  intro v hv
  cases w with
  | object t =>
    obtain ⟨u, rfl, hu⟩ := Looser.single h
    obtain ⟨tag, entries, rfl, he⟩ := accepts_object_iff.1 hv
    exact accepts_object_iff.2 ⟨tag, entries, rfl, fun e hm => hu _ (he e hm)⟩
  | array t =>
    obtain ⟨u, rfl, hu⟩ := Looser.single h
    obtain ⟨tag, elements, rfl, he⟩ := accepts_array_iff.1 hv
    exact accepts_array_iff.2 ⟨tag, elements, rfl, fun x hm => hu _ (he x hm)⟩
  | record fields => exact looserThan_record h v hv
  | tuple items => exact looserThan_tuple h v hv
  | any members =>
    rw [accepts_any] at hv
    rw [withParts, accepts_any]
    exact Looser.any h hv
  | all members =>
    rw [accepts_all] at hv
    rw [withParts, accepts_all]
    exact Looser.all h hv
  | or l r =>
    obtain ⟨l', r', rfl, hl, hr⟩ := Looser.double h
    rw [accepts_or, Bool.or_eq_true] at hv
    rw [withParts, accepts_or, Bool.or_eq_true]
    exact hv.imp (hl v) (hr v)
  | and l r =>
    obtain ⟨l', r', rfl, hl, hr⟩ := Looser.double h
    rw [accepts_and, Bool.and_eq_true] at hv
    rw [withParts, accepts_and, Bool.and_eq_true]
    exact hv.imp (hl v) (hr v)
  | boxed t =>
    obtain ⟨u, rfl, hu⟩ := Looser.single h
    rw [accepts_boxed] at hv
    rw [withParts, accepts_boxed]
    exact hu v hv
  | asserting t =>
    obtain ⟨u, rfl, hu⟩ := Looser.single h
    rw [accepts_asserting] at hv
    rw [withParts, accepts_asserting]
    exact hu v hv
  | spy name t =>
    obtain ⟨u, rfl, hu⟩ := Looser.single h
    rw [accepts_spy] at hv
    rw [withParts, accepts_spy]
    exact hu v hv
  | _ => exact hv

/-! ## Another part of a part -/

/-- The validator with another in place of the part of a part of a part. -/
def replaceAt (w : Validator) : List Nat → Validator → Validator
  | [], u => u
  | i :: rest, u => w.withParts (w.parts.modify i fun t => t.replaceAt rest u)

theorem part?_replaceAt {occurrence : List Nat} (h : w.part? occurrence = some s) :
    (w.replaceAt occurrence u).part? occurrence = some u := by
  induction occurrence generalizing w with
  | nil => rfl
  | cons i rest ih =>
    obtain ⟨t, ht, hs⟩ := Option.bind_eq_some_iff.1 h
    rw [replaceAt, part?, parts_withParts (List.length_modify ..), List.getElem?_modify_eq, ht]
    exact ih hs

theorem looser_modify {i : Nat} {f : Validator → Validator}
    (h : ∀ t, ts[i]? = some t → (f t).LooserThan t) : Looser (ts.modify i f) ts := by
  induction ts generalizing i with
  | nil => rw [List.modify_nil]; exact .nil
  | cons t ts ih =>
    cases i with
    | zero => exact .cons (h t rfl) (List.forall₂_same.2 fun _ _ => .refl _)
    | succ i => exact .cons (.refl t) (ih h)

/-- At any depth, with a looser part in place of one the whole is looser. -/
theorem looserThan_replaceAt {occurrence : List Nat} (h : w.part? occurrence = some s)
    (hu : u.LooserThan s) : (w.replaceAt occurrence u).LooserThan w := by
  induction occurrence generalizing w with
  | nil => cases h; exact hu
  | cons i rest ih =>
    obtain ⟨t, ht, hs⟩ := Option.bind_eq_some_iff.1 h
    refine looserThan_withParts (looser_modify fun t' ht' => ?_)
    obtain rfl := Option.some.inj (ht.symm.trans ht')
    exact ih hs

/-! ## Edits -/

/-- One edit of a whole validator. -/
inductive Loosening : Validator → Validator → Prop where
  | looser {w u : Validator} (h : u.LooserThan w) : Loosening w u
  | addMember (before : List Validator) (u : Validator) (after : List Validator) :
      Loosening (.any (before ++ after)) (.any (before ++ u :: after))
  | orRight (w u : Validator) : Loosening w (.or w u)
  | orLeft (w u : Validator) : Loosening w (.or u w)
  | dropMember (before : List Validator) (u : Validator) (after : List Validator) :
      Loosening (.all (before ++ u :: after)) (.all (before ++ after))
  | andLeft (left right : Validator) : Loosening (.and left right) left
  | andRight (left right : Validator) : Loosening (.and left right) right
  | optional (w : Validator) : Loosening w w.optional
  | nullable (w : Validator) : Loosening w w.nullable
  | dropKeys (fields : List (String × Validator)) (keep : String → Bool) :
      Loosening (.record fields) (.record (fields.filter fun f => keep f.1))
  | dropItems (items : List Validator) (n : Nat) : Loosening (.tuple items) (.tuple (items.take n))
  | reorder {fields others : List (String × Validator)} (h : fields.Perm others) :
      Loosening (.record fields) (.record others)

/-- A record with fewer fields, in any order, is looser. -/
theorem looserThan_record_of_subset {fields others : List (String × Validator)}
    (h : others ⊆ fields) : (record others).LooserThan (.record fields) := by
  intro v hv
  obtain ⟨hk, hfields⟩ := accepts_record_iff.1 hv
  exact accepts_record_iff.2 ⟨hk, fun f hf => hfields f (h hf)⟩

theorem Loosening.looserThan (h : Loosening w u) : u.LooserThan w := by
  intro v hv
  cases h with
  | looser h => exact h v hv
  | addMember before u after =>
    rw [accepts_any, List.any_append, Bool.or_eq_true] at hv
    rw [accepts_any, List.any_append, List.any_cons, Bool.or_eq_true, Bool.or_eq_true]
    exact hv.imp id .inr
  | orRight w u => rw [accepts_or, hv, Bool.true_or]
  | orLeft w u => rw [accepts_or, hv, Bool.or_true]
  | dropMember before u after =>
    rw [accepts_all, List.all_append, List.all_cons, Bool.and_eq_true, Bool.and_eq_true] at hv
    rw [accepts_all, List.all_append, Bool.and_eq_true]
    exact ⟨hv.1, hv.2.2⟩
  | andLeft left right =>
    rw [accepts_and, Bool.and_eq_true] at hv
    exact hv.1
  | andRight left right =>
    rw [accepts_and, Bool.and_eq_true] at hv
    exact hv.2
  | optional w => rw [Validator.optional, accepts_or, hv, Bool.or_true]
  | nullable w => rw [Validator.nullable, accepts_or, hv, Bool.or_true]
  | dropKeys fields keep => exact looserThan_record_of_subset (List.filter_subset_self _) v hv
  | dropItems items n =>
    obtain ⟨hk, hitems⟩ := accepts_tuple_iff.1 hv
    refine accepts_tuple_iff.2 ⟨hk, fun i u hu => hitems i u ?_⟩
    rw [List.getElem?_take] at hu
    split at hu
    · exact hu
    · cases hu
  | reorder h => exact looserThan_record_of_subset h.symm.subset v hv

/-- Any number of edits, each on some part of a part. -/
inductive Loosened (w : Validator) : Validator → Prop where
  | refl : Loosened w w
  | edit {t s u : Validator} (occurrence : List Nat) : Loosened w t →
      t.part? occurrence = some s → Loosening s u → Loosened w (t.replaceAt occurrence u)

theorem Loosened.looserThan (h : w.Loosened u) : u.LooserThan w := by
  induction h with
  | refl => exact .refl w
  | edit occurrence _ hs hu ih => exact (looserThan_replaceAt hs hu.looserThan).trans ih

theorem Loosening.loosened (h : Loosening w u) : w.Loosened u :=
  .edit [] .refl rfl h

/-- Loosening never rejects what was accepted. Whatever edits are made of whatever parts, the result
accepts all that the validator accepted. No form negates: with looser parts in place of all of its
own, or of any part at any depth, a validator is looser. Of a schema that was made of pairs, leaving
out all pairs of some keys is such an edit, and so is giving its keys in another order, as long as
each has the same validator last. -/
structure Loosens : Prop where
  edited : ∀ w u : Validator, w.Loosened u → ∀ v, w.accepts v = true → u.accepts v = true
  parts_withParts : ∀ (w : Validator) (us : List Validator), us.length = w.parts.length →
    (w.withParts us).parts = us
  withParts : ∀ (w : Validator) (us : List Validator),
    List.Forall₂ (fun t u => ∀ v, t.accepts v = true → u.accepts v = true) w.parts us →
      ∀ v, w.accepts v = true → (w.withParts us).accepts v = true
  part?_replaceAt : ∀ (w s u : Validator) (occurrence : List Nat), w.part? occurrence = some s →
    (w.replaceAt occurrence u).part? occurrence = some u
  replaceAt : ∀ (w s u : Validator) (occurrence : List Nat), w.part? occurrence = some s →
    (∀ v, s.accepts v = true → u.accepts v = true) →
      ∀ v, w.accepts v = true → (w.replaceAt occurrence u).accepts v = true
  keys : ∀ (pairs : List (String × Validator)) (keep : String → Bool),
    (RecordSchema.ofPairs pairs).toValidator.Loosened
      (RecordSchema.ofPairs (pairs.filter fun p => keep p.1)).toValidator
  order : ∀ pairs others : List (String × Validator),
    (∀ key w, LastGiven pairs key w ↔ LastGiven others key w) →
      (RecordSchema.ofPairs pairs).toValidator.Loosened (RecordSchema.ofPairs others).toValidator

/-- **Loosening never rejects what was accepted.** -/
theorem accepts_of_loosened : Loosens where
  edited _ _ h := h.looserThan
  parts_withParts _ _ := parts_withParts
  withParts _ _ := looserThan_withParts
  part?_replaceAt _ _ _ _ := part?_replaceAt
  replaceAt _ _ _ _ := looserThan_replaceAt
  keys pairs keep := by
    rw [RecordSchema.toValidator_ofPairs, RecordSchema.toValidator_ofPairs, ofPairs_filter]
    exact (Loosening.dropKeys _ keep).loosened
  order _ _ h := (Loosening.reorder (ofPairs_perm_of_lastGiven h)).loosened

/-- A text that is also tested for something else, beside a field that must be `null`. -/
def tight : Validator := .record [("a", .all [.string, .stub "long" true]), ("b", .nil)]

/-- The same without the test, where the other field may be missing. -/
def eased : Validator := .record [("a", .all [.string]), ("b", optional .nil)]

theorem accepts_of_loosened_eased :
    tight.Loosened eased ∧
    tight.accepts (.object ⟨0⟩ [("b", .null), ("a", .string "x")]) = true ∧
    eased.accepts (.object ⟨0⟩ [("b", .null), ("a", .string "x")]) = true ∧
    tight.part? [0, 0] = some .string ∧
    (tight.replaceAt [0, 0] (nullable .string)).accepts
      (.object ⟨0⟩ [("b", .null), ("a", .string "x")]) = true := by
  have htext : tight.Loosened (.record [("a", .all [.string]), ("b", .nil)]) :=
    .edit [0] .refl rfl (.dropMember [.string] (.stub "long" true) [])
  have heased : tight.Loosened eased := .edit [1] htext rfl (.optional .nil)
  have haccepts : tight.accepts (.object ⟨0⟩ [("b", .null), ("a", .string "x")]) = true := rfl
  have hpart : tight.part? [0, 0] = some .string := rfl
  have hlooser : ∀ v, accepts .string v = true → accepts (nullable .string) v = true :=
    (Loosening.nullable .string).looserThan
  exact ⟨heased, haccepts, accepts_of_loosened.edited _ _ heased _ haccepts, hpart,
    accepts_of_loosened.replaceAt _ _ _ _ hpart hlooser _ haccepts⟩

end ShapeCheck.Validator
