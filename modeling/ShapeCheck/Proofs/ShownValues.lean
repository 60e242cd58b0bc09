import ShapeCheck.Proofs.Legible
import ShapeCheck.Proofs.Meaning
import ShapeCheck.Proofs.NumberText
import ShapeCheck.Proofs.Parts
import ShapeCheck.Value.Shown
/-!
# Shown values are told apart

Main theorem `shown_unambiguous`: two values are shown alike exactly if they are the same tree
(`Value.SameTree`), and this holds of values in front of any other text too. The proof goes from the
parts of a value to the value: the title shows its kind, and what is in brackets is legible since
the parts are. Numbers are told apart by their bits, so zero and minus zero are; identities and
payloads are not shown.
-/
namespace ShapeCheck.Value

open Text

/-! ## Equal trees -/

mutual

/-- The same tree: the same kind at every node, equal content, numbers by their bits or both `nan`,
which has none, the same elements and entries in order, and host objects of types with one name. -/
def SameTree : Value → Value → Prop
  | .undefined, .undefined => True
  | .null, .null => True
  | .bool a, .bool b => a = b
  | .number x, .number y => x.bits? = y.bits?
  | .string s, .string t => s = t
  | .array _ vs, .array _ ws => SameElements vs ws
  | .object _ es, .object _ fs => SameEntries es fs
  | .host g, .host h => g.type.name = h.type.name
  | _, _ => False

def SameElements : List Value → List Value → Prop
  | [], [] => True
  | v :: vs, w :: ws => SameTree v w ∧ SameElements vs ws
  | _, _ => False

def SameEntries : List (String × Value) → List (String × Value) → Prop
  | [], [] => True
  | (key, v) :: es, (key', w) :: fs => (key = key' ∧ SameTree v w) ∧ SameEntries es fs
  | _, _ => False

end

theorem sameElements_iff {vs ws : List Value} :
    SameElements vs ws ↔ List.Forall₂ SameTree vs ws := by
  induction vs generalizing ws with
  | nil => cases ws <;> simp [SameElements]
  | cons v vs ih => cases ws <;> simp [SameElements, ih]

theorem sameEntries_iff {es fs : List (String × Value)} :
    SameEntries es fs ↔ List.Forall₂ (fun e f => e.1 = f.1 ∧ e.2.SameTree f.2) es fs := by
  induction es generalizing fs with
  | nil => cases fs <;> simp [SameEntries]
  | cons e es ih => cases fs <;> simp [SameEntries, ih]

theorem shownElements_eq_map (vs : List Value) : shownElements vs = vs.map shown := by
  induction vs with
  | nil => rfl
  | cons v vs ih => rw [shownElements, ih, List.map_cons]

theorem shownEntries_eq_map (es : List (String × Value)) :
    shownEntries es = es.map fun e => (e.1, e.2.shown) := by
  induction es with
  | nil => rfl
  | cons e es ih => rw [shownEntries, ih, List.map_cons]

theorem shown_array (tag : Tag) (vs : List Value) :
    (array tag vs).shown = applied Kind.array.title (bracketed (vs.map shown)) := by
  rw [shown, shownElements_eq_map]

theorem shown_object (tag : Tag) (es : List (String × Value)) :
    (object tag es).shown =
      applied Kind.object.title (braced (es.map fun e => (e.1, e.2.shown))) := by
  rw [shown, shownEntries_eq_map]

/-! ## Reading a shown value -/

/-- The title shows the kind, whatever is behind it. -/
theorem legible_title (k : Kind) : Legible (fun l : Kind => l.title.toList) Eq k := by
  intro l rest others h
  cases k <;> cases l <;> simp_all [Kind.title]

theorem exists_shown_eq (v : Value) : ∃ body, v.shown.toList = v.kind.title.toList ++ body := by
  cases v <;> simp [shown, kind, applied]

theorem kind_eq_of_shown {v w : Value} {rest others : List Char}
    (h : v.shown.toList ++ rest = w.shown.toList ++ others) : v.kind = w.kind := by
  obtain ⟨body, hv⟩ := exists_shown_eq v
  obtain ⟨body', hw⟩ := exists_shown_eq w
  rw [hv, hw, List.append_assoc, List.append_assoc] at h
  exact (legible_title v.kind w.kind _ _ h).1

theorem opensApart_shown : OpensApart (fun v : Value => v.shown.toList) ']' := by
  intro v
  cases v <;> simp [shown, applied, Kind.title]

theorem legible_bool (b : Bool) :
    Legible (fun a : Bool => (if a then "true" else "false").toList ++ [')']) Eq b := by
  refine legible_closed (fun a => ?_) fun a h => ?_
  · cases a <;> decide
  · revert h
    cases a <;> cases b <;> decide

/-- No number is shown with a closing bracket. -/
theorem not_mem_literal (x : Double) : ')' ∉ x.literal.toList := by
  intro h
  rw [Binary.literal, String.toList_ofList] at h
  have hmark : ')' ∉ Binary.marks := by decide
  exact (Binary.mem_write h).elim (by decide) hmark

theorem legible_literal (x : Double) :
    Legible (fun y : Double => y.literal.toList ++ [')']) (fun x y => x.bits? = y.bits?) x :=
  legible_closed not_mem_literal fun _ h =>
    congrArg Binary.bits? (Binary.literal_injective (by decide) (String.toList_inj.1 h))

/-- A host object shows the name of its type. -/
theorem legible_showHost (g : Host) : Legible (fun h => (showHost h).toList)
    (fun g h => g.type.name = h.type.name) g := by
  have hname := ((legible_quote g.type.name).closed [')']).applied Kind.host.title
  exact hname.of_part (f := fun h : Host => h.type.name) (fun _ => rfl) fun _ => id

/-- **A shown value shows which tree it is, and where it ends.** -/
theorem legible_shown (v : Value) : Legible (fun w : Value => w.shown.toList) SameTree v := by
  induction v using parts_induction with
  | h v ih =>
    intro w rest others heq
    have hkind := kind_eq_of_shown heq
    cases v with
    | undefined =>
      cases w with
      | undefined => exact ⟨trivial, List.append_cancel_left heq⟩
      | _ => cases hkind
    | null =>
      cases w with
      | null => exact ⟨trivial, List.append_cancel_left heq⟩
      | _ => cases hkind
    | bool b =>
      cases w with
      | bool a => exact (legible_bool b).applied _ a rest others heq
      | _ => cases hkind
    | number x =>
      cases w with
      | number y => exact (legible_literal x).applied _ y rest others heq
      | _ => cases hkind
    | string s =>
      cases w with
      | string t => exact ((legible_quote s).closed [')']).applied _ t rest others heq
      | _ => cases hkind
    | array tag vs =>
      cases w with
      | array tag' ws =>
        have hlist := ((legible_bracketed opensApart_shown ih).closed [')']).applied
          Kind.array.title
        simp only [shown_array] at heq
        exact (hlist ws rest others heq).imp_left sameElements_iff.2
      | _ => cases hkind
    | object tag es =>
      cases w with
      | object tag' fs =>
        have hparts : ∀ e ∈ es, Legible (fun w : Value => w.shown.toList) SameTree e.2 :=
          fun e he => ih e.2 (List.mem_map_of_mem he)
        have htable := ((legible_braced hparts).closed [')']).applied Kind.object.title
        simp only [shown_object] at heq
        exact (htable fs rest others heq).imp_left sameEntries_iff.2
      | _ => cases hkind
    | host g =>
      cases w with
      | host h => exact ((legible_showHost g).closed [')']).applied _ h rest others heq
      | _ => cases hkind

/-! ## Showing equal trees -/

theorem map_eq_of_forall₂ {α β : Type} {R : α → α → Prop} {f : α → β} {as bs : List α}
    (h : List.Forall₂ R as bs) (hf : ∀ a ∈ as, ∀ b, R a b → f a = f b) : as.map f = bs.map f := by
  induction h with
  | nil => rfl
  | cons hab _ ih =>
    obtain ⟨ha, has⟩ := List.forall_mem_cons.1 hf
    rw [List.map_cons, List.map_cons, ha _ hab, ih has]

/-- **Equal trees are shown alike.** -/
theorem SameTree.shown_eq {v w : Value} (h : v.SameTree w) : v.shown = w.shown := by
  induction v using parts_induction generalizing w with
  | h v ih =>
    cases v with
    | array tag vs =>
      cases w with
      | array tag' ws =>
        have hmap := map_eq_of_forall₂ (sameElements_iff.1 h) fun v hv w hvw => ih v hv hvw
        rw [shown_array, shown_array, hmap]
      | _ => cases h
    | object tag es =>
      cases w with
      | object tag' fs =>
        have hmap := map_eq_of_forall₂ (f := fun e : String × Value => (e.1, e.2.shown))
          (sameEntries_iff.1 h) fun e he f hef =>
            Prod.ext hef.1 (ih e.2 (List.mem_map_of_mem he) hef.2)
        rw [shown_object, shown_object, hmap]
      | _ => cases h
    | undefined =>
      cases w with
      | undefined => rfl
      | _ => cases h
    | null =>
      cases w with
      | null => rfl
      | _ => cases h
    | bool b =>
      cases w with
      | bool a => exact congrArg (fun b => (bool b).shown) h
      | _ => cases h
    | number x =>
      cases w with
      | number y => exact congrArg (fun x => (number x).shown) (Binary.bits?_injective h)
      | _ => cases h
    | string s =>
      cases w with
      | string t => exact congrArg (fun s => (string s).shown) h
      | _ => cases h
    | host g =>
      cases w with
      | host h' =>
        show applied Kind.host.title (applied Kind.host.title (quote g.type.name)) = _
        rw [show g.type.name = h'.type.name from h]
        rfl
      | _ => cases h

mutual

/-- Identities do not show. -/
theorem sameTree_untagged : ∀ v : Value, v.untagged.SameTree v
  | .undefined | .null => trivial
  | .bool _ | .number _ | .string _ | .host _ => rfl
  | .array _ vs => sameElements_untagged vs
  | .object _ es => sameEntries_untagged es

theorem sameElements_untagged : ∀ vs : List Value, SameElements (untaggedElements vs) vs
  | [] => trivial
  | v :: vs => ⟨sameTree_untagged v, sameElements_untagged vs⟩

theorem sameEntries_untagged : ∀ es : List (String × Value), SameEntries (untaggedEntries es) es
  | [] => trivial
  | (_, v) :: es => ⟨⟨rfl, sameTree_untagged v⟩, sameEntries_untagged es⟩

end

/-- The text of a value is unambiguous. Two values are shown alike exactly if they are the same
tree, and even in front of other texts they have to be, so no content of a string or a key makes a
value look like another. Zero and minus zero are shown differently. Neither identities nor payloads
show, and of the type of a host object only the name does. -/
structure Unambiguous : Prop where
  shown_iff : ∀ v w : Value, v.shown = w.shown ↔ v.SameTree w
  append_iff : ∀ (v w : Value) (rest others : String),
    v.shown ++ rest = w.shown ++ others ↔ v.SameTree w ∧ rest = others
  zeros : (number (.ofCode false 0)).shown ≠ (number (.ofCode true 0)).shown
  untagged : ∀ v : Value, v.untagged.shown = v.shown
  host : ∀ (tag tag' : Tag) (type type' : HostType) (payload payload' : Payload),
    type.name = type'.name →
      (Value.host (.mk tag type payload)).shown = (Value.host (.mk tag' type' payload')).shown

theorem shown_eq_iff {v w : Value} : v.shown = w.shown ↔ v.SameTree w :=
  ⟨fun h => (legible_shown v w [] [] (by simp only [h])).1, SameTree.shown_eq⟩

/-- **The text of a value is unambiguous.** -/
theorem shown_unambiguous : Unambiguous where
  shown_iff _ _ := shown_eq_iff
  append_iff v w rest others := by
    constructor
    · intro h
      have hchars := congrArg String.toList h
      rw [String.toList_append, String.toList_append] at hchars
      exact (legible_shown v w _ _ hchars).imp_right String.toList_inj.1
    · rintro ⟨h, rfl⟩
      rw [h.shown_eq]
  zeros := by
    rw [ne_eq, shown_eq_iff]
    exact fun h => absurd (Binary.bits?_injective h) (by decide)
  untagged v := (sameTree_untagged v).shown_eq
  host _ _ _ _ _ _ h := shown_eq_iff.2 h

/-- Two types may share a name, and then their host objects look alike. -/
theorem shown_unambiguous_namesakes :
    (⟨0, "Port"⟩ : HostType) ≠ ⟨1, "Port"⟩ ∧
    (Value.host (.mk ⟨0⟩ ⟨0, "Port"⟩ .unit)).shown =
      (Value.host (.mk ⟨1⟩ ⟨1, "Port"⟩ .unit)).shown :=
  ⟨by decide, shown_unambiguous.host _ _ _ _ _ _ rfl⟩

example : (array ⟨0⟩ [.string "a\"), Null", .null]).shown =
    "Array([String(\"a\\\"), Null\"), Null])" := by decide +kernel

end ShapeCheck.Value
