import ShapeCheck.Proofs.Identity
import ShapeCheck.Proofs.Reach
/-!
# Structural equality as a relation

Structural equality is symmetric (`eqv_symm`) and transitive (`eqv_trans`). A value is equal to
itself unless it holds a `nan`, and then it is equal to nothing (`not_eqv_of_holdsNaN`). Equal
values are equal wherever a path leads (`eqv_reach`), and so they have one shape. Main theorem
`eqv_partial_equivalence`.
-/
namespace ShapeCheck

namespace Value

variable {a b c : Value}

/-! ## The laws -/

theorem eqv_symm (ha : a.WellKeyed) (hb : b.WellKeyed) (h : a.eqv b = true) : b.eqv a = true := by
  induction a using Value.parts_induction generalizing b with
  | h a ih =>
    cases eqvView h with
    | leaf _ hcb hs => rwa [eqv_eq_strictEq hcb, strictEq_comm]
    | @array s t xs ys h =>
      obtain ⟨hlen, h⟩ := eqv_array_iff.1 h
      refine eqv_array_iff.2 ⟨hlen.symm, fun i y x hy hx => ?_⟩
      have hmx : x ∈ (Value.array s xs).parts := List.mem_of_getElem? hx
      have hmy : y ∈ (Value.array t ys).parts := List.mem_of_getElem? hy
      exact ih x hmx (ha.part hmx) (hb.part hmy) (h i x y hx hy)
    | @object s t xs ys h =>
      refine eqv_object_iff.2 ⟨(eqv_object_iff.1 h).1.symm, fun e he => ?_⟩
      have hd : Entries.Distinct xs := ha.entries
      have hy : Entries.get? ys e.1 = some e.2 := (Entries.get?_eq_some_iff hb.entries).2 he
      have hrel := rel_get?_of_eqv hd h e.1
      rw [hy] at hrel
      generalize hx : Entries.get? xs e.1 = x at hrel
      cases hrel with
      | @some x _ hxy =>
        have hmx : x ∈ (Value.object s xs).parts :=
          List.mem_map.2 ⟨_, Entries.mem_of_get? hx, rfl⟩
        have hmy : e.2 ∈ (Value.object t ys).parts := List.mem_map_of_mem he
        exact ⟨x, rfl, ih x hmx (ha.part hmx) (hb.part hmy) hxy⟩

theorem eqv_trans (hab : a.eqv b = true) (hbc : b.eqv c = true) : a.eqv c = true := by
  induction a using Value.parts_induction generalizing b c with
  | h a ih =>
    cases eqvView hab with
    | leaf hca hcb hs =>
      rw [eqv_eq_strictEq hcb] at hbc
      rw [eqv_eq_strictEq hca, strictEq_congr hs, hbc]
    | @array _ _ xs ys hab =>
      cases eqvView hbc with
      | leaf hcb => cases hcb
      | @array _ _ _ zs hbc =>
        obtain ⟨hxy, hab⟩ := eqv_array_iff.1 hab
        obtain ⟨hyz, hbc⟩ := eqv_array_iff.1 hbc
        refine eqv_array_iff.2 ⟨hxy.trans hyz, fun i x z hx hz => ?_⟩
        have hi : i < ys.length := hxy ▸ (List.getElem?_eq_some_iff.1 hx).1
        have hy : ys[i]? = some ys[i] := List.getElem?_eq_getElem hi
        exact ih x (List.mem_of_getElem? hx) (hab i x _ hx hy) (hbc i _ z hy hz)
    | object hab =>
      cases eqvView hbc with
      | leaf hcb => cases hcb
      | object hbc =>
        obtain ⟨hxy, hab⟩ := eqv_object_iff.1 hab
        obtain ⟨hyz, hbc⟩ := eqv_object_iff.1 hbc
        refine eqv_object_iff.2 ⟨hxy.trans hyz, fun e he => ?_⟩
        obtain ⟨y, hy, hey⟩ := hab e he
        obtain ⟨z, hz, hyz⟩ := hbc _ (Entries.mem_of_get? hy)
        exact ⟨z, hz, ih e.2 (List.mem_map_of_mem he) hey hyz⟩

/-- What holds a `nan` is equal to nothing: there is no equal of the `nan` on the other side. -/
theorem not_eqv_of_holdsNaN (h : a.HoldsNaN) (b : Value) : ¬ a.eqv b = true := by
  induction h generalizing b with
  | @number x hx =>
    rw [eqv_eq_strictEq rfl]
    cases x with
    | nan => cases b <;> exact Bool.false_ne_true
    | _ => cases hx
  | array hx _ ih =>
    intro hab
    cases eqvView hab with
    | leaf hc => cases hc
    | @array _ _ _ ys hab =>
      obtain ⟨i, hi⟩ := List.mem_iff_getElem?.1 hx
      have hrel := rel_getElem?_of_eqv hab i
      rw [hi] at hrel
      generalize ys[i]? = y at hrel
      cases hrel with
      | some hxy => exact ih _ hxy
  | object hx _ ih =>
    intro hab
    cases eqvView hab with
    | leaf hc => cases hc
    | object hab =>
      obtain ⟨y, -, hxy⟩ := (eqv_object_iff.1 hab).2 _ hx
      exact ih y hxy

theorem eqv_self_iff (ha : a.WellKeyed) : a.eqv a = true ↔ ¬ a.HoldsNaN :=
  ⟨fun h hn => not_eqv_of_holdsNaN hn a h, eqv_self ha⟩

/-- A container is strictly equal to itself, whatever it holds. -/
theorem strictEq_self_of_isContainer (ha : a.isContainer = true) : a.strictEq a = true := by
  cases a with
  | array | object => simp [strictEq]
  | _ => cases ha

/-! ## Equal values at every depth -/

theorem rel_elements_of_eqv (h : a.eqv b = true) (index : Nat) :
    Option.Rel (fun x y => x.eqv y = true) a.elements[index]? b.elements[index]? := by
  cases eqvView h with
  | leaf ha hb =>
    rw [elements_of_isContainer_eq_false ha, elements_of_isContainer_eq_false hb]
    exact .none
  | array h => exact rel_getElem?_of_eqv h index
  | object => exact .none

theorem rel_entries_of_eqv (ha : a.WellKeyed) (h : a.eqv b = true) (key : String) :
    Option.Rel (fun x y => x.eqv y = true) (Entries.get? a.entries key)
      (Entries.get? b.entries key) := by
  cases eqvView h with
  | leaf ha hb =>
    rw [entries_of_isContainer_eq_false ha, entries_of_isContainer_eq_false hb]
    exact .none
  | array => exact .none
  | object h => exact rel_get?_of_eqv ha.entries h key

theorem eqv_getD {x y : Option Value} (h : Option.Rel (fun x y => x.eqv y = true) x y) :
    (x.getD .undefined).eqv (y.getD .undefined) = true := by
  cases h with
  | some h => exact h
  | none => rfl

theorem eqv_field (ha : a.WellKeyed) (h : a.eqv b = true) (key : String) :
    (a.field key).eqv (b.field key) = true := by
  rw [field_eq, field_eq]
  exact eqv_getD (rel_entries_of_eqv ha h key)

theorem eqv_item (h : a.eqv b = true) (index : Nat) :
    (a.item index).eqv (b.item index) = true := by
  rw [item_eq, item_eq]
  exact eqv_getD (rel_elements_of_eqv h index)

theorem eqv_reach (ha : a.WellKeyed) (h : a.eqv b = true) (path : List Access) :
    (a.reach path).eqv (b.reach path) = true := by
  induction path generalizing a b with
  | nil => exact h
  | cons access path ih =>
    cases access with
    | field key => exact ih (ha.field key) (eqv_field ha h key)
    | item index => exact ih (ha.item index) (eqv_item h index)

/-- Two values of one shape, as far as one sees without looking into their parts. -/
structure SameShape (a b : Value) : Prop where
  kind : a.kind = b.kind
  elements : a.elements.length = b.elements.length
  entries : a.entries.length = b.entries.length
  keys : ∀ key, key ∈ a.entries.keys ↔ key ∈ b.entries.keys

theorem length_eq_of_eqv (h : a.eqv b = true) :
    a.elements.length = b.elements.length ∧ a.entries.length = b.entries.length := by
  cases eqvView h with
  | leaf ha hb =>
    rw [elements_of_isContainer_eq_false ha, elements_of_isContainer_eq_false hb,
      entries_of_isContainer_eq_false ha, entries_of_isContainer_eq_false hb]
    exact ⟨rfl, rfl⟩
  | array h => exact ⟨(eqv_array_iff.1 h).1, rfl⟩
  | object h => exact ⟨rfl, (eqv_object_iff.1 h).1⟩

theorem sameShape_of_eqv (ha : a.WellKeyed) (h : a.eqv b = true) : SameShape a b where
  kind := kind_eq_of_eqv h
  elements := (length_eq_of_eqv h).1
  entries := (length_eq_of_eqv h).2
  keys key := by
    have hrel := rel_entries_of_eqv ha h key
    rw [← not_iff_not, ← Entries.get?_eq_none_iff, ← Entries.get?_eq_none_iff]
    generalize Entries.get? a.entries key = x at hrel ⊢
    generalize Entries.get? b.entries key = y at hrel ⊢
    cases hrel <;> simp

end Value

/-- Structural equality is a partial equivalence, and `nan` is all that it misses. Keys of objects
are distinct in all values of a program. So it is symmetric and transitive, and a value is equal to
itself exactly if it holds no `nan`, host objects not opened. Values that are strictly equal are
equal if they hold no `nan`; a container that holds one is strictly equal to its copy and equal to
nothing. Equal values are equal at every depth, and have the same kinds, lengths and keys there. To
give entries another order, at any depth of a value that holds no `nan`, leads to an equal value; to
give elements another order does only if those that come to stand at one index are equal. -/
structure PartialEquivalence : Prop where
  wellKeyed : ∀ (w : World) (v : Value), w.Reachable → w.Found v → v.WellKeyed
  symm : ∀ a b : Value, a.WellKeyed → b.WellKeyed → a.eqv b = true → b.eqv a = true
  trans : ∀ a b c : Value, a.eqv b = true → b.eqv c = true → a.eqv c = true
  self_iff : ∀ a : Value, a.WellKeyed → (a.eqv a = true ↔ ¬ a.HoldsNaN)
  strict : ∀ (w : World) (a b : Value), w.Reachable → w.Found a → w.Found b →
    a.strictEq b = true → ¬ a.HoldsNaN → a.eqv b = true
  nan : ∀ a : Value, a.isContainer = true → a.HoldsNaN →
    a.strictEq a = true ∧ ∀ b, a.eqv b = false
  reach : ∀ a b : Value, a.WellKeyed → a.eqv b = true → ∀ path,
    (a.reach path).eqv (b.reach path) = true ∧ (a.reach path).SameShape (b.reach path)
  rearranged : ∀ a b : Value, a.WellKeyed → ¬ a.HoldsNaN → a.Rearranged b → a.eqv b = true
  perm_iff : ∀ (s t : Tag) (xs ys : List Value), xs.Perm ys →
    ((Value.array s xs).eqv (.array t ys) = true ↔
      ∀ (i : Nat) (x y : Value), xs[i]? = some x → ys[i]? = some y → x.eqv y = true)

open World in
/-- **Structural equality is a partial equivalence, and `nan` is all that it misses.** -/
theorem eqv_partial_equivalence : PartialEquivalence where
  wellKeyed _ _ := wellKeyed_of_found
  symm _ _ := Value.eqv_symm
  trans _ _ _ := Value.eqv_trans
  self_iff _ := Value.eqv_self_iff
  strict w a b h ha hb hab hn := by
    cases ht : a.identity? with
    | some tag =>
      obtain rfl := (recorded_of_found h ha).eq_of_strictEq (recorded_of_found h hb) ht hab
      exact Value.eqv_self (wellKeyed_of_found h ha) hn
    | none =>
      have hc : a.isContainer = false := by cases a <;> first | rfl | cases ht
      rwa [Value.eqv_eq_strictEq hc]
  nan a ha hn := by
    refine ⟨Value.strictEq_self_of_isContainer ha, fun b => ?_⟩
    exact Bool.eq_false_iff.2 (Value.not_eqv_of_holdsNaN hn b)
  reach a b ha hab path := by
    have hreach := Value.eqv_reach ha hab path
    exact ⟨hreach, Value.sameShape_of_eqv (ha.reach path) hreach⟩
  rearranged _ _ ha hn hab := Value.eqv_of_rearranged hab ha hn
  perm_iff s t xs ys hp := by
    rw [Value.eqv_array_iff]
    exact and_iff_right hp.length_eq

namespace Value

/-- Two entries. -/
def sized : Value := .object ⟨0⟩ [("size", .zero false), ("next", .null)]

/-- The same turned round, with minus zero. -/
def resized : Value := .object ⟨1⟩ [("next", .null), ("size", .zero true)]

/-- An array that is not equal to itself. -/
def unsized : Value := .array ⟨2⟩ [.number .nan]

theorem wellKeyed_sized : sized.WellKeyed ∧ resized.WellKeyed := by
  have hsized : ["size", "next"].Nodup := by decide
  have hresized : ["next", "size"].Nodup := by decide
  have hsize (negative : Bool) : (zero negative).WellKeyed := wellKeyed_of_parts_eq_nil rfl
  have hnext : null.WellKeyed := wellKeyed_of_parts_eq_nil rfl
  exact ⟨wellKeyed_object_iff.2 ⟨hsized, List.forall_mem_cons.2
      ⟨hsize false, List.forall_mem_singleton.2 hnext⟩⟩,
    wellKeyed_object_iff.2 ⟨hresized, List.forall_mem_cons.2
      ⟨hnext, List.forall_mem_singleton.2 (hsize true)⟩⟩⟩

theorem eqv_partial_equivalence_sized :
    sized.WellKeyed ∧ resized.WellKeyed ∧ sized.eqv resized = true ∧ resized.eqv sized = true ∧
    sized.eqv sized = true ∧ (sized.field "size").eqv (resized.field "size") = true ∧
    (unsized.HoldsNaN ∧ unsized.strictEq unsized = true ∧ ∀ b, unsized.eqv b = false) ∧
    World.Reachable World.twins ∧ (Value.array ⟨0⟩ []).eqv (.array ⟨0⟩ []) = true := by
  obtain ⟨hsized, hresized⟩ := wellKeyed_sized
  have heqv : sized.eqv resized = true := eqv_object_iff.2 ⟨rfl, List.forall_mem_cons.2
    ⟨⟨.zero true, rfl, rfl⟩, List.forall_mem_singleton.2 ⟨.null, rfl, rfl⟩⟩⟩
  have hback : resized.eqv sized = true :=
    eqv_partial_equivalence.symm _ _ hsized hresized heqv
  have hnan : unsized.HoldsNaN := .array List.mem_cons_self (.number rfl)
  have hfound : World.twins.Found (.array ⟨0⟩ []) :=
    ⟨_, by simp [World.twins, World.hold], .refl _⟩
  have hnone : ¬ (Value.array ⟨0⟩ []).HoldsNaN := by
    rintro (_ | ⟨h, -⟩)
    exact absurd h List.not_mem_nil
  exact ⟨hsized, hresized, heqv, hback, eqv_partial_equivalence.trans _ _ _ heqv hback,
    (eqv_partial_equivalence.reach _ _ hsized heqv [.field "size"]).1,
    ⟨hnan, eqv_partial_equivalence.nan _ rfl hnan⟩, World.reachable_twins,
    eqv_partial_equivalence.strict _ _ _ World.reachable_twins hfound hfound rfl hnone⟩

end Value

end ShapeCheck
