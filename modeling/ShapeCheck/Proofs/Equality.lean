import ShapeCheck.Proofs.Lookup
import ShapeCheck.Proofs.Parts
/-!
# Structural equality

Structural equality one level deep: arrays have equal elements at each place (`eqv_array_iff`),
objects equal values at each key (`eqv_object_iff`, `rel_get?_of_eqv`), and all else is strictly
equal. A value that holds no `nan` is equal to each of its rearrangements (`eqv_of_rearranged`).
-/
namespace ShapeCheck

namespace Binary

variable {f : Format} {x y : Binary f}

/-- Numbers that are equal compare alike with every number. -/
theorem numEq_congr (h : x.numEq y = true) (z : Binary f) : x.numEq z = y.numEq z := by
  cases x with
  | nan => cases h
  | infinity s =>
    cases y with
    | infinity t => rw [eq_of_beq h]
    | _ => cases h
  | finite s a =>
    cases y with
    | finite t b =>
      obtain ⟨hab, hst⟩ := Bool.and_eq_true_iff.1 h
      cases eq_of_beq hab
      rcases Bool.or_eq_true_iff.1 hst with hst | ha
      · rw [eq_of_beq hst]
      · cases z <;> simp [numEq, ha]
    | _ => cases h

theorem numEq_comm (x y : Binary f) : x.numEq y = y.numEq x := by
  cases x with
  | nan => cases y <;> rfl
  | infinity s => cases y <;> simp [numEq, Bool.beq_comm]
  | finite s a =>
    cases y with
    | finite t b =>
      by_cases hab : a = b
      · subst hab
        simp [numEq, Bool.beq_comm]
      · rw [numEq, numEq, beq_false_of_ne hab, beq_false_of_ne (Ne.symm hab)]
        rfl
    | _ => rfl

/-- A number is equal to itself, unless it is `nan`. -/
theorem numEq_self (h : x.isNaN = false) : x.numEq x = true := by
  cases x with
  | nan => cases h
  | infinity s => simp [numEq]
  | finite s a => simp [numEq]

end Binary

namespace Value

/-- Values that are strictly equal compare alike with every value. -/
theorem strictEq_congr {a b : Value} (h : a.strictEq b = true) (c : Value) :
    a.strictEq c = b.strictEq c := by
  cases a <;> cases b <;> first | cases h | skip
  case undefined | null => rfl
  case number x y => cases c <;> simp [strictEq, Binary.numEq_congr h]
  all_goals
    have h := eq_of_beq h
    cases c <;> simp [strictEq, Host.same, h]

theorem strictEq_comm (a b : Value) : a.strictEq b = b.strictEq a := by
  cases a <;> cases b <;> first | rfl | simp [strictEq, Host.same, Bool.beq_comm]
  exact Binary.numEq_comm _ _

/-- The two zeros: equal, but not the same. -/
def zero (negative : Bool) : Value := .number (.finite negative ⟨0, by decide⟩)

/-! ## One level -/

/-- An array or an object. -/
def isContainer : Value → Bool
  | .array _ _ | .object _ _ => true
  | _ => false

theorem eqvElements_iff {xs ys : List Value} : eqvElements xs ys = true ↔
    xs.length = ys.length ∧
      ∀ (i : Nat) (x y : Value), xs[i]? = some x → ys[i]? = some y → x.eqv y = true := by
  induction xs generalizing ys with
  | nil => cases ys <;> simp [eqvElements]
  | cons x xs ih =>
    cases ys with
    | nil => simp [eqvElements]
    | cons y ys =>
      rw [eqvElements, Bool.and_eq_true, ih, List.length_cons, List.length_cons]
      constructor
      · rintro ⟨hxy, hlen, h⟩
        refine ⟨by omega, fun i u v hu hv => ?_⟩
        cases i with
        | zero => cases hu; cases hv; exact hxy
        | succ i => exact h i u v hu hv
      · rintro ⟨hlen, h⟩
        exact ⟨h 0 x y rfl rfl, by omega, fun i => h (i + 1)⟩

theorem eqvEntries_iff {xs ys : Entries Value} : eqvEntries xs (Entries.index ys) = true ↔
    ∀ e ∈ xs, ∃ y, Entries.get? ys e.1 = some y ∧ e.2.eqv y = true := by
  induction xs with
  | nil => simp [eqvEntries]
  | cons e xs ih =>
    obtain ⟨key, x⟩ := e
    rw [eqvEntries, Bool.and_eq_true, ih, List.forall_mem_cons, Entries.getElem?_index]
    cases Entries.get? ys key <;> simp

theorem eqv_array_iff {s t : Tag} {xs ys : List Value} :
    (Value.array s xs).eqv (.array t ys) = true ↔ xs.length = ys.length ∧
      ∀ (i : Nat) (x y : Value), xs[i]? = some x → ys[i]? = some y → x.eqv y = true := by
  rw [eqv, eqvElements_iff]

theorem eqv_object_iff {s t : Tag} {xs ys : Entries Value} :
    (Value.object s xs).eqv (.object t ys) = true ↔ xs.length = ys.length ∧
      ∀ e ∈ xs, ∃ y, Entries.get? ys e.1 = some y ∧ e.2.eqv y = true := by
  rw [eqv, Bool.and_eq_true, beq_iff_eq, eqvEntries_iff]

/-- Equal arrays have equal elements at each index, or both none. -/
theorem rel_getElem?_of_eqv {s t : Tag} {xs ys : List Value}
    (h : (Value.array s xs).eqv (.array t ys) = true) (i : Nat) :
    Option.Rel (fun x y => x.eqv y = true) xs[i]? ys[i]? := by
  obtain ⟨hlen, h⟩ := eqv_array_iff.1 h
  cases hx : xs[i]? with
  | none =>
    have hy : ys[i]? = none := by
      rw [List.getElem?_eq_none_iff] at hx ⊢
      omega
    rw [hy]
    exact .none
  | some x =>
    have hi : i < ys.length := hlen ▸ (List.getElem?_eq_some_iff.1 hx).1
    have hy : ys[i]? = some ys[i] := List.getElem?_eq_getElem hi
    rw [hy]
    exact .some (h i x _ hx hy)

/-- Equal objects have equal values at each key, or both none: the second has every key of the
first, and no other, since it has as many. -/
theorem rel_get?_of_eqv {s t : Tag} {xs ys : Entries Value} (hd : xs.Distinct)
    (h : (Value.object s xs).eqv (.object t ys) = true) (key : String) :
    Option.Rel (fun x y => x.eqv y = true) (Entries.get? xs key) (Entries.get? ys key) := by
  obtain ⟨hlen, h⟩ := eqv_object_iff.1 h
  cases hx : Entries.get? xs key with
  | none =>
    have hsub : ∀ k ∈ xs.keys, k ∈ ys.keys := by
      intro k hk
      obtain ⟨x, hx⟩ := Entries.exists_get?_of_mem_keys hk
      obtain ⟨y, hy, -⟩ := h _ (Entries.mem_of_get? hx)
      exact Entries.mem_keys_of_mem (Entries.mem_of_get? hy)
    have hy : Entries.get? ys key = none := by
      rw [Entries.get?_eq_none_iff] at hx ⊢
      intro hk
      exact hx (Entries.mem_keys_of_length_eq hd hlen hsub hk)
    rw [hy]
    exact .none
  | some x =>
    obtain ⟨y, hy, hxy⟩ := h _ (Entries.mem_of_get? hx)
    rw [hy]
    exact .some hxy

/-- What is no container is compared strictly. -/
theorem eqv_eq_strictEq {a : Value} (h : a.isContainer = false) (b : Value) :
    a.eqv b = a.strictEq b := by
  cases a with
  | array | object => cases h
  | _ => cases b <;> rfl

theorem kind_eq_of_eqv {a b : Value} (h : a.eqv b = true) : a.kind = b.kind := by
  cases a <;> cases b <;> first | rfl | cases h

theorem isContainer_eq_of_eqv {a b : Value} (h : a.eqv b = true) :
    a.isContainer = b.isContainer := by
  cases a <;> cases b <;> first | rfl | cases h

/-- The pairs of values that can be equal: two containers of one kind, or none. -/
inductive EqvView : Value → Value → Prop where
  | leaf {a b : Value} (ha : a.isContainer = false) (hb : b.isContainer = false)
      (h : a.strictEq b = true) : EqvView a b
  | array {s t : Tag} {xs ys : List Value} (h : (Value.array s xs).eqv (.array t ys) = true) :
      EqvView (.array s xs) (.array t ys)
  | object {s t : Tag} {xs ys : Entries Value}
      (h : (Value.object s xs).eqv (.object t ys) = true) : EqvView (.object s xs) (.object t ys)

theorem eqvView {a b : Value} (h : a.eqv b = true) : EqvView a b := by
  have hk := kind_eq_of_eqv h
  cases ha : a.isContainer with
  | false => exact .leaf ha (isContainer_eq_of_eqv h ▸ ha) (eqv_eq_strictEq ha b ▸ h)
  | true =>
    cases a with
    | array => cases b <;> first | exact .array h | cases hk
    | object => cases b <;> first | exact .object h | cases hk
    | _ => cases ha

/-- A container is strictly equal only to containers. -/
theorem isContainer_of_strictEq {a b : Value} (h : a.strictEq b = true)
    (ha : a.isContainer = true) : b.isContainer = true := by
  cases a with
  | array | object => cases b <;> first | rfl | cases h
  | _ => cases ha

/-- Equal values compare alike with every value that is no container. -/
theorem strictEq_eq_of_eqv {a b : Value} (h : a.eqv b = true) {c : Value}
    (hc : c.isContainer = false) : a.strictEq c = b.strictEq c := by
  cases ha : a.isContainer with
  | false => exact strictEq_congr (eqv_eq_strictEq ha b ▸ h) c
  | true =>
    have hb : b.isContainer = true := isContainer_eq_of_eqv h ▸ ha
    have reject : ∀ v : Value, v.isContainer = true → v.strictEq c = false := by
      intro v hv
      rw [Bool.eq_false_iff]
      intro hvc
      have hcc : c.isContainer = true := isContainer_of_strictEq hvc hv
      rw [hc] at hcc
      cases hcc
    rw [reject a ha, reject b hb]

/-! ## Rearrangements -/

/-- At every depth the keys of objects are distinct. -/
def WellKeyed (v : Value) : Prop :=
  ∀ (tag : Tag) (entries : Entries Value), (Value.object tag entries).Within v → entries.Distinct

theorem WellKeyed.part {u v : Value} (h : v.WellKeyed) (hu : u ∈ v.parts) : u.WellKeyed := by
  intro tag entries hw
  exact h tag entries (.part hu hw)

theorem wellKeyed_iff {v : Value} : v.WellKeyed ↔
    (∀ (tag : Tag) (entries : Entries Value), v = .object tag entries → entries.Distinct) ∧
      ∀ u ∈ v.parts, u.WellKeyed := by
  constructor
  · intro h
    exact ⟨fun tag entries hv => h tag entries (hv ▸ .refl v), fun u hu => h.part hu⟩
  · rintro ⟨hv, hp⟩ tag entries hw
    rcases within_iff.1 hw with hw | ⟨u, hu, hw⟩
    · exact hv tag entries hw.symm
    · exact hp u hu tag entries hw

theorem wellKeyed_array_iff {tag : Tag} {elements : List Value} :
    (array tag elements).WellKeyed ↔ ∀ u ∈ elements, u.WellKeyed :=
  wellKeyed_iff.trans (and_iff_right nofun)

theorem wellKeyed_object_iff {tag : Tag} {entries : Entries Value} :
    (object tag entries).WellKeyed ↔
      entries.Distinct ∧ ∀ u ∈ entries.map Prod.snd, u.WellKeyed := by
  refine wellKeyed_iff.trans (and_congr_left fun _ => ⟨fun h => h tag entries rfl, ?_⟩)
  rintro hd tag' entries' ⟨⟩
  exact hd

/-- What holds nothing is well keyed. -/
theorem wellKeyed_of_parts_eq_nil {v : Value} (hp : v.parts = []) : v.WellKeyed := by
  refine wellKeyed_iff.2 ⟨?_, fun u hu => absurd (hp ▸ hu) List.not_mem_nil⟩
  rintro tag entries rfl
  rw [List.map_eq_nil_iff.1 hp]
  exact List.nodup_nil

/-- A `nan` is found without opening host objects. -/
inductive HoldsNaN : Value → Prop where
  | number {x : Double} : x.isNaN = true → HoldsNaN (.number x)
  | array {tag : Tag} {elements : List Value} {v : Value} : v ∈ elements → HoldsNaN v →
      HoldsNaN (.array tag elements)
  | object {tag : Tag} {entries : Entries Value} {key : String} {v : Value} :
      (key, v) ∈ entries → HoldsNaN v → HoldsNaN (.object tag entries)

/-- Arrays and objects are made anew at any depth, with any identities, and entries change places.
Host objects stay the ones they are. -/
inductive Rearranged : Value → Value → Prop where
  | refl (v : Value) : Rearranged v v
  | array {s t : Tag} {xs ys : List Value} : xs.length = ys.length →
      (∀ (i : Nat) (x y : Value), xs[i]? = some x → ys[i]? = some y → Rearranged x y) →
      Rearranged (.array s xs) (.array t ys)
  | object {s t : Tag} {xs ys : Entries Value} : xs.keys.Perm ys.keys →
      (∀ (key : String) (x y : Value), (key, x) ∈ xs → (key, y) ∈ ys → Rearranged x y) →
      Rearranged (.object s xs) (.object t ys)

/-- The same entries in another order. -/
theorem Rearranged.of_perm {xs ys : Entries Value} (hd : xs.Distinct) (h : xs.Perm ys)
    (s t : Tag) : Rearranged (.object s xs) (.object t ys) := by
  refine .object (h.map Prod.fst) fun key x y hx hy => ?_
  have hgx := (Entries.get?_eq_some_iff hd).2 hx
  have hgy := (Entries.get?_eq_some_iff hd).2 (h.mem_iff.2 hy)
  obtain rfl := Option.some.inj (hgx.symm.trans hgy)
  exact .refl x

/-- A value is equal to itself, unless it holds a `nan`. -/
theorem eqv_self {v : Value} (hk : v.WellKeyed) (hn : ¬ v.HoldsNaN) : v.eqv v = true := by
  induction v using Value.parts_induction with
  | h v ih =>
    cases v with
    | number x =>
      have hx : x.isNaN = false := Bool.eq_false_iff.2 fun hx => hn (.number hx)
      exact (eqv_eq_strictEq rfl _).trans (Binary.numEq_self hx)
    | array tag elements =>
      rw [eqv_array_iff]
      refine ⟨rfl, fun i x y hx hy => ?_⟩
      obtain rfl : x = y := Option.some.inj (hx.symm.trans hy)
      have hm : x ∈ elements := List.mem_of_getElem? hx
      have hnx : ¬ x.HoldsNaN := fun h => hn (.array hm h)
      exact ih x hm (hk.part hm) hnx
    | object tag entries =>
      rw [eqv_object_iff]
      refine ⟨rfl, fun e he => ?_⟩
      have hd : Entries.Distinct entries := hk _ _ (.refl _)
      have hm : e.2 ∈ (Value.object tag entries).parts := List.mem_map_of_mem he
      have hne : ¬ e.2.HoldsNaN := fun h => hn (.object he h)
      exact ⟨e.2, (Entries.get?_eq_some_iff hd).2 he, ih e.2 hm (hk.part hm) hne⟩
    | _ => rw [eqv_eq_strictEq rfl]; simp [strictEq, Host.same]

/-- **A rearrangement is equal to the value**, unless the value holds a `nan`. -/
theorem eqv_of_rearranged {a b : Value} (h : a.Rearranged b) (hk : a.WellKeyed)
    (hn : ¬ a.HoldsNaN) : a.eqv b = true := by
  induction h with
  | refl v => exact eqv_self hk hn
  | @array s t xs ys hlen _ ih =>
    rw [eqv_array_iff]
    refine ⟨hlen, fun i x y hx hy => ?_⟩
    have hm : x ∈ xs := List.mem_of_getElem? hx
    have hnx : ¬ x.HoldsNaN := fun h => hn (.array hm h)
    exact ih i x y hx hy (hk.part hm) hnx
  | @object s t xs ys hkeys _ ih =>
    rw [eqv_object_iff]
    constructor
    · simpa [Entries.keys] using hkeys.length_eq
    · intro e he
      have hm : e.2 ∈ (Value.object s xs).parts := List.mem_map_of_mem he
      have hkey : e.1 ∈ ys.keys := hkeys.mem_iff.1 (Entries.mem_keys_of_mem he)
      obtain ⟨y, hy⟩ := Entries.exists_get?_of_mem_keys hkey
      have hne : ¬ e.2.HoldsNaN := fun h => hn (.object he h)
      exact ⟨y, hy, ih e.1 e.2 y he (Entries.mem_of_get? hy) (hk.part hm) hne⟩

end Value

end ShapeCheck
