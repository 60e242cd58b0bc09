import ShapeCheck.Json.Route
import ShapeCheck.Proofs.Lookup
import ShapeCheck.Proofs.Refusal
/-!
# Routes from JSON to values

A tree is converted to a value, or it is spelled out as a data source that is read. Main theorem
`routes_agree`: the value is the same, and so it is for a text, whether it is made a tree first or
not. A tree that repeats keys is read to the value of the tree that has them once.
-/
namespace ShapeCheck

namespace JsonNumber

/-- No number is left to the fallback. -/
theorem double?_isSome (n : JsonNumber) : n.double?.isSome := by
  cases n <;> rfl

theorem toDouble_unsigned (n : UInt64) : (unsigned n).toDouble = (Word.uint64 n).toDouble := by
  rw [toDouble, double?, Option.getD_some, Word.toDouble, Word.toInt]

theorem toDouble_negative (n : Int64) : (negative n).toDouble = (Word.int64 n).toDouble := by
  rw [toDouble, double?, Option.getD_some, Word.toDouble, Word.toInt]

end JsonNumber

/-! ## Trees as data sources -/

namespace Source

mutual

/-- The source is the tree node by node. Its texts may have any form. -/
inductive Spells : Source → Json → Prop where
  | null : Spells .unit .null
  | bool (b : Bool) : Spells (.bool b) (.bool b)
  | unsigned (n : UInt64) : Spells (.word (.uint64 n)) (.number (.unsigned n))
  | negative (n : Int64) : Spells (.word (.int64 n)) (.number (.negative n))
  | real (x : Double) : Spells (.double x) (.number (.real x))
  | string (form : TextForm) (s : String) : Spells (.text form s) (.string s)
  | array {items : List Source} {elements : List Json} (h : SpellsElements items elements) :
      Spells (.sequence items) (.array elements)
  | object {sources : List (Source × Source)} {members : List (String × Json)}
      (h : SpellsMembers sources members) : Spells (.map sources) (.object members)

inductive SpellsElements : List Source → List Json → Prop where
  | nil : SpellsElements [] []
  | cons {s : Source} {j : Json} {items : List Source} {elements : List Json}
      (hj : Spells s j) (h : SpellsElements items elements) :
      SpellsElements (s :: items) (j :: elements)

inductive SpellsMembers : List (Source × Source) → List (String × Json) → Prop where
  | nil : SpellsMembers [] []
  | cons {s : Source} {j : Json} {sources : List (Source × Source)}
      {members : List (String × Json)} (form : TextForm) (key : String) (hj : Spells s j)
      (h : SpellsMembers sources members) :
      SpellsMembers ((.text form key, s) :: sources) ((key, j) :: members)

end

/-! ## Reading and converting -/

mutual

/-- **Reading what spells out a tree is converting the tree**, the new identities included. -/
theorem read_of_spells (j : Json) {s : Source} (h : s.Spells j) : s.read = j.toValue := by
  cases h with
  | unsigned n => rw [read, Json.toValue, JsonNumber.toDouble_unsigned, Value.ofWord]
  | negative n => rw [read, Json.toValue, JsonNumber.toDouble_negative, Value.ofWord]
  | @array items elements h =>
    rw [read, readItems_of_spells elements h, Json.toValue]
  | @object sources members h =>
    rw [read, readEntries_of_spells members h, Json.toValue]
  | _ => rfl

theorem readItems_of_spells (elements : List Json) {items : List Source}
    (h : SpellsElements items elements) : readItems items = Json.elementValues elements := by
  cases h with
  | nil => rfl
  | @cons s j items elements hj h =>
    rw [readItems, Json.elementValues, read_of_spells j hj, readItems_of_spells elements h]

theorem readEntries_of_spells (members : List (String × Json)) {sources : List (Source × Source)}
    (h : SpellsMembers sources members) : readEntries sources = Json.memberValues members := by
  cases h with
  | nil => rfl
  | @cons s j sources members form key hj h =>
    rw [readEntries, Json.memberValues, read_of_spells j hj, readEntries_of_spells members h]
    rfl

end

end Source

namespace Json

open Source (SpellsElements SpellsMembers)

mutual

theorem spells_toSource (j : Json) : (toSource j).Spells j := by
  cases j with
  | null => exact .null
  | bool b => exact .bool b
  | number n =>
    cases n with
    | unsigned n => exact .unsigned n
    | negative n => exact .negative n
    | real x => exact .real x
  | string s => exact .string _ s
  | array elements => exact .array (spells_elementSources elements)
  | object members => exact .object (spells_memberSources members)

theorem spells_elementSources (elements : List Json) :
    SpellsElements (elementSources elements) elements := by
  cases elements with
  | nil => exact .nil
  | cons j elements => exact .cons (spells_toSource j) (spells_elementSources elements)

theorem spells_memberSources (members : List (String × Json)) :
    SpellsMembers (memberSources members) members := by
  match members with
  | [] => exact .nil
  | (key, j) :: members => exact .cons _ key (spells_toSource j) (spells_memberSources members)

end

/-! ## Conversion never fails -/

/-- The computation does not fail: it does what the one does that cannot. -/
def Sure {ε α : Type} (x : Fresh (Except ε) α) (y : Fresh Id α) : Prop :=
  ∀ serial, x serial = .ok (y serial)

theorem Sure.bind {ε α β : Type} {x : Fresh (Except ε) α} {y : Fresh Id α}
    {f : α → Fresh (Except ε) β} {g : α → Fresh Id β} (hx : Sure x y)
    (hf : ∀ a, Sure (f a) (g a)) : Sure (x >>= f) (y >>= g) := by
  intro serial
  show (x serial >>= fun r => f r.1 r.2) = .ok (g (y serial).1 (y serial).2)
  rw [hx serial]
  exact hf _ _

mutual

/-- **Converting a tree never fails**, whatever the failures around it are. -/
theorem sure_toValue {ε : Type} (j : Json) :
    Sure (toValue j : Fresh (Except ε) Value) (toValue j) := by
  cases j with
  | array elements => exact (sure_elementValues elements).bind fun _ _ => rfl
  | object members => exact (sure_memberValues members).bind fun _ _ => rfl
  | _ => exact fun _ => rfl

theorem sure_elementValues {ε : Type} (elements : List Json) :
    Sure (elementValues elements : Fresh (Except ε) (List Value)) (elementValues elements) := by
  cases elements with
  | nil => exact fun _ => rfl
  | cons j elements =>
    exact (sure_toValue j).bind fun _ => (sure_elementValues elements).bind fun _ _ => rfl

theorem sure_memberValues {ε : Type} (members : List (String × Json)) :
    Sure (memberValues members : Fresh (Except ε) (List (String × Value)))
      (memberValues members) := by
  match members with
  | [] => exact fun _ => rfl
  | (key, j) :: members =>
    exact (sure_toValue j).bind fun _ => (sure_memberValues members).bind fun _ _ => rfl

end

/-- So nothing that spells out a tree is refused. -/
theorem read_eq_ok_of_spells {j : Json} {s : Source} (h : s.Spells j) (serial : Nat) :
    s.read serial = .ok (toValue (m := Id) j serial) := by
  rw [Source.read_of_spells j h]
  exact sure_toValue j serial

/-- The value of the tree, without identities. -/
def content (j : Json) : Value := (toSource j).meaning

/-- All that conversion draws from the supply is identities. -/
theorem untagged_toValue (j : Json) (serial : Nat) :
    (toValue (m := Id) j serial).1.untagged = j.content := by
  have h := Source.meets_read (toSource j) serial
  rw [read_eq_ok_of_spells (spells_toSource j)] at h
  exact h.2

theorem content_array (elements : List Json) :
    (array elements).content = .array ⟨0⟩ (elements.map content) := by
  refine congrArg (Value.array _) ?_
  induction elements with
  | nil => rfl
  | cons j elements ih => exact congrArg (List.cons j.content) ih

theorem content_object (members : List (String × Json)) : (object members).content =
    .object ⟨0⟩ (Entries.ofPairs (members.map fun e => (e.1, e.2.content))) := by
  refine congrArg (fun es => Value.object _ (Entries.ofPairs es)) ?_
  induction members with
  | nil => rfl
  | cons e members ih =>
    obtain ⟨key, j⟩ := e
    exact congrArg (List.cons (key, j.content)) ih

/-! ## Repeated keys -/

mutual

/-- **A tree and the tree without repeated keys have the same value.** -/
theorem content_resolve (j : Json) : j.resolve.content = j.content := by
  cases j with
  | array elements => rw [resolve, content_array, content_array, contents_resolve elements]
  | object members =>
    rw [resolve, content_object, content_object, Entries.ofPairs_map,
      Entries.ofPairs_of_distinct (Entries.distinct_ofPairs _), ← Entries.ofPairs_map,
      memberContents_resolve members]
  | _ => rfl

theorem contents_resolve (elements : List Json) :
    (resolveElements elements).map content = elements.map content := by
  cases elements with
  | nil => rfl
  | cons j elements =>
    rw [resolveElements, List.map_cons, List.map_cons, content_resolve j,
      contents_resolve elements]

theorem memberContents_resolve (members : List (String × Json)) :
    (resolveMembers members).map (fun e => (e.1, e.2.content)) =
      members.map fun e => (e.1, e.2.content) := by
  match members with
  | [] => rfl
  | (key, j) :: members =>
    rw [resolveMembers, List.map_cons, List.map_cons, content_resolve j,
      memberContents_resolve members]

end

/-! ## The routes -/

theorem valueOfText_eq_ok {text : String} {tree : Json} (h : parse text = .ok tree)
    (serial : Nat) : valueOfText text serial = .ok (toValue (m := Id) tree.resolve serial) := by
  have htree : ofText text = .ok tree.resolve := by rw [ofText, h]; rfl
  rw [valueOfText, htree]
  exact sure_toValue tree.resolve serial

theorem readText_eq_ok {text : String} {tree : Json} (h : parse text = .ok tree)
    (serial : Nat) : readText text serial = .ok (toValue (m := Id) tree serial) := by
  simp only [readText, h, read_eq_ok_of_spells (spells_toSource tree), Except.mapError]

/-- The routes from JSON lead to one value. No number takes the fallback. What spells a tree out, as
the tree does that is taken for a source, is read to what the tree is converted to, by reference or
by value, with the same identities from the same supply; without them it is the content of the tree,
which keeps the order of elements and keys. It makes no difference to the content if repeated keys
are resolved first, at any depth. So a text without a fault has one content by way of its tree,
which has every key once, and directly; a text with a fault has the same error. -/
structure RoutesMeet : Prop where
  number : ∀ n : JsonNumber, n.double?.isSome
  spelled : ∀ j : Json, (toSource j).Spells j
  content : ∀ (j : Json) (serial : Nat), (toValue (m := Id) j serial).1.untagged = j.content
  owned : ∀ (j : Json) (serial : Nat), intoValue (m := Id) j serial = toValue (m := Id) j serial
  read : ∀ (j : Json) (s : Source) (serial : Nat), s.Spells j →
    s.read serial = .ok (toValue (m := Id) j serial)
  elements : ∀ js, (Json.array js).content = .array ⟨0⟩ (js.map Json.content)
  members : ∀ es, (Json.object es).content =
    .object ⟨0⟩ (Entries.ofPairs (es.map fun e => (e.1, e.2.content)))
  resolved : ∀ j : Json, j.resolve.content = j.content
  text : ∀ text tree, parse text = .ok tree → ∀ serial, ∃ u next v next',
    valueOfText text serial = .ok (u, next) ∧ readText text serial = .ok (v, next') ∧
      u.untagged = tree.content ∧ v.untagged = tree.content
  fault : ∀ text e, parse text = .error e → ∀ serial,
    valueOfText text serial = .error (.json e) ∧ readText text serial = .error (.json e)

/-- **All routes agree.** -/
theorem routes_agree : RoutesMeet where
  number := JsonNumber.double?_isSome
  spelled := spells_toSource
  content := untagged_toValue
  owned _ _ := rfl
  read _ _ serial h := read_eq_ok_of_spells h serial
  elements := content_array
  members := content_object
  resolved := content_resolve
  text text tree h serial := by
    refine ⟨_, _, _, _, valueOfText_eq_ok h serial, readText_eq_ok h serial, ?_, ?_⟩
    · exact (untagged_toValue _ serial).trans (content_resolve tree)
    · exact untagged_toValue tree serial
  fault text e h serial := by
    have htree : ofText text = .error e := by rw [ofText, h]; rfl
    simp only [valueOfText, readText, htree, h, and_self]

/-- A tree with a key that is given again, and one inside it. -/
def againTree : Json :=
  .object [("a", .number (.unsigned 1)),
    ("b", .array [.object [("c", .bool true), ("c", .null)]]), ("a", .string "x")]

/-- A text of it. -/
def againText : String :=
  "\x7b \"a\": 1, \"b\": [\x7b\"c\": true, \"c\": null\x7d], \"a\": \"x\" \x7d"

theorem content_againTree : againTree.content =
    .object ⟨0⟩ [("a", .string "x"), ("b", .array ⟨0⟩ [.object ⟨0⟩ [("c", .null)]])] := by
  rw [againTree, content_object]
  simp only [List.map_cons, List.map_nil, content_array, content_object,
    Entries.ofPairs_eq_insertAll]
  rfl

theorem routes_agree_again :
    parse againText = .ok againTree ∧
    ∃ u next v next', valueOfText againText 0 = .ok (u, next) ∧
      readText againText 0 = .ok (v, next') ∧ u.untagged = v.untagged ∧
      v.untagged =
        .object ⟨0⟩ [("a", .string "x"), ("b", .array ⟨0⟩ [.object ⟨0⟩ [("c", .null)]])] := by
  have hparse : parse againText = .ok againTree := by rfl
  obtain ⟨u, next, v, next', hu, hv, hucontent, hvcontent⟩ := routes_agree.text _ _ hparse 0
  exact ⟨hparse, u, next, v, next', hu, hv, hucontent.trans hvcontent.symm,
    hvcontent.trans content_againTree⟩

end Json

end ShapeCheck
