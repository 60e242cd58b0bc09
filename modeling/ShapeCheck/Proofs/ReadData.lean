import ShapeCheck.Proofs.JsonNumbers
import ShapeCheck.Proofs.Presentation
import ShapeCheck.Proofs.RepeatedKeys
import ShapeCheck.Proofs.Verdict
/-!
# What reading can produce

Reading makes neither `undefined` nor host objects, and keys are distinct in every object that it
makes; values of JSON hold finite numbers only. Main theorem `read_data`: so it is at every depth,
and so `undefined` marks absence and nothing else: `null` is a value like others.
-/
namespace ShapeCheck

namespace Value

/-- What can be said of a value that was read, as far as one sees without looking into its parts.
Not every number need be possible. -/
structure Read (possible : Double → Prop) (v : Value) : Prop where
  kind : v.kind ≠ .undefined ∧ v.kind ≠ .host
  distinct : Entries.Distinct v.entries
  number : ∀ x, v = .number x → possible x

variable {possible : Double → Prop} {v : Value}

theorem isData_of_everywhere_read (h : v.Everywhere (Read possible)) : v.IsData :=
  fun u hu => (h u hu).kind

theorem wellKeyed_of_everywhere_read (h : v.Everywhere (Read possible)) : v.WellKeyed :=
  fun _ _ hu => (h _ hu).distinct

theorem keys_entries_untagged (v : Value) :
    Entries.keys v.untagged.entries = Entries.keys v.entries := by
  cases v with
  | object tag entries =>
    show Entries.keys (untaggedEntries entries) = Entries.keys entries
    rw [untaggedEntries_eq_map, Entries.keys, List.map_map]
    rfl
  | _ => rfl

theorem untagged_mem_parts_untagged {u : Value} (hv : v.kind ≠ .host) (hu : u ∈ v.parts) :
    u.untagged ∈ v.untagged.parts := by
  cases v with
  | array tag elements =>
    show u.untagged ∈ untaggedElements elements
    induction elements with
    | nil => cases hu
    | cons w ws ih =>
      rcases List.mem_cons.1 hu with rfl | hu
      · exact List.mem_cons_self
      · exact List.mem_cons_of_mem _ (ih (by simp [kind]) hu)
  | object tag entries =>
    obtain ⟨e, he, rfl⟩ := List.mem_map.1 hu
    show e.2.untagged ∈ (untaggedEntries entries).map Prod.snd
    rw [untaggedEntries_eq_map, List.map_map]
    exact List.mem_map_of_mem he
  | host => exact absurd rfl hv
  | _ => cases hu

/-- Identities make no difference. -/
theorem everywhere_read_of_untagged (h : v.untagged.Everywhere (Read possible)) :
    v.Everywhere (Read possible) := by
  induction v using Value.parts_induction with
  | h v ih =>
    obtain ⟨hread, hp⟩ := everywhere_iff.1 h
    have hkind : v.kind ≠ .undefined ∧ v.kind ≠ .host := kind_untagged v ▸ hread.kind
    refine everywhere_iff.2 ⟨⟨hkind, ?_, ?_⟩, fun u hu => ?_⟩
    · rw [Entries.Distinct, ← keys_entries_untagged]
      exact hread.distinct
    · rintro x rfl
      exact hread.number x rfl
    · exact ih u hu (hp _ (untagged_mem_parts_untagged hkind.2 hu))

end Value

/-! ## Reading a source -/

namespace Source

mutual

/-- The numbers in the value of a source. -/
def numbers : Source → List Double
  | .word w => [w.toDouble]
  | .single x => [x.convert]
  | .double x => [x]
  | .present inner => numbers inner
  | .sequence items => numbersItems items
  | .map entries => numbersEntries entries
  | _ => []

def numbersItems : List Source → List Double
  | [] => []
  | item :: items => numbers item ++ numbersItems items

def numbersEntries : List (Source × Source) → List Double
  | [] => []
  | (_, value) :: entries => numbers value ++ numbersEntries entries

end

variable {possible : Double → Prop}

theorem everywhere_read_leaf {v : Value} (hp : v.parts = []) (h : v.Read possible) :
    v.Everywhere (Value.Read possible) :=
  Value.everywhere_iff.2 ⟨h, by rw [hp]; exact fun _ hu => absurd hu List.not_mem_nil⟩

mutual

/-- **Whatever a source without a refusal stands for, it was read.** -/
theorem everywhere_read_meaning (s : Source) (hpass : ∀ b ∈ s.stops, b.refusal? = none)
    (h : ∀ x ∈ s.numbers, possible x) : s.meaning.Everywhere (Value.Read possible) := by
  cases s with
  | present inner => exact everywhere_read_meaning inner hpass h
  | sequence items =>
    have hitems := everywhere_read_meaningItems items (List.forall_mem_cons.1 hpass).2 h
    exact Value.everywhere_iff.2 ⟨⟨⟨nofun, nofun⟩, List.nodup_nil, nofun⟩, hitems⟩
  | map entries =>
    have hentries := everywhere_read_meaningEntries entries (List.forall_mem_cons.1 hpass).2 h
    refine Value.everywhere_iff.2
      ⟨⟨⟨nofun, nofun⟩, Entries.distinct_ofPairs _, nofun⟩, fun u hu => ?_⟩
    have hsub := (Entries.ofPairs_subperm Prod.snd (meaningEntries entries)).subset
    obtain ⟨e, he, rfl⟩ := List.mem_map.1 (hsub hu)
    exact hentries e he
  | wideInt | bytes | newtype | enumeration | failure => cases hpass _ List.mem_cons_self
  | word w | single x | double x =>
    refine everywhere_read_leaf rfl ⟨⟨nofun, nofun⟩, List.nodup_nil, ?_⟩
    rintro _ ⟨⟩
    exact h _ List.mem_cons_self
  | _ => exact everywhere_read_leaf rfl ⟨⟨nofun, nofun⟩, List.nodup_nil, nofun⟩

theorem everywhere_read_meaningItems (items : List Source)
    (hpass : ∀ b ∈ stopsItems items, b.refusal? = none)
    (h : ∀ x ∈ numbersItems items, possible x) :
    ∀ v ∈ meaningItems items, v.Everywhere (Value.Read possible) := by
  cases items with
  | nil => exact nofun
  | cons item items =>
    obtain ⟨hpassi, hpass⟩ := List.forall_mem_append.1 hpass
    obtain ⟨hi, h⟩ := List.forall_mem_append.1 h
    exact List.forall_mem_cons.2 ⟨everywhere_read_meaning item hpassi hi,
      everywhere_read_meaningItems items hpass h⟩

theorem everywhere_read_meaningEntries (entries : List (Source × Source))
    (hpass : ∀ b ∈ stopsEntries entries, b.refusal? = none)
    (h : ∀ x ∈ numbersEntries entries, possible x) :
    ∀ e ∈ meaningEntries entries, e.2.Everywhere (Value.Read possible) := by
  match entries with
  | [] => exact nofun
  | (key, value) :: entries =>
    obtain ⟨-, hpass⟩ := List.forall_mem_append.1 hpass
    obtain ⟨hpassv, hpass⟩ := List.forall_mem_append.1 (List.forall_mem_cons.1 hpass).2
    obtain ⟨hv, h⟩ := List.forall_mem_append.1 h
    exact List.forall_mem_cons.2 ⟨everywhere_read_meaning value hpassv hv,
      everywhere_read_meaningEntries entries hpass h⟩

end

theorem Reads.refusal?_eq_none {s : Source} {v : Value} (h : s.Reads v) :
    ∀ b ∈ s.stops, b.refusal? = none := by
  obtain ⟨serial, next, h⟩ := h
  have hr := meets_read s serial
  rw [h] at hr
  exact firstRefusal?_eq_none_iff.1 hr.1

theorem Reads.everywhere_read {s : Source} {v : Value} (hr : s.Reads v)
    (h : ∀ x ∈ s.numbers, possible x) : v.Everywhere (Value.Read possible) := by
  refine Value.everywhere_read_of_untagged ?_
  rw [hr.untagged_eq_meaning]
  exact everywhere_read_meaning s hr.refusal?_eq_none h

end Source

/-! ## Values of JSON -/

namespace Json

mutual

theorem numbers_toSource (j : Json) :
    (toSource j).numbers = j.numbers.map JsonNumber.toDouble := by
  cases j with
  | number n =>
    cases n with
    | unsigned n =>
      simp [toSource, JsonNumber.toSource, Source.numbers, JsonNumber.toDouble_unsigned]
    | negative n =>
      simp [toSource, JsonNumber.toSource, Source.numbers, JsonNumber.toDouble_negative]
    | real x => rfl
  | array elements => exact numbers_elementSources elements
  | object members => exact numbers_memberSources members
  | _ => rfl

theorem numbers_elementSources (elements : List Json) :
    Source.numbersItems (elementSources elements) =
      (numbersOfElements elements).map JsonNumber.toDouble := by
  cases elements with
  | nil => rfl
  | cons j elements =>
    rw [elementSources, Source.numbersItems, numbersOfElements, List.map_append,
      numbers_toSource j, numbers_elementSources elements]

theorem numbers_memberSources (members : List (String × Json)) :
    Source.numbersEntries (memberSources members) =
      (numbersOfMembers members).map JsonNumber.toDouble := by
  match members with
  | [] => rfl
  | (key, j) :: members =>
    rw [memberSources, Source.numbersEntries, numbersOfMembers, List.map_append,
      numbers_toSource j, numbers_memberSources members]

end

theorem reads_toSource (j : Json) (serial : Nat) :
    (toSource j).Reads (toValue (m := Id) j serial).1 :=
  ⟨serial, _, read_eq_ok_of_spells (spells_toSource j) serial⟩

theorem everywhere_read_content {j : Json} (h : j.IsFinite) :
    j.content.Everywhere (Value.Read fun x => x.isFinite = true) := by
  refine Source.everywhere_read_meaning _ (reads_toSource j 0).refusal?_eq_none ?_
  rw [numbers_toSource]
  intro x hx
  obtain ⟨n, hn, rfl⟩ := List.mem_map.1 hx
  exact JsonNumber.isFinite_toDouble (h n hn)

/-- The ways from JSON to a value: a tree that holds finite numbers only is converted, kept or given
up, or spelled out as a source that is read, and a text is made a tree first or not. -/
inductive Gives : Value → Prop where
  | toValue {j : Json} (h : j.IsFinite) (serial : Nat) : Gives (toValue (m := Id) j serial).1
  | intoValue {j : Json} (h : j.IsFinite) (serial : Nat) : Gives (intoValue (m := Id) j serial).1
  | spelled {j : Json} {s : Source} {v : Value} (h : j.IsFinite) (hs : s.Spells j)
      (hr : s.Reads v) : Gives v
  | valueOfText {text : String} {serial next : Nat} {v : Value}
      (h : valueOfText text serial = .ok (v, next)) : Gives v
  | readText {text : String} {serial next : Nat} {v : Value}
      (h : readText text serial = .ok (v, next)) : Gives v

/-- Whichever way is taken, the value has the content of a tree. -/
theorem Gives.exists_content {v : Value} (h : Gives v) :
    ∃ j : Json, j.IsFinite ∧ v.untagged = j.content := by
  cases h with
  | toValue h serial => exact ⟨_, h, untagged_toValue _ serial⟩
  | intoValue h serial => exact ⟨_, h, untagged_toValue _ serial⟩
  | @spelled j s v h hs hr =>
    obtain ⟨serial, next, hr⟩ := hr
    rw [read_eq_ok_of_spells hs] at hr
    obtain rfl : _ = v := congrArg Prod.fst (Except.ok.inj hr)
    exact ⟨j, h, untagged_toValue j serial⟩
  | @valueOfText text serial next v h =>
    cases hp : parse text with
    | error e =>
      rw [Json.valueOfText, ofText, hp] at h
      cases h
    | ok tree =>
      rw [valueOfText_eq_ok hp] at h
      obtain rfl : _ = v := congrArg Prod.fst (Except.ok.inj h)
      exact ⟨tree, isFinite_of_parse hp, (untagged_toValue _ serial).trans (content_resolve tree)⟩
  | @readText text serial next v h =>
    cases hp : parse text with
    | error e =>
      rw [Json.readText, hp] at h
      cases h
    | ok tree =>
      rw [readText_eq_ok hp] at h
      obtain rfl : _ = v := congrArg Prod.fst (Except.ok.inj h)
      exact ⟨tree, isFinite_of_parse hp, untagged_toValue tree serial⟩

theorem Gives.everywhere_read {v : Value} (h : Gives v) :
    v.Everywhere (Value.Read fun x => x.isFinite = true) := by
  obtain ⟨j, hj, hv⟩ := h.exists_content
  exact Value.everywhere_read_of_untagged (hv ▸ everywhere_read_content hj)

end Json

namespace Value

/-- A finite number is no `nan`. -/
theorem not_holdsNaN_of_everywhere_read {v : Value}
    (h : v.Everywhere (Read fun x => x.isFinite = true)) : ¬ v.HoldsNaN := by
  intro hn
  induction hn with
  | @number x hx =>
    have hfinite : x.isFinite = true := (h _ (.refl _)).number x rfl
    cases x with
    | nan => exact Bool.false_ne_true hfinite
    | _ => cases hx
  | array hv _ ih => exact ih ((everywhere_iff.1 h).2 _ hv)
  | object hv _ ih => exact ih ((everywhere_iff.1 h).2 _ (List.mem_map_of_mem hv))

end Value

/-! ## Absence in data -/

namespace Validator

variable {u : Value}

/-- What is there is left to the inner validator. -/
theorem run_optional (hu : u.kind ≠ .undefined) (w : Validator) : w.optional.run u = w.run u := by
  have hempty : run .empty u = .silent Connective.or.neutral := by
    simp [Connective.neutral, hu]
  show Connective.or.next (run .empty u) (fun _ => w.run u) = w.run u
  rw [hempty, Connective.next_silent_left]

/-- A field that need not be there accepts what is missing and what the inner validator accepts. -/
theorem accepts_optional_field_iff (hd : Entries.Distinct u.entries)
    (hu : ∀ x ∈ u.parts, x.kind ≠ .undefined) (w : Validator) (key : String) :
    w.optional.accepts (u.field key) = true ↔
      key ∉ Entries.keys u.entries ∨ ∃ x, (key, x) ∈ u.entries ∧ w.accepts x = true := by
  rw [Value.field_eq]
  cases hget : Entries.get? u.entries key with
  | none =>
    have habsent : key ∉ Entries.keys u.entries := Entries.get?_eq_none_iff.1 hget
    have hempty : accepts .empty .undefined = true := accepts_empty_iff.2 rfl
    simp [optional, hempty, habsent]
  | some x =>
    have hmem : (key, x) ∈ u.entries := Entries.mem_of_get? hget
    have hpart : x ∈ u.parts := by
      cases u with
      | object tag entries => exact List.mem_map_of_mem hmem
      | _ => cases hmem
    have hrun : w.optional.accepts x = w.accepts x :=
      congrArg Run.accepted (run_optional (hu x hpart) w)
    rw [Option.getD_some, hrun]
    constructor
    · exact fun h => .inr ⟨x, hmem, h⟩
    · rintro (h | ⟨y, hy, h⟩)
      · exact absurd (Entries.mem_keys_of_mem hmem) h
      · rw [(Entries.get?_eq_some_iff hd).2 hy] at hget
        cases hget
        exact h

/-- In a record, the other fields do not matter for it. -/
theorem accepts_record_split_iff (before after : List (String × Validator)) (key : String)
    (w : Validator) : accepts (.record (before ++ (key, w) :: after)) u = true ↔
      accepts (.record (before ++ after)) u = true ∧ w.accepts (u.field key) = true := by
  rw [accepts_record_iff, accepts_record_iff, List.forall_mem_append, List.forall_mem_cons,
    List.forall_mem_append]
  constructor
  · rintro ⟨hkind, hbefore, hw, hafter⟩
    exact ⟨⟨hkind, hbefore, hafter⟩, hw⟩
  · rintro ⟨⟨hkind, hbefore, hafter⟩, hw⟩
    exact ⟨hkind, hbefore, hw, hafter⟩

end Validator

namespace Value

/-- For a validator the value is there, and what it holds is told from what it lacks: a field that
need not be there can be missing, but `null` in its place is a value like others. -/
structure TellsAbsence (u : Value) : Prop where
  optional : ∀ w : Validator, w.optional.run u = w.run u
  empty : Validator.empty.accepts u = false
  field : ∀ (w : Validator) (key : String), w.optional.accepts (u.field key) = true ↔
    key ∉ Entries.keys u.entries ∨ ∃ x, (key, x) ∈ u.entries ∧ w.accepts x = true
  null : ∀ (w : Validator) (key : String), (key, .null) ∈ u.entries →
    w.optional.accepts (u.field key) = w.accepts .null
  record : ∀ (before after : List (String × Validator)) (key : String) (w : Validator),
    (Validator.record (before ++ (key, w.optional) :: after)).accepts u = true ↔
      (Validator.record (before ++ after)).accepts u = true ∧
        (key ∉ Entries.keys u.entries ∨ ∃ x, (key, x) ∈ u.entries ∧ w.accepts x = true)

/-- Data has no `undefined`, so absence can be told from all that is there. -/
theorem tellsAbsence_of_isData {u : Value} (hu : u.IsData) (hk : u.WellKeyed) :
    u.TellsAbsence := by
  obtain ⟨⟨hundefined, -⟩, hp⟩ := isData_iff.1 hu
  have hparts : ∀ x ∈ u.parts, x.kind ≠ .undefined := fun x hx => (isData_iff.1 (hp x hx)).1.1
  have hfield := Validator.accepts_optional_field_iff hk.entries hparts
  refine ⟨Validator.run_optional hundefined, ?_, hfield, ?_, ?_⟩
  · rw [Bool.eq_false_iff, Ne, Validator.accepts_empty_iff]
    exact hundefined
  · intro w key hnull
    rw [field_eq, (Entries.get?_eq_some_iff hk.entries).2 hnull, Option.getD_some]
    exact congrArg Run.accepted (Validator.run_optional (by simp [kind]) w)
  · intro before after key w
    rw [Validator.accepts_record_split_iff, hfield]

end Value

open Json Value

/-- What is read is data, with distinct keys. -/
theorem isData_of_reads {s : Source} {v : Value} (h : s.Reads v) : v.IsData ∧ v.WellKeyed := by
  have hread : v.Everywhere (Read fun _ => True) := h.everywhere_read fun _ _ => trivial
  exact ⟨isData_of_everywhere_read hread, wellKeyed_of_everywhere_read hread⟩

/-- Whatever a data source is read to, and whatever a JSON tree is converted to, holds at every
depth neither `undefined` nor host objects, and the keys of its objects are distinct. What comes
from JSON by any way holds finite numbers only, so it is equal to itself, and so is all that is in
it. In such data `undefined` marks what is missing, and nothing else is taken for it. -/
structure GivesData : Prop where
  source : ∀ (s : Source) v, s.Reads v → v.IsData ∧ v.WellKeyed
  tree : ∀ (j : Json) serial,
    ∀ v ∈ [(toValue (m := Id) j serial).1, (intoValue (m := Id) j serial).1],
      v.IsData ∧ v.WellKeyed
  json : ∀ v, Gives v → v.IsData ∧ v.WellKeyed ∧ ∀ u : Value, u.Within v →
    (∀ x, u = .number x → x.isFinite = true) ∧ u.eqv u = true
  absence : ∀ v : Value, v.IsData → v.WellKeyed → ∀ u : Value, u.Within v → u.TellsAbsence

/-- **What reading can produce.** -/
theorem read_data : GivesData where
  source _ _ := isData_of_reads
  tree j serial v hv := by
    have hv : v = (toValue (m := Id) j serial).1 := by simpa [intoValue] using hv
    exact hv ▸ isData_of_reads (reads_toSource j serial)
  json v h := by
    have hread := h.everywhere_read
    refine ⟨isData_of_everywhere_read hread, wellKeyed_of_everywhere_read hread, fun u hu => ?_⟩
    have hread : u.Everywhere (Read _) := fun w hw => hread w (hw.trans hu)
    exact ⟨(hread u (.refl u)).number,
      eqv_self (wellKeyed_of_everywhere_read hread) (not_holdsNaN_of_everywhere_read hread)⟩
  absence v hd hk u hu := by
    have hdata : u.IsData := fun w hw => hd w (hw.trans hu)
    have hkeyed : u.WellKeyed := fun tag entries hw => hk tag entries (hw.trans hu)
    exact tellsAbsence_of_isData hdata hkeyed

namespace Json

/-- A gift that is explicitly none, with a size that is held as a double. -/
def noGift : Json := .object [("gift", .null), ("size", .number (.real Source.one))]

theorem read_data_noGift :
    let v := (toValue (m := Id) noGift 0).1
    (toSource noGift).Reads v ∧ Gives v ∧ v.IsData ∧ v.WellKeyed ∧ v.eqv v = true ∧
      ("gift", .null) ∈ v.entries ∧
      ∀ w : Validator, w.optional.accepts (v.field "gift") = w.accepts .null := by
  intro v
  have hreads : (toSource noGift).Reads v := reads_toSource noGift 0
  have hfinite : noGift.IsFinite := List.forall_mem_singleton.2 rfl
  have hgives : Gives v := .toValue hfinite 0
  have hnull : ("gift", .null) ∈ v.entries := by
    show ("gift", Value.null) ∈ Entries.ofPairs _
    rw [Entries.ofPairs_eq_insertAll]
    exact List.mem_cons_self
  obtain ⟨hd, hk⟩ := read_data.source _ v hreads
  obtain ⟨-, -, hequal⟩ := read_data.json v hgives
  exact ⟨hreads, hgives, hd, hk, (hequal v (.refl v)).2, hnull,
    fun w => (read_data.absence v hd hk v (.refl v)).null w "gift" hnull⟩

end Json

end ShapeCheck
