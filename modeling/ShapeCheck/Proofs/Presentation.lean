import ShapeCheck.Proofs.Equality
import ShapeCheck.Proofs.Exact
import ShapeCheck.Proofs.Refusal
/-!
# Values presented as data

A value can be handed over as a data source in many ways: a number in any width that holds it, a
text in any form, anything as optional data that is there. `Source.Presents` has them all. Main
theorem `read_presented`: whichever way is taken, reading gives the value back, with new identities.
-/
namespace ShapeCheck

namespace Value

/-- Nowhere inside is something that is no data: `undefined` or a host object. -/
def IsData (v : Value) : Prop :=
  ∀ u : Value, u.Within v → u.kind ≠ .undefined ∧ u.kind ≠ .host

theorem isData_iff {v : Value} : v.IsData ↔
    (v.kind ≠ .undefined ∧ v.kind ≠ .host) ∧ ∀ u ∈ v.parts, u.IsData :=
  everywhere_iff

end Value

namespace Source

mutual

/-- The source is a way to hand over the value. -/
inductive Presents : Source → Value → Prop where
  | unit : Presents .unit .null
  | absent : Presents .absent .null
  | bool (b : Bool) : Presents (.bool b) (.bool b)
  | double (x : Double) : Presents (.double x) (.number x)
  | single {x : Single} {y : Double} (h : x.Same y) : Presents (.single x) (.number y)
  | word {w : Word} {x : Double} (h : x.IsInteger w.toInt) : Presents (.word w) (.number x)
  | wideInt {signed : Bool} {n : Int} {x : Double} (h : x.IsInteger n) :
      Presents (.wideInt signed n) (.number x)
  | char {c : Char} {s : String} (h : s.toList = [c]) : Presents (.char c) (.string s)
  | text (form : TextForm) (s : String) : Presents (.text form s) (.string s)
  | present {s : Source} {v : Value} (h : Presents s v) : Presents (.present s) v
  | sequence {items : List Source} {elements : List Value} (tag : Tag)
      (h : PresentsItems items elements) : Presents (.sequence items) (.array tag elements)
  | map {sources : List (Source × Source)} {entries : List (String × Value)} (tag : Tag)
      (h : PresentsEntries sources entries) : Presents (.map sources) (.object tag entries)

/-- Item by item, in order. -/
inductive PresentsItems : List Source → List Value → Prop where
  | nil : PresentsItems [] []
  | cons {s : Source} {v : Value} {items : List Source} {elements : List Value}
      (hv : Presents s v) (h : PresentsItems items elements) :
      PresentsItems (s :: items) (v :: elements)

/-- Entry by entry, in order, with the keys as strings. -/
inductive PresentsEntries : List (Source × Source) → List (String × Value) → Prop where
  | nil : PresentsEntries [] []
  | cons {k s : Source} {key : String} {v : Value} {sources : List (Source × Source)}
      {entries : List (String × Value)} (hk : Presents k (.string key)) (hv : Presents s v)
      (h : PresentsEntries sources entries) :
      PresentsEntries ((k, s) :: sources) ((key, v) :: entries)

end

/-- No integer that is come to has more places than a word. -/
def Narrow (s : Source) : Prop :=
  ∀ (signed : Bool) (n : Int), Stop.unsupported (.wideInt signed n) ∉ s.stops

/-! ## What a presentation comes to -/

/-- What presents a key passes the check of keys. -/
theorem kind_meaning_of_presents_string (k : Source) {key : String}
    (h : k.Presents (.string key)) : k.meaning.kind = .string := by
  cases h with
  | @present inner _ h => exact kind_meaning_of_presents_string inner h
  | char | text => rfl

/-- The stop does not refuse, or it is an integer of too many places. -/
def PassesOrWide (stop : Stop) : Prop :=
  stop.refusal? = none ∨ ∃ signed n, stop = .unsupported (.wideInt signed n)

mutual

/-- **Of a presentation, only a wide integer is refused.** -/
theorem passesOrWide_of_presents (s : Source) {v : Value} (h : s.Presents v) :
    ∀ stop ∈ s.stops, PassesOrWide stop := by
  cases h with
  | @present inner _ h => exact passesOrWide_of_presents inner h
  | @sequence items _ tag h =>
    exact List.forall_mem_cons.2 ⟨.inl rfl, passesOrWide_of_presentsItems items h⟩
  | @map sources _ tag h =>
    exact List.forall_mem_cons.2 ⟨.inl rfl, passesOrWide_of_presentsEntries sources h⟩
  | wideInt h => exact List.forall_mem_singleton.2 (.inr ⟨_, _, rfl⟩)
  | _ => exact List.forall_mem_singleton.2 (.inl rfl)

theorem passesOrWide_of_presentsItems (items : List Source) {elements : List Value}
    (h : PresentsItems items elements) : ∀ stop ∈ stopsItems items, PassesOrWide stop := by
  cases h with
  | nil => exact nofun
  | @cons s _ items _ hv h =>
    exact List.forall_mem_append.2
      ⟨passesOrWide_of_presents s hv, passesOrWide_of_presentsItems items h⟩

theorem passesOrWide_of_presentsEntries (sources : List (Source × Source))
    {entries : List (String × Value)} (h : PresentsEntries sources entries) :
    ∀ stop ∈ stopsEntries sources, PassesOrWide stop := by
  cases h with
  | nil => exact nofun
  | @cons k s _ _ sources _ hkey hv h =>
    refine List.forall_mem_append.2 ⟨passesOrWide_of_presents k hkey,
      List.forall_mem_cons.2 ⟨.inl ?_, List.forall_mem_append.2
        ⟨passesOrWide_of_presents s hv, passesOrWide_of_presentsEntries sources h⟩⟩⟩
    rw [kind_meaning_of_presents_string k hkey]
    rfl

end

mutual

/-- **A presentation without a refusal means the value.** -/
theorem meaning_of_presents (s : Source) {v : Value} (h : s.Presents v) (hk : v.WellKeyed)
    (hpass : ∀ b ∈ s.stops, b.refusal? = none) : s.meaning = v.untagged := by
  cases h with
  | unit | absent | bool | double | text => rfl
  | single h => exact congrArg Value.number (Binary.convert_of_same (by decide) h)
  | word h => exact congrArg Value.number (Binary.ofInt_of_isInteger (by decide) h)
  | wideInt h => cases hpass _ List.mem_cons_self
  | @char c s h =>
    refine congrArg Value.string ?_
    rw [← String.ofList_toList (s := s), h]
    rfl
  | @present inner _ h => exact meaning_of_presents inner h hk hpass
  | @sequence items _ tag h =>
    refine congrArg (Value.array _) ?_
    exact meaning_of_presentsItems items h (fun v hv => hk.part hv) (List.forall_mem_cons.1 hpass).2
  | @map sources entries tag h =>
    have hentries : meaningEntries sources = Value.untaggedEntries entries :=
      meaning_of_presentsEntries sources h (fun e he => hk.part (List.mem_map_of_mem he))
        (List.forall_mem_cons.1 hpass).2
    refine congrArg (Value.object _) ?_
    -- The keys of the value are distinct, so no entry replaces another.
    rw [hentries, ← Value.untaggedEntries_ofPairs, Entries.ofPairs_of_distinct (hk tag _ (.refl _))]

theorem meaning_of_presentsItems (items : List Source) {elements : List Value}
    (h : PresentsItems items elements) (hk : ∀ v ∈ elements, v.WellKeyed)
    (hpass : ∀ b ∈ stopsItems items, b.refusal? = none) :
    meaningItems items = Value.untaggedElements elements := by
  cases h with
  | nil => rfl
  | @cons s v items vs hv h =>
    obtain ⟨hkv, hk⟩ := List.forall_mem_cons.1 hk
    obtain ⟨hpassv, hpass⟩ := List.forall_mem_append.1 hpass
    rw [meaningItems, Value.untaggedElements, meaning_of_presents s hv hkv hpassv,
      meaning_of_presentsItems items h hk hpass]

theorem meaning_of_presentsEntries (sources : List (Source × Source))
    {entries : List (String × Value)} (h : PresentsEntries sources entries)
    (hk : ∀ e ∈ entries, e.2.WellKeyed)
    (hpass : ∀ b ∈ stopsEntries sources, b.refusal? = none) :
    meaningEntries sources = Value.untaggedEntries entries := by
  cases h with
  | nil => rfl
  | @cons k s key v sources entries hkey hv h =>
    obtain ⟨hkv, hk⟩ := List.forall_mem_cons.1 hk
    obtain ⟨hpassk, hpass⟩ := List.forall_mem_append.1 hpass
    obtain ⟨hpassv, hpass⟩ := List.forall_mem_append.1 (List.forall_mem_cons.1 hpass).2
    have hstring : (Value.string key).WellKeyed := Value.wellKeyed_of_parts_eq_nil rfl
    rw [meaningEntries, Value.untaggedEntries, meaning_of_presents k hkey hstring hpassk,
      meaning_of_presents s hv hkv hpassv, meaning_of_presentsEntries sources h hk hpass]
    rfl

end

/-- A presentation is read back if it is narrow. -/
theorem read_of_presents {s : Source} {v : Value} (h : s.Presents v) (hk : v.WellKeyed)
    (hn : s.Narrow) (serial : Nat) :
    ∃ u next, s.read serial = .ok (u, next) ∧ u.untagged = v.untagged := by
  have hpass : ∀ b ∈ s.stops, b.refusal? = none := by
    intro b hb
    rcases passesOrWide_of_presents s h b hb with hpass | ⟨signed, n, rfl⟩
    · exact hpass
    · exact absurd hb (hn signed n)
  obtain ⟨u, next, hread, hu⟩ := read_eq_ok (firstRefusal?_eq_none_iff.2 hpass) serial
  exact ⟨u, next, hread, hu.trans (meaning_of_presents s h hk hpass)⟩

/-- A presentation is refused for one of its wide integers if it has any. -/
theorem read_of_presents_of_not_narrow {s : Source} {v : Value} (h : s.Presents v)
    (hn : ¬ s.Narrow) (serial : Nat) :
    ∃ signed n, s.read serial = .error (.unsupported (.wideInt signed n)) := by
  obtain ⟨signed, n, hwide⟩ : ∃ signed n, Stop.unsupported (.wideInt signed n) ∈ s.stops := by
    simpa only [Narrow, not_forall, not_not] using hn
  cases hf : firstRefusal? s.stops with
  | none => cases firstRefusal?_eq_none_iff.1 hf _ hwide
  | some e =>
    obtain ⟨before, stop, after, hstops, hstop, -⟩ := firstRefusal?_eq_some_iff.1 hf
    have hmem : stop ∈ s.stops := by simp [hstops]
    rcases passesOrWide_of_presents s h stop hmem with hnone | ⟨signed, n, rfl⟩
    · cases hnone.symm.trans hstop
    · cases hstop
      exact ⟨signed, n, read_eq_error_iff.2 hf⟩

/-! ## Which values have a presentation -/

mutual

theorem isData_of_presents (s : Source) {v : Value} (h : s.Presents v) : v.IsData := by
  cases h with
  | @present inner _ h => exact isData_of_presents inner h
  | @sequence items _ tag h =>
    exact Value.isData_iff.2 ⟨⟨nofun, nofun⟩, isData_of_presentsItems items h⟩
  | @map sources _ tag h =>
    refine Value.isData_iff.2 ⟨⟨nofun, nofun⟩, fun u hu => ?_⟩
    obtain ⟨e, he, rfl⟩ := List.mem_map.1 hu
    exact isData_of_presentsEntries sources h e he
  | _ => exact Value.isData_iff.2 ⟨⟨nofun, nofun⟩, nofun⟩

theorem isData_of_presentsItems (items : List Source) {elements : List Value}
    (h : PresentsItems items elements) : ∀ v ∈ elements, v.IsData := by
  cases h with
  | nil => exact nofun
  | @cons s _ items _ hv h =>
    exact List.forall_mem_cons.2 ⟨isData_of_presents s hv, isData_of_presentsItems items h⟩

theorem isData_of_presentsEntries (sources : List (Source × Source))
    {entries : List (String × Value)} (h : PresentsEntries sources entries) :
    ∀ e ∈ entries, e.2.IsData := by
  cases h with
  | nil => exact nofun
  | @cons _ s _ _ sources _ _ hv h =>
    exact List.forall_mem_cons.2 ⟨isData_of_presents s hv, isData_of_presentsEntries sources h⟩

end

theorem narrow_sequence_cons {s : Source} {items : List Source} :
    (sequence (s :: items)).Narrow ↔ s.Narrow ∧ (sequence items).Narrow := by
  simp [Narrow, stops, stopsItems, forall_and]

theorem narrow_map_cons {k s : Source} {sources : List (Source × Source)} :
    (map ((k, s) :: sources)).Narrow ↔ k.Narrow ∧ s.Narrow ∧ (map sources).Narrow := by
  simp [Narrow, stops, stopsEntries, forall_and]

theorem exists_presentsItems {elements : List Value}
    (h : ∀ v ∈ elements, ∃ s : Source, s.Presents v ∧ s.Narrow) :
    ∃ items, PresentsItems items elements ∧ (sequence items).Narrow := by
  induction elements with
  | nil => exact ⟨[], .nil, by simp [Narrow, stops, stopsItems]⟩
  | cons v vs ih =>
    obtain ⟨⟨s, hs, hnarrow⟩, h⟩ := List.forall_mem_cons.1 h
    obtain ⟨items, hitems, hrest⟩ := ih h
    exact ⟨s :: items, .cons hs hitems, narrow_sequence_cons.2 ⟨hnarrow, hrest⟩⟩

theorem exists_presentsEntries {entries : List (String × Value)}
    (h : ∀ e ∈ entries, ∃ s : Source, s.Presents e.2 ∧ s.Narrow) :
    ∃ sources, PresentsEntries sources entries ∧ (map sources).Narrow := by
  induction entries with
  | nil => exact ⟨[], .nil, by simp [Narrow, stops, stopsEntries]⟩
  | cons e es ih =>
    obtain ⟨⟨s, hs, hnarrow⟩, h⟩ := List.forall_mem_cons.1 h
    obtain ⟨sources, hsources, hrest⟩ := ih h
    have hkey : (text .owned e.1).Narrow := by simp [Narrow, stops]
    exact ⟨(.text .owned e.1, s) :: sources, .cons (.text _ _) hs hsources,
      narrow_map_cons.2 ⟨hkey, hnarrow, hrest⟩⟩

/-- **Data can be presented, and nothing else.** -/
theorem exists_presents_iff {v : Value} :
    (∃ s : Source, s.Presents v ∧ s.Narrow) ↔ v.IsData := by
  constructor
  · rintro ⟨s, h, -⟩
    exact isData_of_presents s h
  · intro h
    induction v using Value.parts_induction with
    | h v ih =>
      obtain ⟨⟨hundefined, hhost⟩, hp⟩ := Value.isData_iff.1 h
      have ih : ∀ u ∈ v.parts, ∃ s : Source, s.Presents u ∧ s.Narrow :=
        fun u hu => ih u hu (hp u hu)
      cases v with
      | undefined => exact absurd rfl hundefined
      | host => exact absurd rfl hhost
      | null => exact ⟨_, .unit, by simp [Narrow, stops]⟩
      | bool b => exact ⟨_, .bool b, by simp [Narrow, stops]⟩
      | number x => exact ⟨_, .double x, by simp [Narrow, stops]⟩
      | string s => exact ⟨_, .text .owned s, by simp [Narrow, stops]⟩
      | array tag elements =>
        obtain ⟨items, hitems, hnarrow⟩ := exists_presentsItems ih
        exact ⟨_, .sequence tag hitems, hnarrow⟩
      | object tag entries =>
        have he : ∀ e ∈ entries, ∃ s : Source, s.Presents e.2 ∧ s.Narrow :=
          fun e he => ih e.2 (List.mem_map_of_mem he)
        obtain ⟨sources, hsources, hnarrow⟩ := exists_presentsEntries he
        exact ⟨_, .map tag hsources, hnarrow⟩

/-- A value is read back from what presents it. Whatever the presentation, if every integer in it
fits a word then reading succeeds and gives the value with new identities: the same numbers, the
same elements and the same keys, in the same order. A presentation with a wider integer is refused
for one of those. What is presented is data, and all data has a presentation, and a narrow one. A
single presents the double that it is widened to, which is the same number, and no integer presents
a zero with a minus sign. -/
structure ReadBack (v : Value) : Prop where
  narrow : ∀ (s : Source) (serial : Nat), s.Presents v → s.Narrow →
    ∃ u next, s.read serial = .ok (u, next) ∧ u.untagged = v.untagged
  wide : ∀ (s : Source) (serial : Nat), s.Presents v → ¬ s.Narrow →
    ∃ signed n, s.read serial = .error (.unsupported (.wideInt signed n))
  isData : ∀ s : Source, s.Presents v → v.IsData
  presented : v.IsData → ∃ s : Source, s.Presents v ∧ s.Narrow
  single_iff : ∀ (x : Single) (y : Double), (single x).Presents (.number y) ↔ x.convert = y
  word_ne_zero : ∀ w : Word, ¬ (word w).Presents (Value.zero true)
  wideInt_ne_zero : ∀ (signed : Bool) (n : Int), ¬ (wideInt signed n).Presents (Value.zero true)

/-- **A presented value is read back.** -/
theorem read_presented {v : Value} (hk : v.WellKeyed) : ReadBack v where
  narrow _ serial h hn := read_of_presents h hk hn serial
  wide _ serial h hn := read_of_presents_of_not_narrow h hn serial
  isData s h := isData_of_presents s h
  presented := exists_presents_iff.2
  single_iff x y := by
    rw [← Binary.same_iff_convert]
    exact ⟨fun h => by cases h with | single h => exact h, .single⟩
  word_ne_zero w h := by
    cases h with
    | word h => exact Binary.not_isInteger_negative_zero rfl _ h
  wideInt_ne_zero signed n h := by
    cases h with
    | wideInt h => exact Binary.not_isInteger_negative_zero rfl _ h

/-- The double one. -/
def one : Double := .finite false ⟨1023 * 2 ^ (52 : Nat), by decide⟩

theorem isInteger_one : one.IsInteger 1 := ⟨rfl, by decide +kernel⟩

/-- A number, a text and nothing, under two keys. -/
def parcel : Value :=
  .object ⟨4⟩ [("size", .number one), ("tags", .array ⟨7⟩ [.string "é", .null])]

/-- The same in a format that has bytes, characters and optional data. -/
def parcelSource : Source :=
  .map [(.present (.text .owned "size"), .word (.uint8 1)),
    (.text .borrowed "tags", .present (.present (.sequence [.char 'é', .absent])))]

theorem read_presented_parcel :
    parcel.WellKeyed ∧ parcelSource.Presents parcel ∧ parcelSource.Narrow ∧
    ∃ u next, parcelSource.read 0 = .ok (u, next) ∧ u.untagged = parcel.untagged := by
  have hdistinct : ["size", "tags"].Nodup := by decide
  have hk : parcel.WellKeyed := by
    refine Value.wellKeyed_object_iff.2 ⟨hdistinct, List.forall_mem_cons.2
      ⟨Value.wellKeyed_of_parts_eq_nil rfl, List.forall_mem_singleton.2 ?_⟩⟩
    exact Value.wellKeyed_array_iff.2 (List.forall_mem_cons.2
      ⟨Value.wellKeyed_of_parts_eq_nil rfl,
        List.forall_mem_singleton.2 (Value.wellKeyed_of_parts_eq_nil rfl)⟩)
  have hp : parcelSource.Presents parcel :=
    .map _ (.cons (.present (.text _ _)) (.word isInteger_one) (.cons (.text _ _)
      (.present (.present (.sequence _ (.cons (.char rfl) (.cons .absent .nil))))) .nil))
  have hn : parcelSource.Narrow := by simp [Narrow, parcelSource, stops, stopsItems, stopsEntries]
  exact ⟨hk, hp, hn, (read_presented hk).narrow parcelSource 0 hp hn⟩

/-- **An integer of 128 bits is refused, also where a word would hold it.** -/
theorem read_wide_one :
    (Value.number one).WellKeyed ∧ (wideInt true 1).Presents (.number one) ∧
      ∀ serial, (wideInt true 1).read serial = .error (.unsupported (.wideInt true 1)) :=
  ⟨Value.wellKeyed_of_parts_eq_nil rfl, .wideInt isInteger_one, fun _ => rfl⟩

end Source

end ShapeCheck
