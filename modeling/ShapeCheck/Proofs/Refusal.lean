import ShapeCheck.Proofs.Meaning
/-!
# Refusals

`Source.stops` lists what reading comes to, in document order: every node, and for every map entry,
after its key and before its value, the check of the key. What is inside a newtype is not come to.
Some stops refuse. Main theorem `read_first_refusal`: reading fails exactly if some stop refuses,
with the refusal of the first one whatever comes after it, and else reads everything.
-/
namespace ShapeCheck

/-- What reading comes to. -/
inductive Stop where
  /-- A node for a value of this kind: a scalar, or the beginning of an array or an object. -/
  | value (kind : Kind)
  | unsupported (node : Unsupported)
  | failure (message : String)
  /-- A key of this kind has been read. -/
  | key (kind : Kind)
deriving DecidableEq, Repr

namespace Stop

/-- Why the stop is the last one, if it is. -/
def refusal? : Stop → Option SourceError
  | .value _ => none
  | .unsupported node => some (.unsupported node)
  | .failure message => some (.failure message)
  | .key kind =>
    if kind = .null ∨ kind = .array ∨ kind = .object then some (.unsupportedKey kind) else none

end Stop

/-- The refusal of the first stop that refuses. -/
def firstRefusal? (stops : List Stop) : Option SourceError := stops.findSome? Stop.refusal?

theorem firstRefusal?_append (before after : List Stop) :
    firstRefusal? (before ++ after) = (firstRefusal? before).or (firstRefusal? after) :=
  List.findSome?_append

theorem firstRefusal?_cons_of_none {stop : Stop} (h : stop.refusal? = none) (stops : List Stop) :
    firstRefusal? (stop :: stops) = firstRefusal? stops := by
  simp [firstRefusal?, h]

theorem firstRefusal?_eq_some_iff {stops : List Stop} {e : SourceError} :
    firstRefusal? stops = some e ↔ ∃ before stop after, stops = before ++ stop :: after ∧
      stop.refusal? = some e ∧ ∀ b ∈ before, b.refusal? = none :=
  List.findSome?_eq_some_iff

theorem firstRefusal?_eq_none_iff {stops : List Stop} :
    firstRefusal? stops = none ↔ ∀ b ∈ stops, b.refusal? = none :=
  List.findSome?_eq_none_iff

/-- What comes after a refusal does not matter. -/
theorem firstRefusal?_mono {seen stops : List Stop} {e : SourceError}
    (h : firstRefusal? seen = some e) (hp : seen <+: stops) : firstRefusal? stops = some e := by
  obtain ⟨after, rfl⟩ := hp
  rw [firstRefusal?_append, h, Option.some_or]

namespace Source

mutual

/-- What reading a source comes to, in document order, if nothing is refused. -/
def stops : Source → List Stop
  | .bool _ => [.value .bool]
  | .word _ => [.value .number]
  | .single _ => [.value .number]
  | .double _ => [.value .number]
  | .char _ => [.value .string]
  | .text _ _ => [.value .string]
  | .absent => [.value .null]
  | .present inner => stops inner
  | .unit => [.value .null]
  | .sequence items => .value .array :: stopsItems items
  | .map entries => .value .object :: stopsEntries entries
  | .wideInt signed n => [.unsupported (.wideInt signed n)]
  | .bytes _ _ => [.unsupported .bytes]
  | .newtype _ => [.unsupported .newtype]
  | .enumeration _ => [.unsupported .enumeration]
  | .failure message => [.failure message]

def stopsItems : List Source → List Stop
  | [] => []
  | item :: items => stops item ++ stopsItems items

def stopsEntries : List (Source × Source) → List Stop
  | [] => []
  | (key, value) :: entries =>
    stops key ++ .key key.meaning.kind :: (stops value ++ stopsEntries entries)

end

/-- The computation fails with the first refusal among the stops, and if none refuses it gives what
is expected. -/
def Meets {α β : Type} (x : Reading α) (stops : List Stop) (view : α → β) (expected : β) : Prop :=
  ∀ serial, match x serial with
    | .error e => firstRefusal? stops = some e
    | .ok (a, _) => firstRefusal? stops = none ∧ view a = expected

namespace Meets

variable {α β γ δ : Type} {x : Reading α} {stops after : List Stop} {stop : Stop}
  {view : α → β} {expected : β} {view' : γ → δ} {expected' : δ}

theorem pure {a : α} (h : view a = expected) : Meets (Pure.pure a) [] view expected :=
  fun _ => ⟨rfl, h⟩

theorem refuse {e : SourceError} (h : stop.refusal? = some e) :
    Meets (throw e) [stop] view expected := by
  intro serial
  show firstRefusal? [stop] = some e
  simp [firstRefusal?, h]

theorem pass (h : stop.refusal? = none) (hx : Meets x stops view expected) :
    Meets x (stop :: stops) view expected := by
  intro serial
  rw [firstRefusal?_cons_of_none h]
  exact hx serial

/-- What comes next is only met if nothing was refused before. -/
theorem bind {f : α → Reading γ} (hx : Meets x stops view expected)
    (hf : ∀ a, firstRefusal? stops = none → view a = expected →
      Meets (f a) after view' expected') :
    Meets (x >>= f) (stops ++ after) view' expected' := by
  intro serial
  have hx := hx serial
  have hbind : (x >>= f) serial = (x serial >>= fun r => f r.1 r.2) := rfl
  rw [firstRefusal?_append, hbind]
  cases hr : x serial with
  | error e =>
    rw [hr] at hx
    show (firstRefusal? stops).or _ = some e
    rw [hx, Option.some_or]
  | ok r =>
    rw [hr] at hx
    obtain ⟨hnone, hview⟩ := hx
    rw [hnone, Option.none_or]
    exact hf r.1 hnone hview r.2

/-- What is made at the end comes to no stop of its own. -/
theorem finish {f : α → Reading γ} (hx : Meets x stops view expected)
    (hf : ∀ a, view a = expected → Meets (f a) [] view' expected') :
    Meets (x >>= f) stops view' expected' := by
  rw [← List.append_nil stops]
  exact hx.bind fun a _ => hf a

end Meets

/-! ## Reading meets its stops -/

theorem meets_newArray {vs expected : List Value} (h : Value.untaggedElements vs = expected) :
    Meets (Value.newArray vs) [] Value.untagged (.array ⟨0⟩ expected) :=
  fun _ => ⟨rfl, congrArg (Value.array _) h⟩

theorem meets_newObject {pairs expected : List (String × Value)}
    (h : Value.untaggedEntries pairs = expected) :
    Meets (Value.newObject pairs) [] Value.untagged (.object ⟨0⟩ (Entries.ofPairs expected)) :=
  fun _ => ⟨rfl, congrArg (Value.object _) (by rw [Value.untaggedEntries_ofPairs, h])⟩

/-- The check of a key goes by its kind. No value that was read is `undefined` or a host object. -/
theorem meets_keyText {v : Value} (h : v.kind ≠ .undefined ∧ v.kind ≠ .host) :
    Meets (v.keyText : Reading String) [.key v.kind] id v.keyString := by
  cases v with
  | undefined | host => simp [Value.kind] at h
  | null | array | object => exact .refuse rfl
  | _ => exact .pass rfl (.pure rfl)

theorem kind_meaning {s : Source} (h : firstRefusal? s.stops = none) :
    s.meaning.kind ≠ .undefined ∧ s.meaning.kind ≠ .host := by
  cases s with
  | present inner => exact kind_meaning (s := inner) h
  | wideInt | bytes | newtype | enumeration | failure => cases h
  | _ => exact ⟨nofun, nofun⟩

mutual

/-- **Reading fails with the first refusal, and without one it gives the meaning of the source.** -/
theorem meets_read (s : Source) : Meets s.read s.stops Value.untagged s.meaning := by
  cases s with
  | present inner => exact meets_read inner
  | sequence items => exact .pass rfl ((meets_readItems items).finish fun _ => meets_newArray)
  | map entries => exact .pass rfl ((meets_readEntries entries).finish fun _ => meets_newObject)
  | wideInt | bytes | newtype | enumeration | failure => exact .refuse rfl
  | _ => exact .pass rfl (.pure rfl)

theorem meets_readItems (items : List Source) :
    Meets (readItems items) (stopsItems items) Value.untaggedElements (meaningItems items) := by
  cases items with
  | nil => exact .pure rfl
  | cons item items =>
    refine (meets_read item).bind fun v _ hv => ?_
    refine (meets_readItems items).finish fun vs hvs => .pure ?_
    rw [Value.untaggedElements, hv, hvs, meaningItems]

theorem meets_readEntries (entries : List (Source × Source)) :
    Meets (readEntries entries) (stopsEntries entries) Value.untaggedEntries
      (meaningEntries entries) := by
  match entries with
  | [] => exact .pure rfl
  | (key, value) :: entries =>
    refine (meets_read key).bind fun k hkey hk => ?_
    have hcheck : Meets (k.keyText : Reading String) [.key key.meaning.kind] id
        key.meaning.keyString := by
      rw [← hk, Value.kind_untagged, Value.keyString_untagged]
      refine meets_keyText ?_
      rw [← Value.kind_untagged, hk]
      exact kind_meaning hkey
    refine hcheck.bind fun text _ htext => ?_
    refine (meets_read value).bind fun v _ hv => ?_
    refine (meets_readEntries entries).finish fun rest hrest => .pure ?_
    rw [Value.untaggedEntries, hv, hrest, meaningEntries, ← htext, id]

end

theorem read_eq_error_iff {s : Source} {serial : Nat} {e : SourceError} :
    s.read serial = .error e ↔ firstRefusal? s.stops = some e := by
  have h := meets_read s serial
  cases hr : s.read serial with
  | error e' =>
    rw [hr] at h
    rw [h, Option.some.injEq, Except.error.injEq]
  | ok r =>
    rw [hr] at h
    rw [h.1]
    exact ⟨nofun, nofun⟩

theorem read_eq_ok {s : Source} (h : firstRefusal? s.stops = none) (serial : Nat) :
    ∃ v next, s.read serial = .ok (v, next) ∧ v.untagged = s.meaning := by
  have hr := meets_read s serial
  cases hs : s.read serial with
  | error e =>
    rw [hs] at hr
    cases h.symm.trans hr
  | ok r =>
    rw [hs] at hr
    exact ⟨r.1, r.2, rfl, hr.2⟩

/-! ## What comes after a refusal -/

theorem stopsItems_append (before after : List Source) :
    stopsItems (before ++ after) = stopsItems before ++ stopsItems after := by
  induction before with
  | nil => rfl
  | cons item before ih => rw [List.cons_append, stopsItems, ih, stopsItems, List.append_assoc]

theorem stopsEntries_append (before after : List (Source × Source)) :
    stopsEntries (before ++ after) = stopsEntries before ++ stopsEntries after := by
  induction before with
  | nil => rfl
  | cons e before ih =>
    obtain ⟨key, value⟩ := e
    simp only [List.cons_append, stopsEntries, ih, List.append_assoc]

/-- The two sources are the same up to a position that is refused, that position included: a node,
or the check of a key. To the right of it each has what it has. -/
inductive SameToRefusal : Source → Source → Prop where
  | node {s : Source} {stop : Stop} {e : SourceError} (hs : s.stops = [stop])
      (h : stop.refusal? = some e) : SameToRefusal s s
  | check {key : Source} {e : SourceError} (h : (Stop.key key.meaning.kind).refusal? = some e)
      (before : List (Source × Source)) (value value' : Source)
      (after after' : List (Source × Source)) :
      SameToRefusal (.map (before ++ (key, value) :: after))
        (.map (before ++ (key, value') :: after'))
  | present {s t : Source} (h : SameToRefusal s t) : SameToRefusal (.present s) (.present t)
  | item {s t : Source} (h : SameToRefusal s t) (before after after' : List Source) :
      SameToRefusal (.sequence (before ++ s :: after)) (.sequence (before ++ t :: after'))
  | key {key key' : Source} (h : SameToRefusal key key') (before : List (Source × Source))
      (value value' : Source) (after after' : List (Source × Source)) :
      SameToRefusal (.map (before ++ (key, value) :: after))
        (.map (before ++ (key', value') :: after'))
  | value {value value' : Source} (h : SameToRefusal value value')
      (before : List (Source × Source)) (key : Source) (after after' : List (Source × Source)) :
      SameToRefusal (.map (before ++ (key, value) :: after))
        (.map (before ++ (key, value') :: after'))

/-- Two lists of stops are the same until one refuses. -/
def RefuseAlike (stops stops' : List Stop) : Prop :=
  ∃ seen e, seen <+: stops ∧ seen <+: stops' ∧ firstRefusal? seen = some e

theorem refuseAlike_singleton {stop : Stop} {e : SourceError} (h : stop.refusal? = some e) :
    RefuseAlike [stop] [stop] :=
  ⟨[stop], e, List.prefix_rfl, List.prefix_rfl, by simp [firstRefusal?, h]⟩

/-- They still are after the same stops, whatever follows. -/
theorem RefuseAlike.between {stops stops' : List Stop} (h : RefuseAlike stops stops')
    (before after after' : List Stop) :
    RefuseAlike (before ++ (stops ++ after)) (before ++ (stops' ++ after')) := by
  obtain ⟨seen, e, hs, ht, he⟩ := h
  have hp : ∀ {rest rest'}, seen <+: rest → before ++ seen <+: before ++ (rest ++ rest') :=
    fun hr => (List.prefix_append_right_inj before).2 (hr.trans (List.prefix_append _ _))
  cases hb : firstRefusal? before with
  | none => exact ⟨_, e, hp hs, hp ht, by rw [firstRefusal?_append, hb, Option.none_or, he]⟩
  | some e' => exact ⟨_, e', hp hs, hp ht, by rw [firstRefusal?_append, hb, Option.some_or]⟩

theorem stops_sequence (before after : List Source) (s : Source) :
    (sequence (before ++ s :: after)).stops =
      (.value .array :: stopsItems before) ++ (s.stops ++ stopsItems after) := by
  rw [stops, stopsItems_append, stopsItems, List.cons_append]

theorem stops_map (before after : List (Source × Source)) (key value : Source) :
    (map (before ++ (key, value) :: after)).stops =
      (.value .object :: stopsEntries before) ++ (key.stops ++
        ([.key key.meaning.kind] ++ (value.stops ++ stopsEntries after))) := by
  rw [stops, stopsEntries_append, stopsEntries, List.cons_append]
  rfl

theorem SameToRefusal.refuseAlike {s t : Source} (h : SameToRefusal s t) :
    RefuseAlike s.stops t.stops := by
  induction h with
  | node hs h => exact hs ▸ refuseAlike_singleton h
  | @check key _ h before value value' after after' =>
    have hb := (refuseAlike_singleton h).between
      (.value .object :: stopsEntries before ++ key.stops)
      (value.stops ++ stopsEntries after) (value'.stops ++ stopsEntries after')
    simpa only [stops_map, List.append_assoc] using hb
  | present _ ih => exact ih
  | item _ before after after' ih =>
    rw [stops_sequence, stops_sequence]
    exact ih.between _ _ _
  | key _ before value value' after after' ih =>
    rw [stops_map, stops_map]
    exact ih.between _ _ _
  | value _ before key after after' ih =>
    have hb := ih.between
      (.value .object :: stopsEntries before ++ (key.stops ++ [.key key.meaning.kind]))
      (stopsEntries after) (stopsEntries after')
    simpa only [stops_map, List.append_assoc] using hb

/-- Reading goes up to the first refusal. A source is refused exactly if one of its stops refuses,
with the refusal of the first one in document order. Every source that comes to the same stops up to
that one is refused alike, so nothing to its right matters; in particular two sources that are the
same up to a refused position have the same refusal. A source without a refusal is read to its
meaning, which has an element for every item of a sequence and takes every entry of a map. A key is
refused in these words. -/
structure ReadsToRefusal (s : Source) (serial : Nat) : Prop where
  error_iff : ∀ e, s.read serial = .error e ↔ ∃ before stop after,
    s.stops = before ++ stop :: after ∧ stop.refusal? = some e ∧ ∀ b ∈ before, b.refusal? = none
  unseen : ∀ before stop after e, s.stops = before ++ stop :: after → stop.refusal? = some e →
    (∀ b ∈ before, b.refusal? = none) →
    ∀ (t : Source) (serial' : Nat), before ++ [stop] <+: t.stops → t.read serial' = .error e
  same : ∀ (t : Source) (serial' : Nat), SameToRefusal s t →
    ∃ e, s.read serial = .error e ∧ t.read serial' = .error e
  meaning : (∀ b ∈ s.stops, b.refusal? = none) →
    ∃ v next, s.read serial = .ok (v, next) ∧ v.untagged = s.meaning
  items : ∀ items, (sequence items).meaning = .array ⟨0⟩ (items.map Source.meaning)
  entries : ∀ entries, (map entries).meaning = .object ⟨0⟩ (Entries.ofPairs
    (entries.map fun e => (e.1.meaning.keyString, e.2.meaning)))
  message : ∀ kind : Kind, (SourceError.unsupportedKey kind).message =
    "unsupported " ++ kind.name ++ " map key"

/-- **Reading stops at the first refusal.** -/
theorem read_first_refusal (s : Source) (serial : Nat) : s.ReadsToRefusal serial where
  error_iff _ := read_eq_error_iff.trans firstRefusal?_eq_some_iff
  unseen before stop _ e _ hstop hbefore t serial' hp := by
    have hfirst : firstRefusal? (before ++ [stop]) = some e :=
      firstRefusal?_eq_some_iff.2 ⟨before, stop, [], rfl, hstop, hbefore⟩
    exact read_eq_error_iff.2 (firstRefusal?_mono hfirst hp)
  same t serial' h := by
    obtain ⟨seen, e, hs, ht, he⟩ := h.refuseAlike
    exact ⟨e, read_eq_error_iff.2 (firstRefusal?_mono he hs),
      read_eq_error_iff.2 (firstRefusal?_mono he ht)⟩
  meaning h := read_eq_ok (firstRefusal?_eq_none_iff.2 h) serial
  items items := by rw [Source.meaning, meaningItems_eq_map]
  entries entries := by rw [Source.meaning, meaningEntries_eq_map]
  message _ := rfl

/-- An array as a key, after nothing and before whatever comes. -/
def misused (value : Source) (after : List Source) : Source :=
  .sequence ([.unit] ++ .map [(.sequence [], value)] :: after)

/-- An array as a key is refused before its value is, and before what comes after its map. -/
theorem read_first_refusal_misused :
    SameToRefusal (misused (.bytes false "") [.failure "torn"]) (misused .unit []) ∧
    (misused (.bytes false "") [.failure "torn"]).read 0 = .error (.unsupportedKey .array) ∧
    (misused .unit []).read 7 = .error (.unsupportedKey .array) ∧
    (∀ b ∈ (sequence [.unit, .char 'a']).stops, b.refusal? = none) ∧
    ∃ v next, (sequence [.unit, .char 'a']).read 7 = .ok (v, next) ∧
      v.untagged = .array ⟨0⟩ [.null, .string "a"] := by
  have hsame : SameToRefusal (misused (.bytes false "") [.failure "torn"]) (misused .unit []) :=
    .item (.check rfl [] _ _ [] []) [.unit] _ _
  have hread : (misused (.bytes false "") [.failure "torn"]).read 0 =
      .error (.unsupportedKey .array) := by
    refine ((read_first_refusal _ 0).error_iff _).2 ⟨[.value .array, .value .null, .value .object,
      .value .array], .key .array, [.unsupported .bytes, .failure "torn"], rfl, rfl, ?_⟩
    decide
  obtain ⟨e, he, hother⟩ := (read_first_refusal _ 0).same _ 7 hsame
  obtain rfl := Except.error.inj (hread.symm.trans he)
  have hpasses : ∀ b ∈ (sequence [.unit, .char 'a']).stops, b.refusal? = none := by decide
  exact ⟨hsame, hread, hother, hpasses, (read_first_refusal _ 7).meaning hpasses⟩

/-- What is refused inside a key comes first. -/
example (serial : Nat) : (map [(.sequence [.newtype .unit], .unit)]).read serial =
    .error (.unsupported .newtype) := rfl

end Source

end ShapeCheck
