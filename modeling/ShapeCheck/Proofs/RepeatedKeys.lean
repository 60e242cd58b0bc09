import ShapeCheck.Proofs.Connective
import ShapeCheck.Proofs.Reach
import ShapeCheck.Proofs.Refusal
/-!
# Repeated keys

An object is made of pairs, at once or entry by entry as a source is read. Main theorem
`repeated_keys`: either way, of a key that is given more than once the first place and the last
value are kept (`Value.Gathers`), and nothing depends on the values in between.
-/
namespace ShapeCheck

open Entries

namespace Value

/-- The object has what the pairs give: every key once, where it is given first, with the value that
is given to it last. -/
structure Gathers (o : Value) (pairs : List (String × Value)) : Prop where
  kind : o.kind = .object
  distinct : Entries.Distinct o.entries
  keys : Entries.keys o.entries = (Entries.keys pairs).eraseDups
  size : o.entries.length = (Entries.keys pairs).eraseDups.length
  last : ∀ key value, LastGiven pairs key value → o.field key = value
  missing : ∀ key, key ∉ Entries.keys pairs → o.field key = .undefined

variable {o p : Value} {pairs others : List (String × Value)}

theorem gathers_object (tag : Tag) (pairs : List (String × Value)) :
    (object tag (ofPairs pairs)).Gathers pairs where
  kind := rfl
  distinct := distinct_ofPairs pairs
  keys := keys_ofPairs pairs
  size := length_ofPairs pairs
  last key value h := by rw [field, (get?_ofPairs pairs key value).2 h, Option.getD_some]
  missing key h := by rw [field, get?_ofPairs_eq_none_iff.2 h, Option.getD_none]

/-- The pairs say all about the entries. -/
theorem Gathers.entries_eq (h : o.Gathers pairs) : o.entries = ofPairs pairs := by
  refine eq_of_keys_eq h.distinct (h.keys.trans (keys_ofPairs pairs).symm) fun key => ?_
  by_cases hkey : key ∈ Entries.keys pairs
  · obtain ⟨value, hvalue⟩ := exists_get?_ofPairs_of_mem_keys hkey
    have hmem : key ∈ Entries.keys o.entries := by rw [h.keys]; exact List.mem_eraseDups.2 hkey
    obtain ⟨u, hu⟩ := exists_get?_of_mem_keys hmem
    have hfield : o.field key = value := h.last key value ((get?_ofPairs pairs key value).1 hvalue)
    rw [field_eq, hu, Option.getD_some] at hfield
    rw [hu, hvalue, hfield]
  · have hmem : key ∉ Entries.keys o.entries := by
      rw [h.keys]
      exact mt List.mem_eraseDups.1 hkey
    rw [get?_eq_none_iff.2 hmem, get?_ofPairs_eq_none_iff.2 hkey]

/-- A container validator runs on the value that each key was given last, and on nothing else. -/
theorem Gathers.run_object (h : o.Gathers pairs) (w : Validator) :
    (Validator.object w).run o = Connective.and.runs
      ((Entries.keys pairs).eraseDups.map fun key => w.run (o.field key)) := by
  rw [← h.keys]
  have hd : Distinct o.entries := h.distinct
  cases o with
  | object tag entries => exact Validator.run_object_of_distinct w tag hd
  | _ => cases h.kind

end Value

namespace Source

/-- Reading the source can give the value. -/
def Reads (s : Source) (v : Value) : Prop := ∃ serial next, s.read serial = .ok (v, next)

variable {s : Source} {v : Value}

theorem Reads.untagged_eq_meaning (h : s.Reads v) : v.untagged = s.meaning := by
  obtain ⟨serial, next, h⟩ := h
  have hr := meets_read s serial
  rw [h] at hr
  exact hr.2

/-- A source that can be read can be read at any time. -/
theorem Reads.again (h : s.Reads v) (serial : Nat) : ∃ u next, s.read serial = .ok (u, next) := by
  obtain ⟨serial', next', h⟩ := h
  have hr := meets_read s serial'
  rw [h] at hr
  obtain ⟨u, next, hu, -⟩ := read_eq_ok hr.1 serial
  exact ⟨u, next, hu⟩

/-- A source of a key is read to that key at any time. -/
theorem Reads.key {k : Value} {text : String} (h : s.Reads k) (hk : k.keyText = .ok text)
    (serial : Nat) : ∃ next, s.read serial = .ok (k, next) := by
  obtain ⟨u, next, hu⟩ := h.again serial
  have hmeaning : u.untagged = k.untagged :=
    (untagged_eq_meaning ⟨serial, next, hu⟩).trans h.untagged_eq_meaning.symm
  have heq : u = k := by
    cases k with
    | bool | number | string =>
      cases u <;> cases hmeaning
      rfl
    | _ => cases hk
  exact ⟨next, heq ▸ hu⟩

/-- Reading the source gives a key with this text. -/
def ReadsKey (s : Source) (text : String) : Prop := ∃ k, s.Reads k ∧ k.keyText = .ok text

theorem ReadsKey.unique {text text' : String} (h : s.ReadsKey text) (h' : s.ReadsKey text') :
    text = text' := by
  obtain ⟨k, hk, htext⟩ := h
  obtain ⟨k', hk', htext'⟩ := h'
  obtain ⟨next, hread⟩ := hk.key htext 0
  obtain ⟨next', hread'⟩ := hk'.key htext' 0
  rw [hread] at hread'
  cases hread'
  rw [htext] at htext'
  exact Except.ok.inj htext'

/-! ## Reading entry by entry -/

/-- Reads entries, each inserted as soon as it has been read. -/
def readInto (es : Entries Value) : List (Source × Source) → Reading (Entries Value)
  | [] => return es
  | (key, value) :: sources => do
    let k ← key.read
    let text ← k.keyText
    let v ← value.read
    readInto (Entries.insert es text v) sources

theorem readInto_eq (es : Entries Value) (sources : List (Source × Source)) :
    readInto es sources = do
      let pairs ← readEntries sources
      return pairs.foldl (fun es p => Entries.insert es p.1 p.2) es := by
  induction sources generalizing es with
  | nil => rw [readInto, readEntries, pure_bind, List.foldl_nil]
  | cons s sources ih =>
    obtain ⟨key, value⟩ := s
    simp only [readInto, readEntries, ih, bind_assoc, pure_bind, List.foldl_cons]

/-- **Reading a map inserts one entry after another.** -/
theorem read_map (sources : List (Source × Source)) :
    (map sources).read = do
      let entries ← readInto [] sources
      return .object (← freshTag) entries := by
  simp only [read, readInto_eq, Value.newObject, ofPairs_eq_insertAll, insertAll, bind_assoc,
    pure_bind]

theorem bind_of_eq_ok {α β : Type} {x : Reading α} {f : α → Reading β} {serial next : Nat} {a : α}
    (h : x serial = .ok (a, next)) : (x >>= f) serial = f a next := by
  show (x serial >>= fun r => f r.1 r.2) = _
  rw [h]
  rfl

/-- Each source of an entry reads to the pair at its place. -/
def ReadsPairs (sources : List (Source × Source)) (pairs : List (String × Value)) : Prop :=
  List.Forall₂ (fun s p => s.1.Reads (.string p.1) ∧ s.2.Reads p.2) sources pairs

/-- The same for keys that need not be strings. -/
def ReadsEntries (sources : List (Source × Source)) (pairs : List (String × Value)) : Prop :=
  List.Forall₂ (fun s p => s.1.ReadsKey p.1 ∧ s.2.Reads p.2) sources pairs

theorem readEntries_eq_ok {sources : List (Source × Source)}
    (h : ∀ s ∈ sources, (∃ text, s.1.ReadsKey text) ∧ ∃ v, s.2.Reads v) (serial : Nat) :
    ∃ pairs next, readEntries sources serial = .ok (pairs, next) ∧ ReadsEntries sources pairs := by
  induction sources generalizing serial with
  | nil => exact ⟨[], serial, rfl, .nil⟩
  | cons s sources ih =>
    obtain ⟨key, value⟩ := s
    obtain ⟨⟨⟨text, k, hkey, htext⟩, v, hvalue⟩, h⟩ := List.forall_mem_cons.1 h
    obtain ⟨keyed, hk⟩ := hkey.key htext serial
    obtain ⟨u, valued, hu⟩ := hvalue.again keyed
    obtain ⟨pairs, next, hpairs, hreads⟩ := ih h valued
    have hcheck : (k.keyText : Reading String) keyed = .ok (text, keyed) := by
      rw [htext]
      rfl
    refine ⟨(text, u) :: pairs, next, ?_, .cons ⟨⟨k, hkey, htext⟩, keyed, valued, hu⟩ hreads⟩
    rw [readEntries, bind_of_eq_ok hk, bind_of_eq_ok hcheck, bind_of_eq_ok hu,
      bind_of_eq_ok hpairs]
    rfl

/-- **A map whose keys and values can be read is read**, to what the pairs of their texts and values
give. -/
theorem read_map_entries {sources : List (Source × Source)}
    (h : ∀ s ∈ sources, (∃ text, s.1.ReadsKey text) ∧ ∃ v, s.2.Reads v) (serial : Nat) :
    ∃ pairs tag next, ReadsEntries sources pairs ∧
      (map sources).read serial = .ok (.object tag (ofPairs pairs), next) := by
  obtain ⟨pairs, next, hpairs, hreads⟩ := readEntries_eq_ok h serial
  refine ⟨pairs, ⟨next⟩, next + 1, hreads, ?_⟩
  rw [read, bind_of_eq_ok hpairs]
  rfl

/-- Among keys that are strings, the text of each is its content. -/
theorem ReadsEntries.readsPairs {sources : List (Source × Source)} {pairs : List (String × Value)}
    (h : ReadsEntries sources pairs) (hkeys : ∀ s ∈ sources, ∃ key, s.1.Reads (.string key)) :
    ReadsPairs sources pairs := by
  induction h with
  | nil => exact .nil
  | cons hs _ ih =>
    obtain ⟨⟨key, hkey⟩, hkeys⟩ := List.forall_mem_cons.1 hkeys
    have htext := hs.1.unique ⟨_, hkey, rfl⟩
    exact .cons ⟨htext ▸ hkey, hs.2⟩ (ih hkeys)

theorem read_map_eq_ok {sources : List (Source × Source)}
    (h : ∀ s ∈ sources, (∃ key, s.1.Reads (.string key)) ∧ ∃ v, s.2.Reads v) (serial : Nat) :
    ∃ pairs tag next, ReadsPairs sources pairs ∧
      (map sources).read serial = .ok (.object tag (ofPairs pairs), next) := by
  have hentries : ∀ s ∈ sources, (∃ text, s.1.ReadsKey text) ∧ ∃ v, s.2.Reads v := by
    intro s hs
    obtain ⟨⟨key, hkey⟩, hvalue⟩ := h s hs
    exact ⟨⟨key, _, hkey, rfl⟩, hvalue⟩
  obtain ⟨pairs, tag, next, hreads, hread⟩ := read_map_entries hentries serial
  exact ⟨pairs, tag, next, hreads.readsPairs fun s hs => (h s hs).1, hread⟩

/-- What a source reads to is the same at any time but for identities. -/
theorem ReadsPairs.untagged_eq {sources : List (Source × Source)}
    {pairs others : List (String × Value)} (h : ReadsPairs sources pairs)
    (h' : ReadsPairs sources others) :
    Value.untaggedEntries pairs = Value.untaggedEntries others := by
  induction h generalizing others with
  | nil => cases h'; rfl
  | @cons s p sources pairs hp _ ih =>
    obtain ⟨q, others, hq, hothers, rfl⟩ := List.forall₂_cons_left_iff.1 h'
    have hkey : p.1 = q.1 := by
      have hstring := hp.1.untagged_eq_meaning.trans hq.1.untagged_eq_meaning.symm
      exact Value.string.inj hstring
    have hvalue : p.2.untagged = q.2.untagged :=
      hp.2.untagged_eq_meaning.trans hq.2.untagged_eq_meaning.symm
    obtain ⟨key, v⟩ := p
    obtain ⟨key', v'⟩ := q
    cases hkey
    rw [Value.untaggedEntries, Value.untaggedEntries, ih hothers, hvalue]

theorem ReadsPairs.readable {sources : List (Source × Source)} {pairs : List (String × Value)}
    (h : ReadsPairs sources pairs) :
    ∀ s ∈ sources, (∃ key, s.1.Reads (.string key)) ∧ ∃ v, s.2.Reads v := by
  induction h with
  | nil => exact nofun
  | cons hs _ ih => exact List.forall_mem_cons.2 ⟨⟨⟨_, hs.1⟩, _, hs.2⟩, ih⟩

end Source

open Source World

/-- Of a repeated key, the first place and the last value are kept. So it is in an object that is
made of pairs, and in one that a map is read to, as long as its keys are strings and its values can
be read; reading inserts one entry after another, and gives the entries that the pairs of keys and
values give at once, with new identities. The entries depend on the order in which keys are given
first and on the values given last. Entries of an object that a program holds make the same entries
again. A container validator runs on the value given last to each key, and a value whose key is
given again makes no difference at all. -/
structure FirstPlaceLastValue : Prop where
  made : ∀ (pairs : List (String × Value)) (serial : Nat),
    ∃ o, Id.run ((Value.newObject pairs : Fresh Id Value) serial) = (o, serial + 1) ∧
      o.Gathers pairs
  read : ∀ (sources : List (Source × Source)) (serial : Nat),
    (∀ s ∈ sources, (∃ key, s.1.Reads (.string key)) ∧ ∃ v, s.2.Reads v) →
      ∃ pairs o next, ReadsPairs sources pairs ∧ (map sources).read serial = .ok (o, next) ∧
        o.Gathers pairs
  inserted : ∀ sources : List (Source × Source), (map sources).read = do
    let entries ← readInto [] sources
    return .object (← freshTag) entries
  alike : ∀ (sources : List (Source × Source)) (pairs : List (String × Value))
    (serial serial' : Nat), ReadsPairs sources pairs →
      ∃ o next p next', (map sources).read serial = .ok (o, next) ∧
        Id.run ((Value.newObject pairs : Fresh Id Value) serial') = (p, next') ∧
        o.untagged = p.untagged
  determined : ∀ (o p : Value) (pairs others : List (String × Value)),
    o.Gathers pairs → p.Gathers others →
      (Entries.keys pairs).eraseDups = (Entries.keys others).eraseDups →
      (∀ key value, LastGiven pairs key value ↔ LastGiven others key value) →
        o.entries = p.entries
  again : ∀ (w : World) (tag : Tag) (entries : Entries Value) (serial : Nat), Reachable w →
    w.Found (.object tag entries) →
      Id.run ((Value.newObject entries : Fresh Id Value) serial) =
        (.object ⟨serial⟩ entries, serial + 1)
  run : ∀ (w : Validator) (o : Value) (pairs : List (String × Value)), o.Gathers pairs →
    (Validator.object w).run o = Connective.and.runs
      ((Entries.keys pairs).eraseDups.map fun key => w.run (o.field key))
  overwritten : ∀ (before after : List (String × Value)) (key : String) (old new : Value),
    key ∈ Entries.keys after →
      (Value.newObject (before ++ (key, old) :: after) : Fresh Id Value) =
        Value.newObject (before ++ (key, new) :: after)

/-- **Of a repeated key, the first place and the last value are kept.** -/
theorem repeated_keys : FirstPlaceLastValue where
  made pairs serial := ⟨_, rfl, Value.gathers_object ⟨serial⟩ pairs⟩
  read sources serial h := by
    obtain ⟨pairs, tag, next, hreads, hread⟩ := read_map_eq_ok h serial
    exact ⟨pairs, _, next, hreads, hread, Value.gathers_object tag pairs⟩
  inserted := read_map
  alike sources pairs serial serial' h := by
    obtain ⟨others, tag, next, hreads, hread⟩ := read_map_eq_ok h.readable serial
    refine ⟨_, next, _, _, hread, rfl, congrArg (Value.object ⟨0⟩) ?_⟩
    rw [Value.untaggedEntries_ofPairs, Value.untaggedEntries_ofPairs, hreads.untagged_eq h]
  determined _ _ _ _ ho hp hk hlast := by
    rw [ho.entries_eq, hp.entries_eq, ofPairs_eq_of_lastGiven hk hlast]
  again w tag entries serial hw hfound := by
    have hdistinct : Distinct entries := (wellKeyed_of_found hw hfound).entries
    show (Value.object ⟨serial⟩ (ofPairs entries), serial + 1) = _
    rw [ofPairs_of_distinct hdistinct]
  run w _ _ h := h.run_object w
  overwritten _ _ _ old new h := by
    rw [Value.newObject, Value.newObject, ofPairs_overwritten h old new]

namespace Source

/-- A map that gives a key again, in another form. -/
def renewed : List (Source × Source) :=
  [(.text .transient "a", .word (.uint8 1)), (.char 'b', .unit),
    (.present (.text .owned "a"), .bool true)]

theorem repeated_keys_renewed :
    ReadsPairs renewed [("a", .ofWord (.uint8 1)), ("b", .null), ("a", .bool true)] ∧
    ∃ o next, (map renewed).read 0 = .ok (o, next) ∧
      o.untagged = .object ⟨0⟩ [("a", .bool true), ("b", .null)] := by
  have h : ReadsPairs renewed [("a", .ofWord (.uint8 1)), ("b", .null), ("a", .bool true)] :=
    .cons ⟨⟨0, 0, rfl⟩, 0, 0, rfl⟩ (.cons ⟨⟨0, 0, rfl⟩, 0, 0, rfl⟩
      (.cons ⟨⟨0, 0, rfl⟩, 0, 0, rfl⟩ .nil))
  obtain ⟨o, next, p, next', hread, hmake, hsame⟩ := repeated_keys.alike renewed _ 0 0 h
  refine ⟨h, o, next, hread, hsame.trans ?_⟩
  cases hmake
  rw [Value.untagged, Value.untaggedEntries_ofPairs, ofPairs_eq_insertAll]
  rfl

end Source

end ShapeCheck
