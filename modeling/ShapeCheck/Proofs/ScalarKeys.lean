import ShapeCheck.Proofs.NumberText
import ShapeCheck.Proofs.RepeatedKeys
/-!
# Scalars as keys

A string is its own key, a number or a truth value is the key that its text is. Main theorem
`scalar_keys`: two keys **merge** if they are the same scalar, numbers by their bits, or if one is
the text of the other; a number never merges with a truth value. An object that a map is read to has
one entry for each class of keys that merge, at the place of its first member and with the value of
its last. The key of a finite number has no exponent and is read back as the number.
-/
namespace ShapeCheck

open Entries

/-! ## Which keys merge -/

/-- The text of a truth value. -/
def boolText (b : Bool) : String := if b then "true" else "false"

theorem boolText_injective : Function.Injective boolText := by
  intro a b h
  cases a <;> cases b <;> first | rfl | exact absurd h (by decide)

/-- No number has the text of a truth value. -/
theorem plain_ne_boolText {f : Format} (hp : 0 < f.precision) (x : Binary f) (b : Bool) :
    x.plain ≠ boolText b := by
  intro h
  have hread := Binary.ofText?_plain hp x
  have hnone : (Binary.ofText? (boolText b) : Option (Binary f)) = none := by
    cases b <;> simp [boolText, Binary.ofText?, splitSign, Decimal.ofText?, splitDigits]
  rw [h, hnone] at hread
  cases hread

namespace Value

/-- A scalar has a text as a key. -/
def IsScalar (v : Value) : Prop := v.kind = .string ∨ v.kind = .number ∨ v.kind = .bool

/-- Two key values stand for one key: the same string, the same truth value, numbers with the same
bits or both `nan`, which has none, or a string and what it is the text of. -/
def merges : Value → Value → Bool
  | .string s, .string t => s == t
  | .bool a, .bool b => a == b
  | .number x, .number y => x.bits? == y.bits?
  | .string s, .number x => s == x.plain
  | .number x, .string s => s == x.plain
  | .string s, .bool b => s == boolText b
  | .bool b, .string s => s == boolText b
  | _, _ => false

theorem exists_keyText_iff {v : Value} : (∃ text, v.keyText = .ok text) ↔ v.IsScalar := by
  cases v <;> simp [keyText, IsScalar, kind]

theorem keyString_of_keyText {v : Value} {text : String} (h : v.keyText = .ok text) :
    v.keyString = text := by
  rw [keyString, h]
  rfl

theorem IsScalar.keyText_eq {v : Value} (h : v.IsScalar) : v.keyText = .ok v.keyString := by
  obtain ⟨text, htext⟩ := exists_keyText_iff.2 h
  rw [htext, keyString_of_keyText htext]

@[simp] theorem keyString_string (s : String) : (string s).keyString = s := rfl

@[simp] theorem keyString_number (x : Double) : (number x).keyString = x.plain := rfl

@[simp] theorem keyString_bool (b : Bool) : (bool b).keyString = boolText b := rfl

/-- **Scalars have one text exactly if they merge.** -/
theorem merges_iff {k l : Value} (hk : k.IsScalar) (hl : l.IsScalar) :
    k.merges l = true ↔ k.keyString = l.keyString := by
  have hplain : Function.Injective (Binary.plain : Double → String) :=
    Binary.plain_injective (by decide)
  have hbits : Function.Injective (Binary.bits? : Double → Option Nat) := Binary.bits?_injective
  have hapart : ∀ (x : Double) (b : Bool), x.plain ≠ boolText b := plain_ne_boolText (by decide)
  cases k with
  | string s => cases l <;> simp_all [merges, IsScalar, kind]
  | number x =>
    cases l with
    | string t =>
      rw [merges, beq_iff_eq]
      exact eq_comm
    | number y =>
      rw [merges, beq_iff_eq, keyString_number, keyString_number, hbits.eq_iff, hplain.eq_iff]
    | bool b => simp [merges, hapart]
    | _ => simp [IsScalar, kind] at hl
  | bool a =>
    cases l with
    | string t =>
      rw [merges, beq_iff_eq]
      exact eq_comm
    | number y => simp [merges, (hapart y a).symm]
    | bool b =>
      rw [merges, beq_iff_eq, keyString_bool, keyString_bool, boolText_injective.eq_iff]
    | _ => simp [IsScalar, kind] at hl
  | _ => simp [IsScalar, kind] at hk

/-! ## One entry for each class -/

/-- The keys that merge with none before them. -/
def firsts (keyed : List (Value × Value)) : List Value := (keyed.map Prod.fst).eraseDupsBy merges

/-- The value that comes last with a key that merges with this one. -/
def LastMerged (keyed : List (Value × Value)) (key value : Value) : Prop :=
  ∃ before k after, keyed = before ++ (k, value) :: after ∧ k.merges key = true ∧
    ∀ p ∈ after, p.1.merges key = false

/-- The object has one entry for each class of keys that merge, at the place of the first key of the
class, under the text of that key and with the value of the last. -/
structure Merged (o : Value) (keyed : List (Value × Value)) : Prop where
  kind : o.kind = .object
  distinct : Entries.Distinct o.entries
  entries : List.Forall₂ (fun k e => k.keyText = .ok e.1 ∧ LastMerged keyed k e.2) (firsts keyed)
    o.entries
  shared : ∀ p ∈ keyed, ∀ q ∈ keyed,
    (∃ e ∈ o.entries, p.1.keyText = .ok e.1 ∧ q.1.keyText = .ok e.1) ↔ p.1.merges q.1 = true

/-- The pairs of the texts of keys and the values. -/
def texts (keyed : List (Value × Value)) : List (String × Value) :=
  keyed.map fun p => (p.1.keyString, p.2)

theorem map_eraseDupsBy {α β : Type} [BEq β] [LawfulBEq β] {r : α → α → Bool} {f : α → β} :
    ∀ as : List α, (∀ a ∈ as, ∀ b ∈ as, r a b = (f a == f b)) →
      (as.eraseDupsBy r).map f = (as.map f).eraseDups
  | [], _ => rfl
  | a :: as, h => by
    have hfilter : ∀ b ∈ as, decide (r b a = false) = !(f b == f a) := fun b hb => by
      rw [h b (List.mem_cons_of_mem a hb) a List.mem_cons_self]
      cases f b == f a <;> rfl
    have ih := map_eraseDupsBy (as.filter fun b => r b a = false) fun b hb c hc =>
      h b (List.mem_cons_of_mem a (List.mem_of_mem_filter hb)) c
        (List.mem_cons_of_mem a (List.mem_of_mem_filter hc))
    rw [List.eraseDupsBy_cons, List.map_cons, List.map_cons, List.eraseDups_cons, ih,
      List.filter_congr hfilter, List.filter_map]
    rfl
termination_by as => as.length
decreasing_by exact Nat.lt_succ_of_le (List.length_filter_le _ _)

theorem mem_of_mem_eraseDupsBy {α : Type} {r : α → α → Bool} :
    ∀ {as : List α} {a : α}, a ∈ as.eraseDupsBy r → a ∈ as
  | [], _, h => h
  | b :: as, a, h => by
    rw [List.eraseDupsBy_cons] at h
    rcases List.mem_cons.1 h with rfl | h
    · exact List.mem_cons_self
    · exact List.mem_cons_of_mem b (List.mem_of_mem_filter (mem_of_mem_eraseDupsBy h))
termination_by as => as.length
decreasing_by exact Nat.lt_succ_of_le (List.length_filter_le _ _)

theorem map_keyString_firsts {keyed : List (Value × Value)} (h : ∀ p ∈ keyed, p.1.IsScalar) :
    (firsts keyed).map keyString = Entries.keys (ofPairs (texts keyed)) := by
  have hkeys : Entries.keys (texts keyed) = (keyed.map Prod.fst).map keyString := by
    simp [Entries.keys, texts]
  have hscalar : ∀ k ∈ keyed.map Prod.fst, k.IsScalar := by
    intro k hk
    obtain ⟨p, hp, rfl⟩ := List.mem_map.1 hk
    exact h p hp
  rw [firsts, keys_ofPairs, hkeys]
  refine map_eraseDupsBy _ fun k hk l hl => ?_
  rw [Bool.eq_iff_iff, merges_iff (hscalar k hk) (hscalar l hl), beq_iff_eq]

theorem lastMerged_of_lastGiven {keyed : List (Value × Value)} (h : ∀ p ∈ keyed, p.1.IsScalar)
    {key value : Value} (hk : key.IsScalar) (hl : LastGiven (texts keyed) key.keyString value) :
    LastMerged keyed key value := by
  obtain ⟨before, after, htexts, hafter⟩ := hl
  obtain ⟨before, rest, rfl, rfl, hrest⟩ := List.map_eq_append_iff.1 htexts
  obtain ⟨⟨k, v⟩, after, rfl, hp, rfl⟩ := List.map_eq_cons_iff.1 hrest
  obtain ⟨htext, rfl⟩ := Prod.mk.inj hp
  have hkeyed : (k, v) ∈ before ++ (k, v) :: after := List.mem_append_right _ List.mem_cons_self
  refine ⟨before, k, after, rfl, (merges_iff (h _ hkeyed) hk).2 htext, fun p hp => ?_⟩
  have hmem : p ∈ before ++ (k, v) :: after :=
    List.mem_append_right _ (List.mem_cons_of_mem _ hp)
  rw [Bool.eq_false_iff, ne_eq, merges_iff (h p hmem) hk]
  intro heq
  exact hafter (heq ▸ List.mem_map_of_mem (f := Prod.fst) (List.mem_map_of_mem hp))

/-- **What a map with scalar keys is read to has one entry for each class of keys that merge.** -/
theorem merged_object {keyed : List (Value × Value)} (h : ∀ p ∈ keyed, p.1.IsScalar) (tag : Tag) :
    (object tag (ofPairs (texts keyed))).Merged keyed where
  kind := rfl
  distinct := distinct_ofPairs _
  entries := by
    show List.Forall₂ _ (firsts keyed) (ofPairs (texts keyed))
    have hkeys : List.Forall₂ (fun k (e : String × Value) => k.keyString = e.1) (firsts keyed)
        (ofPairs (texts keyed)) := by
      rw [← List.forall₂_map_left_iff (f := keyString) (R := fun t (e : String × Value) => t = e.1),
        ← List.forall₂_map_right_iff (f := Prod.fst), List.forall₂_eq_eq_eq]
      exact map_keyString_firsts h
    have hscalar : ∀ k ∈ firsts keyed, k.IsScalar := by
      intro k hk
      obtain ⟨p, hp, rfl⟩ := List.mem_map.1 (mem_of_mem_eraseDupsBy hk)
      exact h p hp
    have hlast : ∀ e ∈ ofPairs (texts keyed), LastGiven (texts keyed) e.1 e.2 :=
      fun e he => (mem_ofPairs _ _ _).1 he
    have hboth := (List.forall₂_and_left _ _).2 ⟨hlast, ((List.forall₂_and_left _ _).2
      ⟨hscalar, hkeys⟩).flip⟩
    refine hboth.flip.imp fun k e hke => ?_
    obtain ⟨hgiven, hk, htext⟩ := hke
    rw [← htext] at hgiven ⊢
    exact ⟨hk.keyText_eq, lastMerged_of_lastGiven h hk hgiven⟩
  shared p hp q hq := by
    rw [merges_iff (h p hp) (h q hq)]
    constructor
    · rintro ⟨e, -, hpe, hqe⟩
      rw [keyString_of_keyText hpe, keyString_of_keyText hqe]
    · intro heq
      have hkey : p.1.keyString ∈ Entries.keys (texts keyed) :=
        List.mem_map_of_mem (f := Prod.fst) (List.mem_map_of_mem hp)
      obtain ⟨v, hv⟩ := exists_get?_ofPairs_of_mem_keys hkey
      exact ⟨_, mem_of_get? hv, (h p hp).keyText_eq, heq ▸ (h q hq).keyText_eq⟩

end Value

namespace Source

/-- The sources of keys and values are read to these keys and values. -/
def ReadsKeyed (sources : List (Source × Source)) (keyed : List (Value × Value)) : Prop :=
  List.Forall₂ (fun s p => s.1.Reads p.1 ∧ s.2.Reads p.2) sources keyed

/-- The texts that entries are inserted under are those of scalars. -/
theorem ReadsEntries.exists_readsKeyed {sources : List (Source × Source)}
    {pairs : List (String × Value)} (h : ReadsEntries sources pairs) :
    ∃ keyed, ReadsKeyed sources keyed ∧ (∀ p ∈ keyed, p.1.IsScalar) ∧
      Value.texts keyed = pairs := by
  induction h with
  | nil => exact ⟨[], .nil, nofun, rfl⟩
  | @cons s p sources pairs hs _ ih =>
    obtain ⟨⟨k, hk, htext⟩, hv⟩ := hs
    obtain ⟨keyed, hkeyed, hscalar, rfl⟩ := ih
    refine ⟨(k, p.2) :: keyed, .cons ⟨hk, hv⟩ hkeyed, List.forall_mem_cons.2 ⟨?_, hscalar⟩, ?_⟩
    · exact Value.exists_keyText_iff.1 ⟨p.1, htext⟩
    · show (k.keyString, p.2) :: Value.texts keyed = _
      rw [Value.keyString_of_keyText htext]

theorem read_scalarKeys {sources : List (Source × Source)}
    (h : ∀ s ∈ sources, (∃ k, s.1.Reads k ∧ k.IsScalar) ∧ ∃ v, s.2.Reads v) (serial : Nat) :
    ∃ keyed o next, ReadsKeyed sources keyed ∧ (map sources).read serial = .ok (o, next) ∧
      o.Merged keyed := by
  have hentries : ∀ s ∈ sources, (∃ text, s.1.ReadsKey text) ∧ ∃ v, s.2.Reads v := by
    intro s hs
    obtain ⟨⟨k, hk, hscalar⟩, hvalue⟩ := h s hs
    exact ⟨⟨k.keyString, k, hk, hscalar.keyText_eq⟩, hvalue⟩
  obtain ⟨pairs, tag, next, hreads, hread⟩ := read_map_entries hentries serial
  obtain ⟨keyed, hkeyed, hscalar, rfl⟩ := hreads.exists_readsKeyed
  exact ⟨keyed, _, next, hkeyed, hread, Value.merged_object hscalar tag⟩

end Source

open Source

/-- Which scalars are one key. Two scalars have the same text as keys exactly if they merge, and a
number never has the text of a truth value. A map whose keys are read to scalars and whose values
can be read is read to an object in which keys share an entry exactly if they merge. Zero and minus
zero are strictly equal and two keys all the same. The key of a finite number is written with
digits, a point and a minus sign, so without an exponent, and it is read back as the number. -/
structure KeysMerge : Prop where
  text_eq_iff : ∀ k l : Value, k.IsScalar → l.IsScalar →
    ∃ s t, k.keyText = .ok s ∧ l.keyText = .ok t ∧ (s = t ↔ k.merges l = true)
  number_ne_bool : ∀ (x : Double) (b : Bool), (Value.number x).keyText ≠ (Value.bool b).keyText
  map : ∀ (sources : List (Source × Source)) (serial : Nat),
    (∀ s ∈ sources, (∃ k, s.1.Reads k ∧ k.IsScalar) ∧ ∃ v, s.2.Reads v) →
      ∃ keyed o next, ReadsKeyed sources keyed ∧
        (Source.map sources).read serial = .ok (o, next) ∧ o.Merged keyed
  zeros : (Value.number (.ofCode false 0)).strictEq (.number (.ofCode true 0)) = true ∧
    (Value.number (.ofCode false 0)).keyText ≠ (Value.number (.ofCode true 0)).keyText
  number : ∀ x : Double, x.isFinite = true → ∃ text, (Value.number x).keyText = .ok text ∧
    (∀ c ∈ text.toList, c.isDigit = true ∨ c = '.' ∨ c = '-') ∧ Binary.ofText? text = some x

/-- **Scalars are one key exactly if they merge.** -/
theorem scalar_keys : KeysMerge where
  text_eq_iff k l hk hl := ⟨_, _, hk.keyText_eq, hl.keyText_eq, (Value.merges_iff hk hl).symm⟩
  number_ne_bool x b h := plain_ne_boolText (by decide) x b (Except.ok.inj h)
  map _ serial h := read_scalarKeys h serial
  zeros := by
    refine ⟨by decide, fun h => ?_⟩
    exact absurd (Binary.plain_injective (by decide) (Except.ok.inj h)) (by decide)
  number x hx :=
    ⟨x.plain, rfl, fun _ hc => Binary.mem_plain hx hc, Binary.ofText?_plain (by decide) x⟩

namespace Source

/-- Zeros and a truth value as keys, and the texts of some of them. -/
def medley : List (Source × Source) :=
  [(.text .owned "0", .bool false), (.double (.ofCode true 0), .unit), (.bool true, .unit),
    (.word (.uint8 0), .char 'a'), (.text .transient "true", .char 'b')]

theorem scalar_keys_medley :
    (∀ s ∈ medley, (∃ k, s.1.Reads k ∧ k.IsScalar) ∧ ∃ v, s.2.Reads v) ∧
      ∃ keyed o next, ReadsKeyed medley keyed ∧ (map medley).read 0 = .ok (o, next) ∧
        o.Merged keyed ∧
        o.entries = [("0", .string "a"), ("-0", .null), ("true", .string "b")] ∧
        (Value.string "0").merges (.ofWord (.uint8 0)) = true ∧
        ∃ text, (Value.number (.ofCode true 0)).keyText = .ok text ∧
          Binary.ofText? text = some (.ofCode true 0 : Double) := by
  have h : ∀ s ∈ medley, (∃ k, s.1.Reads k ∧ k.IsScalar) ∧ ∃ v, s.2.Reads v :=
    List.forall_mem_cons.2 ⟨⟨⟨.string "0", ⟨0, 0, rfl⟩, .inl rfl⟩, .bool false, 0, 0, rfl⟩,
      List.forall_mem_cons.2 ⟨⟨⟨.number _, ⟨0, 0, rfl⟩, .inr (.inl rfl)⟩, .null, 0, 0, rfl⟩,
      List.forall_mem_cons.2 ⟨⟨⟨.bool true, ⟨0, 0, rfl⟩, .inr (.inr rfl)⟩, .null, 0, 0, rfl⟩,
      List.forall_mem_cons.2 ⟨⟨⟨.ofWord _, ⟨0, 0, rfl⟩, .inr (.inl rfl)⟩, .string "a", 0, 0, rfl⟩,
      List.forall_mem_singleton.2
        ⟨⟨.string "true", ⟨0, 0, rfl⟩, .inl rfl⟩, .string "b", 0, 0, rfl⟩⟩⟩⟩⟩
  obtain ⟨keyed, o, next, hkeyed, hread, hmerged⟩ := scalar_keys.map medley 0 h
  have hplus : Binary.plain (Word.uint8 0).toDouble = "0" := by decide +kernel
  have hminus : Binary.plain (.ofCode true 0 : Double) = "-0" := by decide +kernel
  obtain ⟨s, t, hs, ht, hmerges⟩ :=
    scalar_keys.text_eq_iff (.string "0") (.ofWord (.uint8 0)) (.inl rfl) (.inr (.inl rfl))
  obtain ⟨text, htext, -, hback⟩ := scalar_keys.number (.ofCode true 0) rfl
  have hst : s = t := by
    rw [← Value.keyString_of_keyText hs, ← Value.keyString_of_keyText ht]
    exact hplus.symm
  refine ⟨h, keyed, o, next, hkeyed, hread, hmerged, ?_, hmerges.1 hst, text, htext, hback⟩
  cases hread
  show ofPairs [("0", Value.bool false), (Binary.plain (.ofCode true 0 : Double), .null),
    ("true", .null), (Binary.plain (Word.uint8 0).toDouble, .string "a"),
    ("true", .string "b")] = _
  rw [hplus, hminus, ofPairs_eq_insertAll]
  rfl

end Source

end ShapeCheck
