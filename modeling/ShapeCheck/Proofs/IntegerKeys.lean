import ShapeCheck.Proofs.Numerals
import ShapeCheck.Proofs.RepeatedKeys
/-!
# Integers as keys

An integer key becomes a double and then the text of the double. Main theorem `integer_keys`: as
long as the keys have doubles of their own, every entry stays, under the text of its double; up to
`2 ^ 53` that is always so, and the text is the numeral. Keys that share a double share an entry.
-/
namespace ShapeCheck

open Entries

namespace Word

/-- The text of a word as a key. -/
def keyText (w : Word) : String := w.toDouble.plain

/-- **Two words have one text exactly if they have one double.** -/
theorem keyText_eq_iff {v w : Word} : v.keyText = w.keyText ↔ v.toDouble = w.toDouble :=
  (Binary.plain_injective (by decide)).eq_iff

/-- **The text of a small word is its numeral.** -/
theorem keyText_eq_toString {w : Word} (h : w.toInt.natAbs ≤ 2 ^ (53 : Nat)) :
    w.keyText = toString w.toInt :=
  Binary.plain_ofInt h

/-- Small words with one double hold one integer. -/
theorem toDouble_eq_iff {v w : Word} (hv : v.toInt.natAbs ≤ 2 ^ (53 : Nat))
    (hw : w.toInt.natAbs ≤ 2 ^ (53 : Nat)) : v.toDouble = w.toDouble ↔ v.toInt = w.toInt := by
  constructor
  · exact Binary.eq_of_ofInt_eq hv hw
  · intro h
    rw [toDouble, toDouble, h]

end Word

namespace Source

/-- The entries of a map whose keys are words. -/
def wordEntries (entries : List (Word × Source)) : List (Source × Source) :=
  entries.map fun e => (word e.1, e.2)

theorem readsKey_word (w : Word) : (word w).ReadsKey w.keyText :=
  ⟨.ofWord w, ⟨0, 0, rfl⟩, rfl⟩

/-- The value of each entry, under the text of its key. -/
def ReadsWords (entries : List (Word × Source)) (pairs : List (String × Value)) : Prop :=
  List.Forall₂ (fun e p => p.1 = e.1.keyText ∧ e.2.Reads p.2) entries pairs

theorem ReadsEntries.readsWords {entries : List (Word × Source)} {pairs : List (String × Value)}
    (h : ReadsEntries (wordEntries entries) pairs) : ReadsWords entries pairs := by
  have h := List.forall₂_map_left_iff.1 h
  refine h.imp fun e p hp => ⟨?_, hp.2⟩
  exact hp.1.unique (readsKey_word e.1)

theorem ReadsWords.keys_eq {entries : List (Word × Source)} {pairs : List (String × Value)}
    (h : ReadsWords entries pairs) : keys pairs = entries.map fun e => e.1.keyText := by
  induction h with
  | nil => rfl
  | cons hp _ ih =>
    show _ :: keys _ = _
    rw [ih, hp.1]
    rfl

/-- Entries with doubles of their own do not replace one another. -/
theorem ReadsWords.distinct {entries : List (Word × Source)} {pairs : List (String × Value)}
    (h : ReadsWords entries pairs) (hd : (entries.map fun e => e.1.toDouble).Nodup) :
    Distinct pairs := by
  have hinj : Function.Injective (Binary.plain : Double → String) :=
    Binary.plain_injective (by decide)
  have htexts := hd.map hinj
  rw [List.map_map] at htexts
  rw [Distinct, h.keys_eq]
  exact htexts

theorem read_wordEntries {entries : List (Word × Source)} (h : ∀ e ∈ entries, ∃ v, e.2.Reads v)
    (serial : Nat) : ∃ pairs tag next, ReadsWords entries pairs ∧
      (map (wordEntries entries)).read serial = .ok (.object tag (ofPairs pairs), next) := by
  have hentries : ∀ s ∈ wordEntries entries,
      (∃ text, s.1.ReadsKey text) ∧ ∃ v, s.2.Reads v := by
    intro s hs
    obtain ⟨e, he, rfl⟩ := List.mem_map.1 hs
    exact ⟨⟨_, readsKey_word e.1⟩, h e he⟩
  obtain ⟨pairs, tag, next, hreads, hread⟩ := read_map_entries hentries serial
  exact ⟨pairs, tag, next, hreads.readsWords, hread⟩

end Source

open Source

/-- What becomes of integers as keys. A map whose keys are words and whose values can be read is
read to an object. If no two keys have the same nearest double, it has one entry for each entry of
the map, in the order of the map: the value of that entry, under the text of the double of its key.
Keys that share a double, and only these, share an entry, at the first place and with the last
value. Up to `2 ^ 53` the text is the decimal numeral of the key, and different integers have
different doubles. -/
structure KeysByDouble : Prop where
  apart : ∀ (entries : List (Word × Source)) (serial : Nat), (∀ e ∈ entries, ∃ v, e.2.Reads v) →
    (entries.map fun e => e.1.toDouble).Nodup →
      ∃ tag pairs next, (map (wordEntries entries)).read serial = .ok (.object tag pairs, next) ∧
        List.Forall₂ (fun e p => p.1 = e.1.keyText ∧ e.2.Reads p.2) entries pairs
  shared : ∀ (entries : List (Word × Source)) (serial : Nat), (∀ e ∈ entries, ∃ v, e.2.Reads v) →
    ∃ pairs o next, ReadsWords entries pairs ∧
      (map (wordEntries entries)).read serial = .ok (o, next) ∧ o.Gathers pairs
  text_eq_iff : ∀ v w : Word, v.keyText = w.keyText ↔ v.toDouble = w.toDouble
  numeral : ∀ w : Word, w.toInt.natAbs ≤ 2 ^ (53 : Nat) → w.keyText = toString w.toInt
  double_eq_iff : ∀ v w : Word, v.toInt.natAbs ≤ 2 ^ (53 : Nat) →
    w.toInt.natAbs ≤ 2 ^ (53 : Nat) → (v.toDouble = w.toDouble ↔ v.toInt = w.toInt)

/-- **Integers that have doubles of their own are keys of their own.** -/
theorem integer_keys : KeysByDouble where
  apart entries serial h hd := by
    obtain ⟨pairs, tag, next, hreads, hread⟩ := read_wordEntries h serial
    rw [ofPairs_of_distinct (hreads.distinct hd)] at hread
    exact ⟨tag, pairs, next, hread, hreads⟩
  shared entries serial h := by
    obtain ⟨pairs, tag, next, hreads, hread⟩ := read_wordEntries h serial
    exact ⟨pairs, _, next, hreads, hread, Value.gathers_object tag pairs⟩
  text_eq_iff _ _ := Word.keyText_eq_iff
  numeral _ := Word.keyText_eq_toString
  double_eq_iff _ _ := Word.toDouble_eq_iff

namespace Source

/-- Two small keys and a great one. -/
def ranks : List (Word × Source) :=
  [(.int8 (-1), .unit), (.uint64 1152921504606846976, .bool true), (.uint16 7, .char 'c')]

theorem integer_keys_ranks :
    (∀ e ∈ ranks, ∃ v, e.2.Reads v) ∧ (ranks.map fun e => e.1.toDouble).Nodup ∧
      (Word.int8 (-1)).keyText = "-1" ∧
      ∃ tag pairs next, (map (wordEntries ranks)).read 0 = .ok (.object tag pairs, next) ∧
        List.Forall₂ (fun e p => p.1 = e.1.keyText ∧ e.2.Reads p.2) ranks pairs := by
  have hreads : ∀ e ∈ ranks, ∃ v, e.2.Reads v :=
    List.forall_mem_cons.2 ⟨⟨.null, 0, 0, rfl⟩, List.forall_mem_cons.2 ⟨⟨.bool true, 0, 0, rfl⟩,
      List.forall_mem_singleton.2 ⟨.string "c", 0, 0, rfl⟩⟩⟩
  have hd : (ranks.map fun e => e.1.toDouble).Nodup := by decide +kernel
  have htext : (Word.int8 (-1)).keyText = "-1" :=
    integer_keys.numeral (.int8 (-1)) (by decide)
  exact ⟨hreads, hd, htext, integer_keys.apart ranks 0 hreads hd⟩

/-- **The integer after `2 ^ 53` shares its entry**: it has no double of its own. And `2 ^ 60`,
which has one, is not kept under its numeral: the text has no more digits than are needed to tell
the double from others. -/
theorem integer_keys_crowded :
    (Word.uint64 9007199254740992).toInt ≠ (Word.uint64 9007199254740993).toInt ∧
      ∃ o next, (map (wordEntries [(.uint64 9007199254740992, .text .transient "a"),
          (.uint64 9007199254740993, .text .transient "b")])).read 0 = .ok (o, next) ∧
        o.entries = [("9007199254740992", .string "b")] ∧
        (Word.uint64 1152921504606846976).keyText = "1152921504606847000" := by
  have hsmall : (Word.uint64 9007199254740992).keyText = "9007199254740992" :=
    Word.keyText_eq_toString (by decide)
  have hshared : (Word.uint64 9007199254740993).keyText = "9007199254740992" :=
    (Word.keyText_eq_iff.2 (by decide +kernel)).trans hsmall
  refine ⟨by decide, _, _, rfl, ?_, by decide +kernel⟩
  show ofPairs [((Word.uint64 9007199254740992).keyText, Value.string "a"),
    ((Word.uint64 9007199254740993).keyText, .string "b")] = _
  rw [hsmall, hshared, ofPairs_eq_insertAll]
  rfl

end Source

end ShapeCheck
