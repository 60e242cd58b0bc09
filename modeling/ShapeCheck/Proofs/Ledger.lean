import ShapeCheck.Proofs.Lookup
import ShapeCheck.Proofs.Parts
import ShapeCheck.Source.Read
/-!
# The ledger of constructions

A ledger records the result of every construction, in order. It is **sound** if every result carries
the number of its construction and everything inside a result is on record; a construction keeps it
so (`Sound.make`). Reading a source is a run of constructions: `Source.record` is the reading that
writes them down, `read_eq_record` says that it reads the same, and `record_sound` that it leaves a
sound ledger, with everything inside the value that was read on record.
-/
namespace ShapeCheck

namespace Value

/-- The identity of a value, if it has one. -/
def identity? : Value → Option Tag
  | .array tag _ => some tag
  | .object tag _ => some tag
  | .host h => some h.tag
  | _ => none

theorem parts_of_identity?_eq_none {v : Value} (h : v.identity? = none) : v.parts = [] := by
  cases v <;> first | rfl | cases h

/-- A look-up finds a part or nothing. -/
theorem field_mem_parts_or (v : Value) (key : String) :
    v.field key ∈ v.parts ∨ v.field key = .undefined := by
  cases v with
  | object tag entries =>
    cases hg : Entries.get? entries key with
    | none => exact .inr (by simp [field, hg])
    | some u =>
      refine .inl ?_
      simp only [field, hg, Option.getD_some]
      exact List.mem_map_of_mem (f := Prod.snd) (Entries.mem_of_get? hg)
  | _ => exact .inr rfl

theorem item_mem_parts_or (v : Value) (index : Nat) :
    v.item index ∈ v.parts ∨ v.item index = .undefined := by
  cases v with
  | array tag elements =>
    cases hg : elements[index]? with
    | none => exact .inr (by simp [item, hg])
    | some u =>
      refine .inl ?_
      simp only [item, List.getD_eq_getElem?_getD, hg, Option.getD_some]
      exact List.mem_of_getElem? hg
  | _ => exact .inr rfl

end Value

/-- The results of the constructions, each at its number. -/
abbrev Ledger : Type := List Value

namespace Ledger

/-- Everything with an identity inside the value is what was constructed under that number. -/
def Recorded (made : Ledger) (v : Value) : Prop :=
  ∀ (c : Value) (tag : Tag), c.Within v → c.identity? = some tag → made[tag.serial]? = some c

structure Sound (made : Ledger) : Prop where
  numbered : ∀ (n : Nat) (c : Value), made[n]? = some c → c.identity? = some ⟨n⟩
  closed : ∀ c ∈ made, Recorded made c
  distinct : ∀ tag entries, .object tag entries ∈ made → Entries.Distinct entries

variable {made after : Ledger} {u v c : Value}

theorem recorded_iff : Recorded made v ↔
    (∀ tag, v.identity? = some tag → made[tag.serial]? = some v) ∧
      ∀ u ∈ v.parts, Recorded made u := by
  constructor
  · intro h
    refine ⟨fun tag => h v tag (.refl v), fun u hu c tag hc => ?_⟩
    exact h c tag (.part hu hc)
  · rintro ⟨hv, hp⟩ c tag hc ht
    rcases Value.within_iff.1 hc with rfl | ⟨u, hu, hc⟩
    · exact hv tag ht
    · exact hp u hu c tag hc ht

/-- A value without identity needs no record. -/
theorem recorded_of_identity?_eq_none (h : v.identity? = none) : Recorded made v := by
  rw [recorded_iff, Value.parts_of_identity?_eq_none h]
  simp [h]

theorem Recorded.part (h : Recorded made v) (hu : u ∈ v.parts) : Recorded made u :=
  (recorded_iff.1 h).2 u hu

theorem Recorded.field (h : Recorded made v) (key : String) : Recorded made (v.field key) := by
  rcases v.field_mem_parts_or key with hu | hu
  · exact h.part hu
  · exact hu ▸ recorded_of_identity?_eq_none rfl

theorem Recorded.item (h : Recorded made v) (index : Nat) : Recorded made (v.item index) := by
  rcases v.item_mem_parts_or index with hu | hu
  · exact h.part hu
  · exact hu ▸ recorded_of_identity?_eq_none rfl

theorem Recorded.within (h : Recorded made v) (hu : u.Within v) : Recorded made u := by
  induction hu with
  | refl => exact h
  | part hw _ ih => exact ih (h.part hw)

/-- What is on record stays on record. -/
theorem Recorded.later (h : Recorded made v) (hl : made <+: after) : Recorded after v := by
  obtain ⟨rest, rfl⟩ := hl
  intro c tag hc ht
  have hm := h c tag hc ht
  rw [List.getElem?_append_left (List.getElem?_eq_some_iff.1 hm).1, hm]

theorem Sound.nil : Sound [] where
  numbered := by simp
  closed := by simp
  distinct := by simp

/-- **A construction keeps the ledger sound.** -/
theorem Sound.make (h : Sound made) (hc : c.identity? = some ⟨made.length⟩)
    (hparts : ∀ u ∈ c.parts, Recorded made u)
    (hdistinct : ∀ tag entries, c = .object tag entries → Entries.Distinct entries) :
    Sound (made ++ [c]) ∧ Recorded (made ++ [c]) c := by
  have hlater : made <+: made ++ [c] := List.prefix_append _ _
  have hnew : Recorded (made ++ [c]) c := by
    refine recorded_iff.2 ⟨fun tag ht => ?_, fun u hu => (hparts u hu).later hlater⟩
    rw [hc] at ht
    cases ht
    exact List.getElem?_concat_length
  refine ⟨⟨?numbered, ?closed, ?distinct⟩, hnew⟩
  case numbered =>
    intro n d hn
    rw [List.getElem?_append] at hn
    split at hn
    · exact h.numbered n d hn
    · obtain ⟨hlt, rfl⟩ := List.getElem?_eq_some_iff.1 hn
      have hlen : n = made.length := by
        rw [List.length_singleton] at hlt
        omega
      simpa [hlen] using hc
  case closed =>
    intro d hd
    rcases List.mem_append.1 hd with hd | hd
    · exact (h.closed d hd).later hlater
    · rw [List.mem_singleton.1 hd]
      exact hnew
  case distinct =>
    intro tag entries hd
    rcases List.mem_append.1 hd with hd | hd
    · exact h.distinct tag entries hd
    · exact hdistinct tag entries (List.mem_singleton.1 hd).symm

/-- The values are on record in a sound continuation of the ledger. -/
structure Records (made after : Ledger) (vs : List Value) : Prop where
  later : made <+: after
  sound : Sound after
  recorded : ∀ v ∈ vs, Recorded after v

theorem Records.head {vs : List Value} (h : Records made after (v :: vs)) : Recorded after v :=
  h.recorded v List.mem_cons_self

theorem Sound.records (h : Sound made) {vs : List Value} (hvs : ∀ v ∈ vs, Recorded made v) :
    Records made made vs := ⟨List.prefix_rfl, h, hvs⟩

theorem Records.cons {mid : Ledger} {vs : List Value} (h : Records made mid [v])
    (hvs : Records mid after vs) : Records made after (v :: vs) :=
  ⟨h.later.trans hvs.later, hvs.sound,
    List.forall_mem_cons.2 ⟨h.head.later hvs.later, hvs.recorded⟩⟩

/-! ## Constructing on record -/

/-- A construction, written down with the number it takes. -/
def build (c : Fresh Id Value) (made : Ledger) : Value × Ledger :=
  let v := (Id.run (c made.length)).1
  (v, made ++ [v])

theorem Records.array {elements : List Value} (h : Records made after elements) :
    Records made (build (Value.newArray elements) after).2
      [(build (Value.newArray elements) after).1] := by
  obtain ⟨hs, hr⟩ := h.sound.make (c := .array ⟨after.length⟩ elements) rfl h.recorded (by simp)
  exact ⟨h.later.trans (List.prefix_append _ _), hs, List.forall_mem_singleton.2 hr⟩

theorem Records.object {pairs : List (String × Value)}
    (h : Records made after (pairs.map Prod.snd)) :
    Records made (build (Value.newObject pairs) after).2
      [(build (Value.newObject pairs) after).1] := by
  have hparts : ∀ u ∈ (Entries.ofPairs pairs).map Prod.snd, Recorded after u := by
    intro u hu
    exact h.recorded u ((Entries.ofPairs_subperm Prod.snd pairs).subset hu)
  have hdistinct : ∀ tag entries, Value.object ⟨after.length⟩ (Entries.ofPairs pairs) =
      .object tag entries → Entries.Distinct entries := by
    intro tag entries he
    cases he
    exact Entries.distinct_ofPairs pairs
  obtain ⟨hs, hr⟩ := h.sound.make (c := .object ⟨after.length⟩ (Entries.ofPairs pairs)) rfl hparts
    hdistinct
  exact ⟨h.later.trans (List.prefix_append _ _), hs, List.forall_mem_singleton.2 hr⟩

theorem Records.host (type : HostType) {payload : Payload}
    (h : Records made after payload.parts) :
    Records made (build (Value.newHost type payload) after).2
      [(build (Value.newHost type payload) after).1] := by
  obtain ⟨hs, hr⟩ := h.sound.make (c := .host (.mk ⟨after.length⟩ type payload)) rfl h.recorded
    (by simp)
  exact ⟨h.later.trans (List.prefix_append _ _), hs, List.forall_mem_singleton.2 hr⟩

end Ledger

/-! ## Reading on record -/

/-- Reading that writes down every construction. -/
abbrev Recording : Type → Type := StateT Ledger (Except SourceError)

def Recording.build (c : Fresh Id Value) : Recording Value := fun made => .ok (Ledger.build c made)

namespace Source

mutual

/-- The value of a source, with all that is constructed on the way on record. -/
def record : Source → Recording Value
  | .bool b => return .bool b
  | .word w => return .ofWord w
  | .single x => return .ofSingle x
  | .double x => return .number x
  | .char c => return .string c.toString
  | .text _ s => return .string s
  | .absent => return .null
  | .present inner => record inner
  | .unit => return .null
  | .sequence items => do Recording.build (Value.newArray (← recordItems items))
  | .map entries => do Recording.build (Value.newObject (← recordEntries entries))
  | .wideInt signed n => throw (.unsupported (.wideInt signed n))
  | .bytes _ _ => throw (.unsupported .bytes)
  | .newtype _ => throw (.unsupported .newtype)
  | .enumeration _ => throw (.unsupported .enumeration)
  | .failure message => throw (.failure message)

def recordItems : List Source → Recording (List Value)
  | [] => return []
  | item :: items => do
    let v ← record item
    let vs ← recordItems items
    return v :: vs

def recordEntries : List (Source × Source) → Recording (List (String × Value))
  | [] => return []
  | (key, value) :: entries => do
    let k ← record key
    let text ← k.keyText
    let v ← record value
    let rest ← recordEntries entries
    return (text, v) :: rest

end

/-- Both give the same, if the first counts what the second writes down. -/
def Matches {α : Type} (x : Reading α) (y : Recording α) : Prop :=
  ∀ made : Ledger, x made.length = (y made).map fun r => (r.1, r.2.length)

namespace Matches

variable {α β : Type}

theorem pure (a : α) : Matches (Pure.pure a) (Pure.pure a) := fun _ => rfl

theorem refuse (e : SourceError) : Matches (α := α) (throw e) (throw e) := fun _ => rfl

theorem lift (r : Except SourceError α) : Matches (α := α) r r := by
  intro made
  cases r <;> rfl

theorem build {x : Reading Value} {c : Fresh Id Value}
    (h : ∀ n, x n = .ok ((Id.run (c n)).1, n + 1)) : Matches x (Recording.build c) := by
  intro made
  rw [h]
  simp [Recording.build, Ledger.build, Except.map]

theorem bind {x : Reading α} {y : Recording α} {f : α → Reading β} {g : α → Recording β}
    (hx : Matches x y) (hf : ∀ a, Matches (f a) (g a)) : Matches (x >>= f) (y >>= g) := by
  intro made
  show (x made.length >>= fun r => f r.1 r.2) = Except.map _ (y made >>= fun r => g r.1 r.2)
  rw [hx made]
  cases hy : y made with
  | error e => rfl
  | ok r => exact hf r.1 r.2

end Matches

mutual

theorem matches_record (source : Source) : Matches source.read source.record := by
  cases source with
  | present inner => exact matches_record inner
  | sequence items =>
    apply Matches.bind (matches_recordItems items)
    intro elements
    exact .build fun n => rfl
  | map entries =>
    apply Matches.bind (matches_recordEntries entries)
    intro pairs
    exact .build fun n => rfl
  | wideInt | bytes | newtype | enumeration | failure => exact .refuse _
  | _ => exact .pure _

theorem matches_recordItems (items : List Source) :
    Matches (readItems items) (recordItems items) := by
  cases items with
  | nil => exact .pure _
  | cons item items =>
    apply Matches.bind (matches_record item)
    intro v
    apply Matches.bind (matches_recordItems items)
    intro vs
    exact .pure _

theorem matches_recordEntries (entries : List (Source × Source)) :
    Matches (readEntries entries) (recordEntries entries) := by
  match entries with
  | [] => exact .pure _
  | (key, value) :: entries =>
    apply Matches.bind (matches_record key)
    intro k
    apply Matches.bind (.lift k.keyText)
    intro text
    apply Matches.bind (matches_record value)
    intro v
    apply Matches.bind (matches_recordEntries entries)
    intro rest
    exact .pure _

end

/-- **Writing down changes nothing.** Reading is recording with the ledger reduced to its length. -/
theorem read_eq_record (source : Source) (made : Ledger) :
    source.read made.length = (source.record made).map fun r => (r.1, r.2.length) :=
  matches_record source made

/-- The ledger after a source was read; a refused source leaves nothing. -/
def ledger (source : Source) (made : Ledger) : Ledger :=
  match source.record made with
  | .ok (_, after) => after
  | .error _ => made

theorem record_of_read {source : Source} {made : Ledger} {v : Value} {n : Nat}
    (h : source.read made.length = .ok (v, n)) :
    source.record made = .ok (v, source.ledger made) := by
  rw [read_eq_record] at h
  unfold ledger
  cases hr : source.record made with
  | error e => rw [hr] at h; cases h
  | ok r => rw [hr] at h; cases h; rfl

theorem bind_eq_ok {α β : Type} {x : Recording α} {f : α → Recording β} {made after : Ledger}
    {b : β} : (x >>= f) made = .ok (b, after) ↔
      ∃ a mid, x made = .ok (a, mid) ∧ f a mid = .ok (b, after) := by
  show (x made >>= fun r => f r.1 r.2) = _ ↔ _
  cases x made with
  | error e => exact ⟨nofun, fun ⟨_, _, h, _⟩ => nomatch h⟩
  | ok r =>
    constructor
    · intro h
      exact ⟨r.1, r.2, rfl, h⟩
    · rintro ⟨a, mid, hr, h⟩
      cases hr
      exact h

theorem pure_eq_ok {α : Type} {a b : α} {made after : Ledger}
    (h : (pure a : Recording α) made = .ok (b, after)) : a = b ∧ made = after := by
  cases h
  exact ⟨rfl, rfl⟩

theorem lift_eq_ok {α : Type} {r : Except SourceError α} {a : α} {made after : Ledger}
    (h : (r : Recording α) made = .ok (a, after)) : r = .ok a ∧ made = after := by
  cases r with
  | error e => cases h
  | ok b => cases h; exact ⟨rfl, rfl⟩

open Ledger

mutual

/-- **Recording leaves a sound ledger, with the value on record.** -/
theorem record_sound {made after : Ledger} {v : Value} (source : Source) (hs : Sound made)
    (h : source.record made = .ok (v, after)) : Records made after [v] := by
  cases source with
  | present inner => exact record_sound inner hs h
  | sequence items =>
    obtain ⟨vs, mid, hi, h⟩ := bind_eq_ok.1 h
    cases h
    exact (recordItems_sound items hs hi).array
  | map entries =>
    obtain ⟨ps, mid, he, h⟩ := bind_eq_ok.1 h
    cases h
    exact (recordEntries_sound entries hs he).object
  | wideInt | bytes | newtype | enumeration | failure => cases h
  | _ =>
    obtain ⟨rfl, rfl⟩ := pure_eq_ok h
    exact hs.records (List.forall_mem_singleton.2 (recorded_of_identity?_eq_none rfl))

theorem recordItems_sound {made after : Ledger} {vs : List Value} (items : List Source)
    (hs : Sound made) (h : recordItems items made = .ok (vs, after)) : Records made after vs := by
  cases items with
  | nil =>
    obtain ⟨rfl, rfl⟩ := pure_eq_ok h
    exact hs.records (by simp)
  | cons item items =>
    obtain ⟨v, mid, hv, h⟩ := bind_eq_ok.1 h
    obtain ⟨rest, last, hr, h⟩ := bind_eq_ok.1 h
    obtain ⟨rfl, rfl⟩ := pure_eq_ok h
    have hhead := record_sound item hs hv
    exact hhead.cons (recordItems_sound items hhead.sound hr)

theorem recordEntries_sound {made after : Ledger} {pairs : List (String × Value)}
    (entries : List (Source × Source)) (hs : Sound made)
    (h : recordEntries entries made = .ok (pairs, after)) :
    Records made after (pairs.map Prod.snd) := by
  match entries with
  | [] =>
    obtain ⟨rfl, rfl⟩ := pure_eq_ok h
    exact hs.records (by simp)
  | (key, value) :: entries =>
    obtain ⟨k, keyed, hk, h⟩ := bind_eq_ok.1 h
    obtain ⟨text, texted, ht, h⟩ := bind_eq_ok.1 h
    obtain ⟨v, mid, hv, h⟩ := bind_eq_ok.1 h
    obtain ⟨rest, last, hr, h⟩ := bind_eq_ok.1 h
    obtain ⟨rfl, rfl⟩ := pure_eq_ok h
    obtain ⟨-, rfl⟩ := lift_eq_ok ht
    -- Only the text of the key goes on; the value of the key is dropped.
    have hkey := record_sound key hs hk
    have hvalue := record_sound value hkey.sound hv
    have hrest := recordEntries_sound entries hvalue.sound hr
    have hall := hvalue.cons hrest
    exact ⟨hkey.later.trans hall.later, hall.sound, hall.recorded⟩

end

/-- **Reading keeps the ledger sound**, and the value that was read is on record. -/
theorem records_of_read {source : Source} {made : Ledger} {v : Value} {n : Nat} (hs : Sound made)
    (h : source.read made.length = .ok (v, n)) : Records made (source.ledger made) [v] :=
  record_sound source hs (record_of_read h)

end Source

end ShapeCheck
