import Std.Data.HashMap
/-!
# Entries in insertion order

Keyed entries are a list of pairs, read in its order. A key that is given again keeps its first
position and takes the last value. `Entries.insert` says this for one more pair, and
`ofPairs_eq_insertAll` is the main statement: `Entries.ofPairs`, which walks the pairs once beside a
hash table, builds what inserting them one after another builds.
-/
namespace ShapeCheck

abbrev Entries (α : Type) : Type := List (String × α)

namespace Entries

variable {α : Type}

def keys (es : Entries α) : List String := es.map Prod.fst

/-- No key has two entries. -/
def Distinct (es : Entries α) : Prop := es.keys.Nodup

/-- The value at a key. -/
def get? : Entries α → String → Option α
  | [], _ => none
  | (k, v) :: es, key => if k = key then some v else get? es key

/-- One more pair: a known key keeps its place, a new one goes to the end. -/
def insert : Entries α → String → α → Entries α
  | [], key, value => [(key, value)]
  | (k, v) :: es, key, value =>
    if k = key then (key, value) :: es else (k, v) :: insert es key value

/-- The pairs inserted one after another. -/
def insertAll (pairs : List (String × α)) : Entries α :=
  pairs.foldl (fun es p => es.insert p.1 p.2) []

theorem get?_insert (es : Entries α) (key key' : String) (value : α) :
    get? (insert es key value) key' = if key = key' then some value else get? es key' := by
  induction es with
  | nil => simp [insert, get?]
  | cons e es ih =>
    obtain ⟨k, v⟩ := e
    by_cases h : k = key
    · subst h; by_cases h' : k = key' <;> simp [insert, get?, h']
    · by_cases h' : k = key'
      · subst h'; simp [insert, get?, h, Ne.symm h]
      · simp [insert, get?, h, h', ih]

theorem mem_keys_insert (es : Entries α) (key key' : String) (value : α) :
    key' ∈ keys (insert es key value) ↔ key' = key ∨ key' ∈ es.keys := by
  induction es with
  | nil => simp [insert, keys]
  | cons e es ih =>
    obtain ⟨k, v⟩ := e
    by_cases h : k = key
    · subst h; simp [insert, keys]
    · simp only [insert, h, if_false]
      simp only [keys, List.map_cons, List.mem_cons] at ih ⊢
      rw [ih]; exact or_left_comm

theorem distinct_insert {es : Entries α} (h : es.Distinct) (key : String) (value : α) :
    Distinct (insert es key value) := by
  induction es with
  | nil => simp [insert, Distinct, keys]
  | cons e es ih =>
    obtain ⟨k, v⟩ := e
    simp only [Distinct, keys, List.map_cons, List.nodup_cons] at h
    by_cases hk : k = key
    · subst hk; simpa [insert, Distinct, keys] using h
    · simp only [insert, hk, if_false, Distinct, keys, List.map_cons, List.nodup_cons]
      refine ⟨fun hm => ?_, ih h.2⟩
      rcases (mem_keys_insert es key k value).1 hm with h' | h'
      · exact hk h'
      · exact h.1 h'

/-! ## Building from pairs -/

/-- A table that looks up as the entries do. -/
def index (es : Entries α) : Std.HashMap String α :=
  es.foldr (fun e table => table.insert e.1 e.2) ∅

theorem getElem?_index (es : Entries α) (key : String) : (index es)[key]? = get? es key := by
  induction es with
  | nil => simp [index, get?]
  | cons e es ih =>
    show ((index es).insert e.1 e.2)[key]? = _
    simp [Std.HashMap.getElem?_insert, get?, ih]

/-- A table of the last value given for each key. -/
def lastValues (pairs : List (String × α)) : Std.HashMap String α :=
  pairs.foldl (fun table p => table.insert p.1 p.2) ∅

/-- Takes each key where it appears first, with its value in the table, and crosses it off. -/
def takeOnce : List (String × α) → Std.HashMap String α → Entries α
  | [], _ => []
  | (k, _) :: pairs, table =>
    match table[k]? with
    | some v => (k, v) :: takeOnce pairs (table.erase k)
    | none => takeOnce pairs table

/-- The entries that `collect` makes of a list of pairs: each key at its first position, with its
last value. -/
def ofPairs (pairs : List (String × α)) : Entries α :=
  takeOnce pairs (lastValues pairs)

theorem takeOnce_congr (pairs : List (String × α)) {s t : Std.HashMap String α}
    (h : ∀ k : String, s[k]? = t[k]?) : takeOnce pairs s = takeOnce pairs t := by
  induction pairs generalizing s t with
  | nil => rfl
  | cons p pairs ih =>
    obtain ⟨k, v⟩ := p
    have he : ∀ x : String, (s.erase k)[x]? = (t.erase k)[x]? := by
      intro x; simp [Std.HashMap.getElem?_erase, h]
    simp only [takeOnce, h k, ih he, ih h]

theorem takeOnce_append_of_none (pairs : List (String × α)) (key : String) (value : α)
    {table : Std.HashMap String α} (h : table[key]? = none) :
    takeOnce (pairs ++ [(key, value)]) table = takeOnce pairs table := by
  induction pairs generalizing table with
  | nil => simp [takeOnce, h]
  | cons p pairs ih =>
    obtain ⟨k, v⟩ := p
    have he : (table.erase k)[key]? = none := by simp [Std.HashMap.getElem?_erase, h]
    simp only [List.cons_append, takeOnce, ih he, ih h]

theorem takeOnce_append (pairs : List (String × α)) (key : String) (value : α)
    {table : Std.HashMap String α} (h : key ∈ keys pairs → table[key]? ≠ none) :
    takeOnce (pairs ++ [(key, value)]) (table.insert key value) =
      insert (takeOnce pairs table) key value := by
  induction pairs generalizing table with
  | nil => simp [takeOnce, insert]
  | cons p pairs ih =>
    obtain ⟨k, v⟩ := p
    by_cases hk : k = key
    · subst hk
      obtain ⟨w, hw⟩ := Option.ne_none_iff_exists'.1 (h (by simp [keys]))
      have hc : ∀ x : String, ((table.insert k value).erase k)[x]? = (table.erase k)[x]? := by
        intro x
        by_cases hx : k = x <;> simp [Std.HashMap.getElem?_erase, Std.HashMap.getElem?_insert, hx]
      have hn : (table.erase k)[k]? = none := by simp
      simp only [List.cons_append, takeOnce, Std.HashMap.getElem?_insert_self, hw, insert, if_true]
      rw [takeOnce_congr _ hc, takeOnce_append_of_none _ _ _ hn]
    · have hk' : ¬ key = k := fun e => hk e.symm
      have hs : (table.insert key value)[k]? = table[k]? := by
        simp [Std.HashMap.getElem?_insert, hk']
      have hmem : key ∈ keys pairs → key ∈ keys ((k, v) :: pairs) := fun hm => by
        simp only [keys, List.map_cons, List.mem_cons] at hm ⊢; exact .inr hm
      simp only [List.cons_append, takeOnce, hs]
      cases ht : table[k]? with
      | none => exact ih fun hm => h (hmem hm)
      | some w =>
        have hc : ∀ x : String, ((table.insert key value).erase k)[x]? =
            ((table.erase k).insert key value)[x]? := by
          intro x
          simp only [Std.HashMap.getElem?_erase, Std.HashMap.getElem?_insert]
          by_cases h1 : k = x <;> by_cases h2 : key = x <;> simp_all
        have hp : key ∈ keys pairs → (table.erase k)[key]? ≠ none := fun hm => by
          simpa [Std.HashMap.getElem?_erase, hk] using h (hmem hm)
        simp only [insert, hk, if_false]
        rw [takeOnce_congr _ hc, ih hp]

theorem getElem?_lastValues_ne_none {pairs : List (String × α)} {key : String}
    (h : key ∈ keys pairs) : (lastValues pairs)[key]? ≠ none := by
  suffices ∀ table : Std.HashMap String α, key ∈ keys pairs ∨ table[key]? ≠ none →
      (pairs.foldl (fun table p => table.insert p.1 p.2) table)[key]? ≠ none from
    this ∅ (.inl h)
  clear h
  induction pairs with
  | nil => intro table h; simpa [keys] using h
  | cons p pairs ih =>
    intro table h
    refine ih _ ?_
    by_cases hp : p.1 = key
    · right; simp [hp]
    · rcases h with h | h
      · left; simpa [keys, Ne.symm hp] using h
      · right; simpa [Std.HashMap.getElem?_insert, hp] using h

theorem ofPairs_append (pairs : List (String × α)) (key : String) (value : α) :
    ofPairs (pairs ++ [(key, value)]) = insert (ofPairs pairs) key value := by
  have h : lastValues (pairs ++ [(key, value)]) = (lastValues pairs).insert key value := by
    simp [lastValues]
  rw [ofPairs, h, takeOnce_append _ _ _ getElem?_lastValues_ne_none, ofPairs]

/-- **Walking the pairs once builds what inserting them one after another builds.** -/
theorem ofPairs_eq_insertAll (pairs : List (String × α)) : ofPairs pairs = insertAll pairs := by
  suffices ∀ rev : List (String × α), ofPairs rev.reverse = insertAll rev.reverse by
    simpa using this pairs.reverse
  intro rev
  induction rev with
  | nil => rfl
  | cons p rev ih =>
    have h : insertAll (rev.reverse ++ [p]) = insert (insertAll rev.reverse) p.1 p.2 := by
      simp only [insertAll, List.foldl_append, List.foldl_cons, List.foldl_nil]
    rw [List.reverse_cons, ofPairs_append, ih, h]

theorem distinct_ofPairs (pairs : List (String × α)) : Distinct (ofPairs pairs) := by
  rw [ofPairs_eq_insertAll, insertAll]
  suffices ∀ es : Entries α, es.Distinct →
      Distinct (pairs.foldl (fun es p => es.insert p.1 p.2) es) from
    this [] (by simp [Distinct, keys])
  induction pairs with
  | nil => exact fun _ h => h
  | cons p pairs ih => exact fun es h => ih _ (distinct_insert h p.1 p.2)

end Entries

end ShapeCheck
