import Mathlib.Data.List.Induction
import Mathlib.Data.List.Nodup
import Mathlib.Data.List.Perm.Subperm
import ShapeCheck.Entries
/-!
# Looking up in entries

What the entries of a list of pairs hold: at each key the value that the pairs give it last
(`mem_ofPairs`). The values are some of those of the pairs, none more often than it was given
(`ofPairs_subperm`). Where keys are distinct, an entry is found at its key, and two lists of as many
entries have the same keys as soon as one has all the keys of the other. Pairs with distinct keys
are entries already, and keys can be left out (`ofPairs_filter`) and values mapped (`ofPairs_map`)
before or after. Keys come in the order in which the pairs give them first (`keys_ofPairs`); that
order and the values given last are all that the entries depend on (`ofPairs_eq_of_lastGiven`).
-/
namespace ShapeCheck.Entries

variable {α : Type} {es fs : Entries α} {key : String} {value : α}

theorem mem_keys_of_mem (h : (key, value) ∈ es) : key ∈ es.keys :=
  List.mem_map_of_mem (f := Prod.fst) h

theorem mem_of_get? (h : get? es key = some value) : (key, value) ∈ es := by
  induction es with
  | nil => simp [get?] at h
  | cons e es ih =>
    obtain ⟨k, v⟩ := e
    rw [get?] at h
    split at h
    · rename_i hk; cases h; subst hk; exact List.mem_cons_self
    · exact List.mem_cons_of_mem _ (ih h)

theorem get?_eq_none_iff : get? es key = none ↔ key ∉ es.keys := by
  induction es with
  | nil => simp [get?, keys]
  | cons e es ih =>
    obtain ⟨k, v⟩ := e
    by_cases hk : k = key
    · simp [get?, keys, hk]
    · simp only [get?, hk, if_false, ih, keys, List.map_cons, List.mem_cons, not_or]
      exact ⟨fun h => ⟨Ne.symm hk, h⟩, And.right⟩

theorem exists_get?_of_mem_keys (h : key ∈ es.keys) : ∃ v, get? es key = some v := by
  cases hg : get? es key with
  | none => exact absurd h (get?_eq_none_iff.1 hg)
  | some v => exact ⟨v, rfl⟩

/-- Among distinct keys, an entry is what a look-up finds. -/
theorem get?_eq_some_iff (hd : es.Distinct) : get? es key = some value ↔ (key, value) ∈ es := by
  refine ⟨mem_of_get?, fun h => ?_⟩
  induction es with
  | nil => cases h
  | cons e es ih =>
    obtain ⟨k, v⟩ := e
    obtain ⟨hk, hd⟩ := List.nodup_cons.1 hd
    rcases List.mem_cons.1 h with h | h
    · cases h; simp [get?]
    · have hne : k ≠ key := fun e => hk (e ▸ mem_keys_of_mem h)
      simp [get?, hne, ih hd h]

/-- Among distinct keys, a look-up does not depend on the order. -/
theorem get?_eq_of_perm (hd : es.Distinct) (h : es.Perm fs) (key : String) :
    get? es key = get? fs key := by
  have hd' : fs.Distinct := (h.map Prod.fst).nodup_iff.1 hd
  ext value
  rw [get?_eq_some_iff hd, get?_eq_some_iff hd', h.mem_iff]

theorem get?_append (es fs : Entries α) (key : String) :
    get? (es ++ fs) key = (get? es key).or (get? fs key) := by
  induction es with
  | nil => rfl
  | cons e es ih =>
    obtain ⟨k, v⟩ := e
    by_cases hk : k = key
    · simp [get?, hk]
    · simp [get?, hk, ih]

/-- An entry between others is found at its key alone, if it is found. -/
theorem get?_append_cons_of_ne {k : String} (hk : k ≠ key) (before after : Entries α) (v : α) :
    get? (before ++ (k, v) :: after) key = get? (before ++ after) key := by
  rw [get?_append, get?_append, get?, if_neg hk]

theorem forall_mem_iff_get? (hd : es.Distinct) {Q : α → Prop} :
    (∀ e ∈ es, Q e.2) ↔ ∀ k v, get? es k = some v → Q v := by
  constructor
  · intro h k v hv
    exact h (k, v) (mem_of_get? hv)
  · intro h e he
    exact h e.1 e.2 ((get?_eq_some_iff hd).2 he)

/-- As many entries and every key of the others: then no key is left over. -/
theorem mem_keys_of_length_eq (hd : es.Distinct) (hlen : es.length = fs.length)
    (hsub : ∀ k ∈ es.keys, k ∈ fs.keys) (h : key ∈ fs.keys) : key ∈ es.keys := by
  have hle : fs.keys.length ≤ es.keys.length := by
    simp only [keys, List.length_map]
    omega
  have hperm : es.keys.Perm fs.keys := (List.subperm_of_subset hd hsub).perm_of_length_le hle
  exact hperm.mem_iff.2 h

/-! ## What pairs give -/

/-- The pairs give the key this value, and none after it gives the key another. -/
def LastGiven (pairs : List (String × α)) (key : String) (value : α) : Prop :=
  ∃ before after, pairs = before ++ (key, value) :: after ∧ key ∉ keys after

theorem lastGiven_append (pairs : List (String × α)) (k : String) (v : α) :
    LastGiven (pairs ++ [(k, v)]) key value ↔
      (k = key ∧ v = value) ∨ (k ≠ key ∧ LastGiven pairs key value) := by
  constructor
  · rintro ⟨before, after, h, hk⟩
    rcases List.eq_nil_or_concat after with rfl | ⟨after, p, rfl⟩
    · obtain ⟨rfl, hp⟩ := List.append_inj' h rfl
      cases hp; exact .inl ⟨rfl, rfl⟩
    · rw [List.concat_eq_append, ← List.cons_append, ← List.append_assoc] at h
      obtain ⟨rfl, hp⟩ := List.append_inj' h rfl
      cases hp
      simp only [List.concat_eq_append, keys, List.map_append, List.map_cons, List.map_nil,
        List.mem_append, List.mem_singleton, not_or] at hk
      exact .inr ⟨Ne.symm hk.2, before, after, rfl, hk.1⟩
  · rintro (⟨rfl, rfl⟩ | ⟨hk, before, after, rfl, ha⟩)
    · exact ⟨pairs, [], rfl, by simp [keys]⟩
    · refine ⟨before, after ++ [(k, v)], by simp, ?_⟩
      simpa [keys, Ne.symm hk] using ha

theorem get?_ofPairs (pairs : List (String × α)) (key : String) (value : α) :
    get? (ofPairs pairs) key = some value ↔ LastGiven pairs key value := by
  induction pairs using List.reverseRecOn with
  | nil => simp [ofPairs, takeOnce, get?, LastGiven]
  | append_singleton pairs p ih =>
    obtain ⟨k, v⟩ := p
    rw [ofPairs_append, get?_insert, lastGiven_append]
    by_cases hk : k = key
    · simp [hk]
    · simp [hk, ih]

/-- **Each key is held with the value given to it last.** -/
theorem mem_ofPairs (pairs : List (String × α)) (key : String) (value : α) :
    (key, value) ∈ ofPairs pairs ↔ LastGiven pairs key value := by
  rw [← get?_eq_some_iff (distinct_ofPairs pairs), get?_ofPairs]

theorem map_insert_subperm {β : Type} (f : String × α → β) (es : Entries α) (key : String)
    (value : α) : ((insert es key value).map f).Subperm (es.map f ++ [f (key, value)]) := by
  induction es with
  | nil => exact List.Subperm.refl _
  | cons e es ih =>
    obtain ⟨k, v⟩ := e
    rw [insert]
    split
    · -- The replaced entry is left out: the others keep their order.
      have hp : (f (key, value) :: es.map f).Perm (es.map f ++ [f (key, value)]) :=
        (List.perm_append_singleton _ _).symm
      exact (hp.subperm).trans (List.sublist_cons_self _ _).subperm
    · exact (List.subperm_cons _).2 ih

/-- Nothing is held more often than the pairs give it. -/
theorem ofPairs_subperm {β : Type} (f : String × α → β) (pairs : List (String × α)) :
    ((ofPairs pairs).map f).Subperm (pairs.map f) := by
  induction pairs using List.reverseRecOn with
  | nil => exact List.Subperm.refl _
  | append_singleton pairs p ih =>
    rw [ofPairs_append, List.map_append]
    exact (map_insert_subperm f _ _ _).trans (ih.append (List.Subperm.refl _))

/-! ## Some of the keys -/

theorem filter_insert (keep : String → Bool) (es : Entries α) (key : String) (value : α) :
    (insert es key value).filter (fun e => keep e.1) =
      if keep key then insert (es.filter fun e => keep e.1) key value
      else es.filter fun e => keep e.1 := by
  induction es with
  | nil => cases h : keep key <;> simp [insert, h]
  | cons e es ih =>
    obtain ⟨k, v⟩ := e
    by_cases hk : k = key
    · subst hk
      cases h : keep k <;> simp [insert, h]
    · rw [insert, if_neg hk]
      cases h : keep k with
      | true => cases h' : keep key <;> simp_all [insert]
      | false => simpa [h] using ih

/-- Leaving keys out of the pairs leaves them out of the entries. -/
theorem ofPairs_filter (keep : String → Bool) (pairs : List (String × α)) :
    ofPairs (pairs.filter fun p => keep p.1) = (ofPairs pairs).filter fun e => keep e.1 := by
  induction pairs using List.reverseRecOn with
  | nil => rfl
  | append_singleton pairs p ih =>
    obtain ⟨k, v⟩ := p
    rw [List.filter_append, ofPairs_append, filter_insert, ← ih]
    cases h : keep k with
    | true => simpa [h] using ofPairs_append _ k v
    | false => simp [h]

/-- Pairs that give each key the same value last differ in the order of the entries alone. -/
theorem ofPairs_perm_of_lastGiven {pairs others : List (String × α)}
    (h : ∀ key value, LastGiven pairs key value ↔ LastGiven others key value) :
    (ofPairs pairs).Perm (ofPairs others) := by
  have hpairs : (ofPairs pairs).Nodup := List.Nodup.of_map Prod.fst (distinct_ofPairs pairs)
  have hothers : (ofPairs others).Nodup := List.Nodup.of_map Prod.fst (distinct_ofPairs others)
  refine (List.perm_ext_iff_of_nodup hpairs hothers).2 fun e => ?_
  rw [mem_ofPairs, mem_ofPairs, h]

/-! ## Pairs that are entries already -/

/-- A key that is not among the first entries is inserted into the others. -/
theorem insert_append_of_not_mem (h : key ∉ es.keys) (fs : Entries α) (value : α) :
    insert (es ++ fs) key value = es ++ insert fs key value := by
  induction es with
  | nil => rfl
  | cons e es ih =>
    obtain ⟨k, v⟩ := e
    simp only [keys, List.map_cons, List.mem_cons, not_or] at h
    rw [List.cons_append, insert, if_neg (Ne.symm h.1), ih h.2]
    rfl

theorem insert_of_not_mem (h : key ∉ es.keys) : insert es key value = es ++ [(key, value)] := by
  simpa [insert] using insert_append_of_not_mem h [] value

/-- Distinct keys stay where they are. -/
theorem ofPairs_of_distinct {pairs : List (String × α)} (h : Distinct pairs) :
    ofPairs pairs = pairs := by
  induction pairs using List.reverseRecOn with
  | nil => rfl
  | append_singleton pairs p ih =>
    simp only [Distinct, keys, List.map_append, List.map_cons, List.map_nil, List.nodup_append,
      List.mem_singleton] at h
    obtain ⟨hd, -, hp⟩ := h
    rw [ofPairs_append, ih hd]
    exact insert_of_not_mem fun hm => hp _ hm _ rfl rfl

theorem insert_map {β : Type} (f : α → β) (es : Entries α) (key : String) (value : α) :
    insert (es.map fun e => (e.1, f e.2)) key (f value) =
      (insert es key value).map fun e => (e.1, f e.2) := by
  induction es with
  | nil => rfl
  | cons e es ih =>
    obtain ⟨k, v⟩ := e
    rw [List.map_cons, insert, insert]
    split
    · rfl
    · rw [ih, List.map_cons]

/-- Which pairs are kept depends on the keys alone. -/
theorem ofPairs_map {β : Type} (f : α → β) (pairs : List (String × α)) :
    ofPairs (pairs.map fun p => (p.1, f p.2)) = (ofPairs pairs).map fun e => (e.1, f e.2) := by
  induction pairs using List.reverseRecOn with
  | nil => rfl
  | append_singleton pairs p ih =>
    rw [List.map_append, List.map_singleton, ofPairs_append, ofPairs_append, ih, insert_map]

/-! ## The order of keys -/

theorem keys_insert_of_mem (h : key ∈ es.keys) (value : α) :
    keys (insert es key value) = es.keys := by
  induction es with
  | nil => cases h
  | cons e es ih =>
    obtain ⟨k, v⟩ := e
    rw [insert]
    split
    · rename_i hk
      exact congrArg (· :: keys es) hk.symm
    · rename_i hk
      have hes : key ∈ keys es := (List.mem_cons.1 h).resolve_left (Ne.symm hk)
      exact congrArg (k :: ·) (ih hes)

theorem keys_insert_of_not_mem (h : key ∉ es.keys) (value : α) :
    keys (insert es key value) = es.keys ++ [key] := by
  rw [insert_of_not_mem h, keys, List.map_append]
  rfl

/-- **Each key stands where it was given first.** -/
theorem keys_ofPairs (pairs : List (String × α)) :
    keys (ofPairs pairs) = (keys pairs).eraseDups := by
  induction pairs using List.reverseRecOn with
  | nil => rfl
  | append_singleton pairs p ih =>
    obtain ⟨k, v⟩ := p
    have hkeys : keys (pairs ++ [(k, v)]) = keys pairs ++ [k] := List.map_append
    rw [ofPairs_append, hkeys, List.eraseDups_append]
    by_cases hk : k ∈ keys pairs
    · have hmem : k ∈ keys (ofPairs pairs) := by rw [ih]; exact List.mem_eraseDups.2 hk
      rw [keys_insert_of_mem hmem, ih]
      simp [List.removeAll, hk]
    · have hmem : k ∉ keys (ofPairs pairs) := by rw [ih]; exact mt List.mem_eraseDups.1 hk
      rw [keys_insert_of_not_mem hmem, ih]
      simp [List.removeAll, hk, List.eraseDups_cons]

theorem length_ofPairs (pairs : List (String × α)) :
    (ofPairs pairs).length = (keys pairs).eraseDups.length := by
  rw [← keys_ofPairs, keys, List.length_map]

theorem get?_ofPairs_eq_none_iff {pairs : List (String × α)} :
    get? (ofPairs pairs) key = none ↔ key ∉ keys pairs := by
  rw [get?_eq_none_iff, keys_ofPairs, List.mem_eraseDups]

theorem exists_get?_ofPairs_of_mem_keys {pairs : List (String × α)} (h : key ∈ keys pairs) :
    ∃ value, get? (ofPairs pairs) key = some value := by
  refine exists_get?_of_mem_keys ?_
  rw [keys_ofPairs]
  exact List.mem_eraseDups.2 h

/-- Pairs with other keys make entries of their own. -/
theorem ofPairs_append_of_disjoint {pairs others : List (String × α)}
    (h : (keys pairs).Disjoint (keys others)) :
    ofPairs (pairs ++ others) = ofPairs pairs ++ ofPairs others := by
  induction others using List.reverseRecOn with
  | nil => simp [ofPairs, takeOnce]
  | append_singleton others p ih =>
    obtain ⟨k, v⟩ := p
    simp only [keys, List.map_append, List.map_cons, List.map_nil, List.disjoint_append_right,
      List.disjoint_singleton] at h
    obtain ⟨hothers, hk⟩ := h
    have hkeys : k ∉ keys (ofPairs pairs) := by
      rw [keys_ofPairs]
      exact mt List.mem_eraseDups.1 hk
    rw [← List.append_assoc, ofPairs_append, ih hothers, ofPairs_append,
      insert_append_of_not_mem hkeys]

theorem ofPairs_flatten_of_disjoint {lists : List (List (String × α))}
    (h : lists.Pairwise fun pairs others => (keys pairs).Disjoint (keys others)) :
    ofPairs lists.flatten = (lists.map ofPairs).flatten := by
  induction lists with
  | nil => rfl
  | cons pairs lists ih =>
    obtain ⟨hpairs, hlists⟩ := List.pairwise_cons.1 h
    have hdisjoint : (keys pairs).Disjoint (keys lists.flatten) := by
      intro key hkey hmem
      obtain ⟨p, hp, rfl⟩ := List.mem_map.1 hmem
      obtain ⟨others, hothers, hp⟩ := List.mem_flatten.1 hp
      exact hpairs others hothers hkey (List.mem_map_of_mem hp)
    rw [List.flatten_cons, ofPairs_append_of_disjoint hdisjoint, ih hlists]
    rfl

/-- Distinct keys in the same order and the same values at them make the same entries. -/
theorem eq_of_keys_eq (hd : es.Distinct) (hk : es.keys = fs.keys)
    (h : ∀ key, get? es key = get? fs key) : es = fs := by
  induction es generalizing fs with
  | nil => exact (List.map_eq_nil_iff.1 hk.symm).symm
  | cons e es ih =>
    obtain ⟨k, v⟩ := e
    cases fs with
    | nil => cases hk
    | cons f fs =>
      obtain ⟨k', v'⟩ := f
      obtain ⟨rfl, hkeys⟩ : k = k' ∧ keys es = keys fs := List.cons.inj hk
      obtain ⟨hnew, hd⟩ : k ∉ keys es ∧ Distinct es := List.nodup_cons.1 hd
      have hv : v = v' := by simpa [get?] using h k
      have hrest : es = fs := by
        refine ih hd hkeys fun key => ?_
        by_cases hkey : k = key
        · subst hkey
          rw [get?_eq_none_iff.2 hnew, get?_eq_none_iff.2 (hkeys ▸ hnew)]
        · simpa [get?, hkey] using h key
      rw [hv, hrest]

/-- **The entries depend on nothing but the order of the keys and the values given last.** -/
theorem ofPairs_eq_of_lastGiven {pairs others : List (String × α)}
    (hk : (keys pairs).eraseDups = (keys others).eraseDups)
    (h : ∀ key value, LastGiven pairs key value ↔ LastGiven others key value) :
    ofPairs pairs = ofPairs others := by
  refine eq_of_keys_eq (distinct_ofPairs pairs) ?_ fun key => ?_
  · rw [keys_ofPairs, keys_ofPairs, hk]
  · ext value
    rw [get?_ofPairs, get?_ofPairs, h]

theorem get?_ofPairs_eq_get?_reverse (pairs : List (String × α)) (key : String) :
    get? (ofPairs pairs) key = get? pairs.reverse key := by
  induction pairs using List.reverseRecOn with
  | nil => rfl
  | append_singleton pairs p ih =>
    rw [ofPairs_append, get?_insert, ih, List.reverse_append]
    rfl

theorem lastGiven_iff_get?_reverse {pairs : List (String × α)} :
    LastGiven pairs key value ↔ get? pairs.reverse key = some value := by
  rw [← get?_ofPairs, get?_ofPairs_eq_get?_reverse]

/-- What is given last by several lists together is given last by one of them. -/
theorem exists_lastGiven_of_flatten {lists : List (List (String × α))}
    (h : LastGiven lists.flatten key value) : ∃ pairs ∈ lists, LastGiven pairs key value := by
  induction lists with
  | nil =>
    rw [lastGiven_iff_get?_reverse] at h
    cases h
  | cons pairs lists ih =>
    rw [lastGiven_iff_get?_reverse, List.flatten_cons, List.reverse_append, get?_append,
      Option.or_eq_some_iff, ← lastGiven_iff_get?_reverse, ← lastGiven_iff_get?_reverse] at h
    rcases h with h | ⟨-, h⟩
    · obtain ⟨others, hothers, h⟩ := ih h
      exact ⟨others, List.mem_cons_of_mem pairs hothers, h⟩
    · exact ⟨pairs, List.mem_cons_self, h⟩

/-- A value whose key is given again does not matter. -/
theorem ofPairs_overwritten {before after : List (String × α)} (h : key ∈ keys after)
    (old new : α) :
    ofPairs (before ++ (key, old) :: after) = ofPairs (before ++ (key, new) :: after) := by
  refine eq_of_keys_eq (distinct_ofPairs _) ?_ fun k => ?_
  · rw [keys_ofPairs, keys_ofPairs]
    simp [keys]
  · have hreverse : ∀ value, (before ++ (key, value) :: after).reverse =
        after.reverse ++ (key, value) :: before.reverse := by simp
    rw [get?_ofPairs_eq_get?_reverse, get?_ofPairs_eq_get?_reverse, hreverse, hreverse]
    by_cases hk : key = k
    · subst hk
      have hmem : key ∈ keys after.reverse := by simpa [keys] using h
      obtain ⟨value, hvalue⟩ := exists_get?_of_mem_keys hmem
      rw [get?_append, get?_append, hvalue]
      rfl
    · rw [get?_append_cons_of_ne hk, get?_append_cons_of_ne hk]

end ShapeCheck.Entries
