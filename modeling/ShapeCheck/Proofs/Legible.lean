import Mathlib.Data.List.Forall2
import ShapeCheck.Text.Layout
/-!
# Legible texts

A text is legible if it shows where it ends: whatever follows it, what it is the text of can be told
from the front. Escaped characters are legible, so quoted strings are, and so are lists, tables and
applied names of legible parts. Two ways lead there. A part without the character that closes it is
legible with that character behind it (`legible_closed`), and so is a row of legible parts none of
which begins with it (`legible_row`).
-/
namespace ShapeCheck.Text

variable {α : Type}

/-- From the text of a thing, with anything behind it, one can tell the thing, up to what counts as
the same, and what is behind it. -/
def Legible (text : α → List Char) (same : α → α → Prop) (a : α) : Prop :=
  ∀ b rest others, text a ++ rest = text b ++ others → same a b ∧ rest = others

variable {text : α → List Char} {same : α → α → Prop} {a : α}

/-- What has the text of a legible part, and is told by that part, is legible. -/
theorem Legible.of_part {β : Type} {whole : β → List Char} {alike : β → β → Prop} {f : β → α}
    {b : β} (h : Legible text same (f b)) (htext : ∀ c, whole c = text (f c))
    (halike : ∀ c, same (f b) (f c) → alike b c) : Legible whole alike b := by
  intro c rest others heq
  rw [htext, htext] at heq
  exact (h (f c) rest others heq).imp_left (halike c)

theorem Legible.prefixed (h : Legible text same a) (front : List Char) :
    Legible (fun b => front ++ text b) same a := by
  intro b rest others heq
  rw [List.append_assoc, List.append_assoc] at heq
  exact h b rest others (List.append_cancel_left heq)

theorem Legible.closed (h : Legible text same a) (close : List Char) :
    Legible (fun b => text b ++ close) same a := by
  intro b rest others heq
  rw [List.append_assoc, List.append_assoc] at heq
  obtain ⟨hsame, hrest⟩ := h b _ _ heq
  exact ⟨hsame, List.append_cancel_left hrest⟩

/-! ## Closing characters -/

theorem eq_of_append_cons {close : Char} {xs ys rest others : List Char} (hx : close ∉ xs)
    (hy : close ∉ ys) (h : xs ++ close :: rest = ys ++ close :: others) :
    xs = ys ∧ rest = others := by
  induction xs generalizing ys with
  | nil =>
    cases ys with
    | nil => exact ⟨rfl, (List.cons.inj h).2⟩
    | cons y ys => exact absurd ((List.cons.inj h).1 ▸ List.mem_cons_self) hy
  | cons x xs ih =>
    cases ys with
    | nil => exact absurd ((List.cons.inj h).1 ▸ List.mem_cons_self) hx
    | cons y ys =>
      obtain ⟨hxy, hmore⟩ := List.cons.inj h
      obtain ⟨hxs, hrest⟩ :=
        ih (List.not_mem_of_not_mem_cons hx) (List.not_mem_of_not_mem_cons hy) hmore
      exact ⟨by rw [hxy, hxs], hrest⟩

/-- A text ends at the first of the characters that it does not have. -/
theorem legible_closed {close : Char} (hclose : ∀ b, close ∉ text b)
    (h : ∀ b, text a = text b → same a b) : Legible (fun b => text b ++ [close]) same a := by
  intro b rest others heq
  rw [List.append_assoc, List.append_assoc] at heq
  obtain ⟨htext, hrest⟩ := eq_of_append_cons (hclose a) (hclose b) heq
  exact ⟨h b htext, hrest⟩

/-- Texts that begin with another character than this one. -/
def OpensApart (text : α → List Char) (close : Char) : Prop :=
  ∀ a, ∃ c cs, text a = c :: cs ∧ c ≠ close

theorem OpensApart.ne_cons {close : Char} (h : OpensApart text close) (b : α)
    (rest others : List Char) : text b ++ rest ≠ close :: others := by
  obtain ⟨c, cs, hc, hne⟩ := h b
  rw [hc]
  exact fun heq => hne (List.cons.inj heq).1

/-- A row ends where nothing begins that could be in it. -/
theorem legible_row {close : Char} (hopen : OpensApart text close) {as : List α}
    (h : ∀ a ∈ as, Legible text same a) :
    Legible (fun bs : List α => bs.flatMap text ++ [close]) (List.Forall₂ same) as := by
  induction as with
  | nil =>
    intro bs rest others heq
    cases bs with
    | nil => exact ⟨.nil, (List.cons.inj heq).2⟩
    | cons b bs =>
      simp only [List.flatMap_cons, List.append_assoc] at heq
      exact absurd heq.symm (hopen.ne_cons b _ _)
  | cons a as ih =>
    obtain ⟨ha, has⟩ := List.forall_mem_cons.1 h
    intro bs rest others heq
    simp only [List.flatMap_cons, List.append_assoc] at heq
    cases bs with
    | nil => exact absurd heq (hopen.ne_cons a _ _)
    | cons b bs =>
      simp only [List.flatMap_cons, List.append_assoc] at heq
      obtain ⟨hab, heq⟩ := ha b _ _ heq
      obtain ⟨hall, hrest⟩ := ih has bs rest others (by simpa only [List.append_assoc] using heq)
      exact ⟨.cons hab hall, hrest⟩

/-! ## Quoted strings -/

/-- Escapes of two characters: the second one, and what they stand for. -/
def shortEscapes : List (Char × Char) :=
  [('0', '\x00'), ('t', '\t'), ('n', '\n'), ('r', '\r'), ('"', '"'), ('\\', '\\')]

/-- A character stands for itself, or has an escape of two characters, or is spelled as a number. -/
theorem escape_cases (c : Char) :
    (escape c = [c] ∧ c ≠ '\\' ∧ c ≠ '"') ∨
      (∃ mark, escape c = ['\\', mark] ∧ (mark, c) ∈ shortEscapes) ∨
      escape c = ['\\', 'u', '\x7b'] ++ (Nat.toDigits 16 c.toNat ++ ['\x7d']) := by
  unfold escape
  split
  · exact .inr (.inl ⟨'0', rfl, by decide⟩)
  · exact .inr (.inl ⟨'t', rfl, by decide⟩)
  · exact .inr (.inl ⟨'n', rfl, by decide⟩)
  · exact .inr (.inl ⟨'r', rfl, by decide⟩)
  · exact .inr (.inl ⟨'"', rfl, by decide⟩)
  · exact .inr (.inl ⟨'\\', rfl, by decide⟩)
  · next hquote hslash =>
    split
    · exact .inl ⟨rfl, hslash, hquote⟩
    · exact .inr (.inr (List.append_assoc _ _ _))

/-- The last digit of a number in base sixteen, behind the others. -/
theorem toDigits_sixteen (n : Nat) : Nat.toDigits 16 n =
    (if n < 16 then [] else Nat.toDigits 16 (n / 16)) ++ [Nat.digitChar (n % 16)] := by
  rw [Nat.toDigits_eq_if (by decide)]
  split
  next h => rw [Nat.mod_eq_of_lt h, List.nil_append]
  next h => rfl

theorem digitChar_inj_of_lt : ∀ d < 16, ∀ e < 16, Nat.digitChar d = Nat.digitChar e → d = e := by
  decide

theorem toDigits_sixteen_injective : Function.Injective (Nat.toDigits 16) := by
  intro n
  induction n using Nat.strongRecOn with
  | ind n ih =>
    intro m h
    rw [toDigits_sixteen n, toDigits_sixteen m] at h
    obtain ⟨hfront, hlast⟩ := List.append_inj' h rfl
    have hmod : n % 16 = m % 16 := digitChar_inj_of_lt _ (Nat.mod_lt n (by decide)) _
      (Nat.mod_lt m (by decide)) (List.singleton_inj.1 hlast)
    by_cases hn : n < 16 <;> by_cases hm : m < 16
    · omega
    · rw [if_pos hn, if_neg hm] at hfront
      exact absurd hfront.symm Nat.toDigits_ne_nil
    · rw [if_neg hn, if_pos hm] at hfront
      exact absurd hfront Nat.toDigits_ne_nil
    · rw [if_neg hn, if_neg hm] at hfront
      have hdiv := ih (n / 16) (by omega) hfront
      omega

theorem not_mem_toDigits_sixteen (n : Nat) : '\x7d' ∉ Nat.toDigits 16 n := by
  have hdigit : ∀ d < 16, '\x7d' ≠ Nat.digitChar d := by decide
  induction n using Nat.strongRecOn with
  | ind n ih =>
    rw [toDigits_sixteen, List.mem_append, List.mem_singleton]
    rintro (h | h)
    · split at h
      · cases h
      · exact ih (n / 16) (by omega) h
    · exact hdigit _ (Nat.mod_lt n (by decide)) h

theorem legible_spelled (c : Char) : Legible
    (fun c : Char => ['\\', 'u', '\x7b'] ++ (Nat.toDigits 16 c.toNat ++ ['\x7d'])) Eq c :=
  (legible_closed (fun _ => not_mem_toDigits_sixteen _) fun _ h =>
    Char.toNat_inj.1 (toDigits_sixteen_injective h)).prefixed _

/-- **An escaped character shows which one it is, and where it ends.** -/
theorem legible_escape (c : Char) : Legible escape Eq c := by
  have hunique : ∀ p ∈ shortEscapes, ∀ q ∈ shortEscapes, p.1 = q.1 → p.2 = q.2 := by decide
  have hspelled : ∀ p ∈ shortEscapes, p.1 ≠ 'u' := by decide
  intro d rest others h
  rcases escape_cases c with ⟨hc, hslash, -⟩ | ⟨mark, hc, hmark⟩ | hc <;>
    rcases escape_cases d with ⟨hd, hslash', -⟩ | ⟨mark', hd, hmark'⟩ | hd <;>
    rw [hc, hd] at h
  · exact List.cons.inj h
  · exact absurd (List.cons.inj h).1 hslash
  · exact absurd (List.cons.inj h).1 hslash
  · exact absurd (List.cons.inj h).1.symm hslash'
  · obtain ⟨heq, hrest⟩ := List.cons.inj (List.cons.inj h).2
    exact ⟨hunique _ hmark _ hmark' heq, hrest⟩
  · exact absurd (List.cons.inj (List.cons.inj h).2).1 (hspelled _ hmark)
  · exact absurd (List.cons.inj h).1.symm hslash'
  · exact absurd (List.cons.inj (List.cons.inj h).2).1.symm (hspelled _ hmark')
  · exact legible_spelled c d rest others h

theorem opensApart_escape : OpensApart escape '"' := by
  intro c
  rcases escape_cases c with ⟨hc, -, hquote⟩ | ⟨mark, hc, -⟩ | hc
  · exact ⟨c, [], hc, hquote⟩
  · exact ⟨'\\', [mark], hc, by decide⟩
  · exact ⟨'\\', _, hc, by decide⟩

/-- **A quoted string shows which string it is, whatever characters are in it.** -/
theorem legible_quote (s : String) : Legible (fun t => (quote t).toList) Eq s := by
  have hrow := legible_row opensApart_escape fun c (_ : c ∈ s.toList) => legible_escape c
  refine (hrow.prefixed ['"']).of_part (fun t => String.toList_ofList) fun t hall => ?_
  rw [List.forall₂_eq_eq_eq] at hall
  exact String.toList_inj.1 hall

/-! ## Parts of structures -/

variable {shown : α → String}

theorem toList_commas (a : α) (as : List α) :
    (commas ((a :: as).map shown)).toList =
      (shown a).toList ++ as.flatMap fun b => [',', ' '] ++ (shown b).toList := by
  rw [commas]
  induction as generalizing a with
  | nil => simp
  | cons b as ih =>
    rw [List.map_cons, List.map_cons, String.intercalate_cons_cons, ← List.map_cons,
      String.toList_append, String.toList_append, ih b, List.flatMap_cons]
    simp

/-- Parts with commas between them show which ones they are, up to what closes them. -/
theorem legible_commas {close : Char} (hcomma : ',' ≠ close)
    (hopen : OpensApart (fun a => (shown a).toList) close) {as : List α}
    (h : ∀ a ∈ as, Legible (fun b => (shown b).toList) same a) :
    Legible (fun bs : List α => (commas (bs.map shown)).toList ++ [close]) (List.Forall₂ same)
      as := by
  -- After the first part comes a row of parts with a comma and a blank in front.
  have hrow : OpensApart (fun a => [',', ' '] ++ (shown a).toList) close :=
    fun a => ⟨',', ' ' :: (shown a).toList, rfl, hcomma⟩
  intro bs rest others heq
  cases as with
  | nil =>
    cases bs with
    | nil => exact ⟨.nil, (List.cons.inj heq).2⟩
    | cons b bs =>
      simp only [toList_commas, List.append_assoc] at heq
      exact absurd heq.symm (hopen.ne_cons b _ _)
  | cons a as =>
    obtain ⟨ha, has⟩ := List.forall_mem_cons.1 h
    simp only [toList_commas, List.append_assoc] at heq
    cases bs with
    | nil => exact absurd heq (hopen.ne_cons a _ _)
    | cons b bs =>
      simp only [toList_commas, List.append_assoc] at heq
      obtain ⟨hab, heq⟩ := ha b _ _ heq
      obtain ⟨hall, hrest⟩ := legible_row hrow (fun c hc => (has c hc).prefixed _) bs rest others
        (by simpa only [List.append_assoc] using heq)
      exact ⟨.cons hab hall, hrest⟩

theorem legible_bracketed (hopen : OpensApart (fun a => (shown a).toList) ']') {as : List α}
    (h : ∀ a ∈ as, Legible (fun b => (shown b).toList) same a) :
    Legible (fun bs : List α => (bracketed (bs.map shown)).toList) (List.Forall₂ same) as := by
  refine ((legible_commas (by decide) hopen h).prefixed ['[']).of_part (f := id) (fun bs => ?_)
    fun _ => id
  simp [bracketed]

/-- A key and a part, as a table shows them. -/
def entry (shown : α → String) (a : String × α) : String := quote a.1 ++ ": " ++ shown a.2

theorem legible_entry {a : String × α} (h : Legible (fun b => (shown b).toList) same a.2) :
    Legible (fun b => (entry shown b).toList) (fun a b => a.1 = b.1 ∧ same a.2 b.2) a := by
  intro b rest others heq
  simp only [entry, String.toList_append, List.append_assoc] at heq
  obtain ⟨hkey, heq⟩ := legible_quote a.1 b.1 _ _ heq
  obtain ⟨hsame, hrest⟩ := h b.2 _ _ (List.append_cancel_left heq)
  exact ⟨⟨hkey, hsame⟩, hrest⟩

theorem opensApart_entry : OpensApart (fun a => (entry shown a).toList) '\x7d' := by
  intro a
  refine ⟨'"', a.1.toList.flatMap escape ++ ['"'] ++ (": " ++ shown a.2).toList, ?_, by decide⟩
  simp [entry, quote]

theorem legible_braced {as : List (String × α)}
    (h : ∀ a ∈ as, Legible (fun b => (shown b).toList) same a.2) :
    Legible (fun bs : List (String × α) => (braced (bs.map fun b => (b.1, shown b.2))).toList)
      (List.Forall₂ fun a b => a.1 = b.1 ∧ same a.2 b.2) as := by
  have hentries := legible_commas (by decide) opensApart_entry fun a ha => legible_entry (h a ha)
  refine (hentries.prefixed ['\x7b']).of_part (f := id) (fun bs => ?_) fun _ => id
  have hparts : (bs.map fun b => (b.1, shown b.2)).map (fun p => quote p.1 ++ ": " ++ p.2) =
      bs.map (entry shown) := List.map_map
  simp [braced, hparts]

theorem Legible.applied (h : Legible (fun b => (shown b).toList ++ [')']) same a) (name : String) :
    Legible (fun b => (applied name (shown b)).toList) same a := by
  refine (h.prefixed (name.toList ++ ['('])).of_part (f := id) (fun b => ?_) fun _ => id
  simp [Text.applied]

end ShapeCheck.Text
