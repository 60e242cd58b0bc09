import ShapeCheck.Number.Text
import ShapeCheck.Proofs.Decimals
/-!
# Numbers read back from their texts

The text of a number has digits, at most one point, and around them signs and an exponent. Main
theorem `ofText?_write`: in every style it is read back as the number, so no two numbers have one
text, as keys (`plain_injective`) or as they are shown (`literal_injective`).
-/
namespace ShapeCheck

/-! ## Rows of digits -/

theorem natOfDigits_toDigits (n : Nat) : natOfDigits (Nat.toDigits 10 n) = n :=
  Nat.ofDigitChars_toDigits (by decide) (by decide)

theorem natOfDigits_append_zeros (cs : List Char) (k : Nat) :
    natOfDigits (cs ++ List.replicate k '0') = natOfDigits cs * 10 ^ k := by
  induction k with
  | zero => simp
  | succ k ih =>
    rw [List.replicate_succ', ← List.append_assoc]
    unfold natOfDigits at ih ⊢
    rw [List.foldl_append, ih, List.foldl_cons, List.foldl_nil, Nat.sub_self, Nat.add_zero,
      Nat.pow_succ, Nat.mul_comm 10, Nat.mul_assoc]

theorem natOfDigits_zeros_append (k : Nat) (cs : List Char) :
    natOfDigits (List.replicate k '0' ++ cs) = natOfDigits cs := by
  induction k with
  | zero => rfl
  | succ k ih => exact ih

/-- Only digits. -/
def AllDigits (cs : List Char) : Prop := ∀ c ∈ cs, c.isDigit = true

theorem allDigits_toDigits (n : Nat) : AllDigits (Nat.toDigits 10 n) :=
  fun _ hc => Nat.isDigit_of_mem_toDigits (by decide) (by decide) hc

theorem allDigits_zeros (k : Nat) : AllDigits (List.replicate k '0') := by
  intro c hc
  rw [List.eq_of_mem_replicate hc]
  rfl

theorem AllDigits.append {cs ds : List Char} (hc : AllDigits cs) (hd : AllDigits ds) :
    AllDigits (cs ++ ds) := by
  intro c h
  rcases List.mem_append.1 h with h | h
  · exact hc c h
  · exact hd c h

/-- The digits in front end where something else comes. -/
theorem splitDigits_append {cs rest : List Char} (h : AllDigits cs)
    (hr : ∀ c ∈ rest.head?, c.isDigit = false) : splitDigits (cs ++ rest) = (cs, rest) := by
  unfold splitDigits
  induction cs with
  | nil =>
    cases rest with
    | nil => rfl
    | cons c rest =>
      have hc := hr c rfl
      simp [hc]
  | cons c cs ih =>
    have hc := h c List.mem_cons_self
    have ih := ih fun d hd => h d (List.mem_cons_of_mem c hd)
    obtain ⟨htake, hdrop⟩ := Prod.mk.inj ih
    simp [hc, htake, hdrop]

theorem splitDigits_of_allDigits {cs : List Char} (h : AllDigits cs) :
    splitDigits cs = (cs, []) := by
  have hsplit : splitDigits (cs ++ []) = (cs, []) := splitDigits_append h nofun
  rwa [List.append_nil] at hsplit

namespace Decimal

/-! ## Positional texts -/

/-- Digits around a point, or without one if none come after it. -/
def pointed (whole fraction : List Char) : List Char :=
  if fraction = [] then whole else whole ++ '.' :: fraction

theorem exists_cons_pointed {whole : List Char} (hw : AllDigits whole) (hne : whole ≠ [])
    (fraction : List Char) : ∃ c cs, c.isDigit = true ∧ pointed whole fraction = c :: cs := by
  unfold pointed
  cases whole with
  | nil => exact absurd rfl hne
  | cons c cs =>
    have hc : c.isDigit = true := hw c List.mem_cons_self
    split
    · exact ⟨c, cs, hc, rfl⟩
    · exact ⟨c, cs ++ '.' :: fraction, hc, rfl⟩

theorem mem_pointed {whole fraction : List Char} (hw : AllDigits whole) (hf : AllDigits fraction)
    {c : Char} (h : c ∈ pointed whole fraction) : c.isDigit = true ∨ c = '.' := by
  unfold pointed at h
  split at h
  · exact .inl (hw c h)
  · simp only [List.mem_append, List.mem_cons] at h
    rcases h with h | h | h
    · exact .inl (hw c h)
    · exact .inr h
    · exact .inl (hf c h)

/-- Digits around a point are read as what they stand for, times the power of ten of what comes
after them. -/
theorem ofText?_pointed_append (negative : Bool) {whole fraction rest : List Char}
    (hw : AllDigits whole) (hne : whole ≠ []) (hf : AllDigits fraction)
    (hr : ∀ c ∈ rest.head?, c.isDigit = false ∧ c ≠ '.') :
    ofText? negative (pointed whole fraction ++ rest) =
      (exponentOfText? rest).map (ofDigits negative whole fraction) := by
  have hdigit : ∀ c ∈ rest.head?, c.isDigit = false := fun c hc => (hr c hc).1
  unfold pointed
  by_cases hnil : fraction = []
  · rw [if_pos hnil, hnil, ofText?, splitDigits_append hw hdigit]
    cases rest with
    | nil => simp [hne]
    | cons c rest =>
      have hpoint : c ≠ '.' := (hr c rfl).2
      simp [hne, hpoint]
  · have hpoint : ∀ c ∈ ('.' :: (fraction ++ rest)).head?, c.isDigit = false := by
      rintro c ⟨⟩
      rfl
    rw [if_neg hnil, List.append_assoc, List.cons_append, ofText?, splitDigits_append hw hpoint]
    simp [splitDigits_append hf hdigit, hne]

/-! ## Exponents -/

theorem splitSign_append (negative : Bool) {c : Char} (h : c.isDigit = true) (cs : List Char) :
    splitSign ((if negative then ['-'] else []) ++ c :: cs) = (negative, c :: cs) := by
  cases negative with
  | true => rfl
  | false =>
    show splitSign (c :: cs) = _
    unfold splitSign
    split
    next heq =>
      cases heq
      exact absurd h (by decide)
    next heq =>
      cases heq
      exact absurd h (by decide)
    · rfl

/-- The numeral of an integer: a sign if it is negative, and digits. -/
theorem exists_toString (n : Int) : ∃ m : Nat, n = (if n < 0 then -(m : Int) else m) ∧
    (toString n).toList = (if decide (n < 0) then ['-'] else []) ++ Nat.toDigits 10 m := by
  cases n with
  | ofNat m =>
    have hpos : ¬ Int.ofNat m < 0 := Int.not_lt.2 (Int.natCast_nonneg m)
    refine ⟨m, by rw [if_neg hpos]; rfl, ?_⟩
    rw [decide_eq_false hpos]
    show (Nat.repr m).toList = _
    rw [Nat.repr_eq_ofList_toDigits, String.toList_ofList]
    rfl
  | negSucc m =>
    have hneg : Int.negSucc m < 0 := Int.negSucc_lt_zero m
    refine ⟨m + 1, by rw [if_pos hneg]; rfl, ?_⟩
    rw [decide_eq_true hneg]
    show ("-" ++ Nat.repr (m + 1)).toList = _
    rw [Nat.repr_eq_ofList_toDigits, String.toList_append, String.toList_ofList]
    simp

theorem mem_toString {n : Int} {c : Char} (h : c ∈ (toString n).toList) :
    c.isDigit = true ∨ c = '-' := by
  obtain ⟨m, -, htext⟩ := exists_toString n
  rw [htext, List.mem_append] at h
  rcases h with h | h
  · split at h
    · exact .inr (List.mem_singleton.1 h)
    · cases h
  · exact .inl (allDigits_toDigits m c h)

/-- An exponent is read back. -/
theorem exponentOfText?_toString (n : Int) :
    exponentOfText? ('e' :: (toString n).toList) = some n := by
  obtain ⟨m, hn, htext⟩ := exists_toString n
  obtain ⟨c, cs, hcs⟩ := List.exists_cons_of_ne_nil (Nat.toDigits_ne_nil (n := m) (b := 10))
  have hdigits := allDigits_toDigits m
  have hc : c.isDigit = true := hdigits c (hcs ▸ List.mem_cons_self)
  have hvalue := natOfDigits_toDigits m
  rw [exponentOfText?, htext]
  rw [hcs] at hdigits hvalue ⊢
  rw [splitSign_append _ hc]
  dsimp only
  rw [splitDigits_of_allDigits hdigits]
  dsimp only
  rw [if_pos ⟨rfl, List.cons_ne_nil c cs, rfl⟩, hvalue]
  simpa using hn.symm

/-! ## Texts of decimals -/

/-- The text of a decimal without its sign, taken apart: digits, a point between them, and what is
read as an exponent. -/
structure Spelled (d : Decimal) (text whole fraction rest : List Char) (exponent : Int) : Prop where
  text_eq : text = pointed whole fraction ++ rest
  before : AllDigits whole
  nonempty : whole ≠ []
  after : AllDigits fraction
  rest_head : ∀ c ∈ rest.head?, c.isDigit = false ∧ c ≠ '.'
  rest_chars : ∀ c ∈ rest, c.isDigit = true ∨ c ∈ ['e', '-']
  rest_value : exponentOfText? rest = some exponent
  value : SameValue d (ofDigits d.negative whole fraction exponent)

namespace Spelled

variable {d : Decimal} {text whole fraction rest : List Char} {exponent : Int}

/-- It begins with a digit. -/
theorem exists_cons (h : d.Spelled text whole fraction rest exponent) :
    ∃ c cs, c.isDigit = true ∧ text = c :: cs := by
  obtain ⟨c, cs, hc, hcs⟩ := exists_cons_pointed h.before h.nonempty fraction
  exact ⟨c, cs ++ rest, hc, by rw [h.text_eq, hcs, List.cons_append]⟩

theorem mem_text (h : d.Spelled text whole fraction rest exponent) {c : Char} (hc : c ∈ text) :
    c.isDigit = true ∨ c ∈ ['.', 'e', '-'] := by
  rw [h.text_eq, List.mem_append] at hc
  rcases hc with hc | hc
  · exact (mem_pointed h.before h.after hc).imp_right (by rintro rfl; decide)
  · exact (h.rest_chars c hc).imp_right (List.mem_cons_of_mem '.')

/-- It is read as a decimal of the same value. -/
theorem ofText?_eq (h : d.Spelled text whole fraction rest exponent) :
    ofText? d.negative text = some (ofDigits d.negative whole fraction exponent) := by
  rw [h.text_eq, ofText?_pointed_append _ h.before h.nonempty h.after h.rest_head, h.rest_value,
    Option.map_some]

end Spelled

theorem exists_spelled_positional (pointZero : Bool) (d : Decimal) :
    ∃ whole fraction, d.Spelled (d.positional pointZero) whole fraction [] 0 := by
  obtain ⟨negative, digits, exponent⟩ := d
  have hdigits := allDigits_toDigits digits
  cases exponent with
  | ofNat k =>
    have hwhole := hdigits.append (allDigits_zeros k)
    have hne : Nat.toDigits 10 digits ++ List.replicate k '0' ≠ [] := by simp [Nat.toDigits_ne_nil]
    cases pointZero with
    | false =>
      refine ⟨_, [], by simp [positional, pointed], hwhole, hne, nofun, nofun, nofun, rfl,
        rfl, ?_⟩
      rw [ofDigits, List.append_nil, natOfDigits_append_zeros, natOfDigits_toDigits]
      simp [numerator, denominator]
    | true =>
      refine ⟨_, ['0'], by simp [positional, pointed], hwhole, hne, allDigits_zeros 1, nofun, nofun,
        rfl, rfl, ?_⟩
      -- The zero after the point is one more zero at the end.
      have hzeros : List.replicate k '0' ++ ['0'] = List.replicate (k + 1) '0' :=
        (List.replicate_succ').symm
      rw [ofDigits, List.append_assoc, hzeros, natOfDigits_append_zeros, natOfDigits_toDigits]
      simp [numerator, denominator, Nat.pow_succ, Nat.mul_assoc]
  | negSucc k =>
    -- Zeros are put in front until there is a digit before the point.
    generalize hpadded : List.replicate (k + 2 - (Nat.toDigits 10 digits).length) '0' ++
      Nat.toDigits 10 digits = padded
    have hall : AllDigits padded := hpadded ▸ (allDigits_zeros _).append hdigits
    have hlen : k + 2 ≤ padded.length := by
      rw [← hpadded, List.length_append, List.length_replicate]
      omega
    have hvalue : natOfDigits padded = digits := by
      rw [← hpadded, natOfDigits_zeros_append, natOfDigits_toDigits]
    have hdrop : (padded.drop (padded.length - (k + 1))).length = k + 1 := by
      rw [List.length_drop]
      omega
    refine ⟨padded.take (padded.length - (k + 1)), padded.drop (padded.length - (k + 1)),
      ?_, ?_, ?_, ?_, nofun, nofun, rfl, rfl, ?_⟩
    · rw [pointed, if_neg (List.ne_nil_of_length_pos (by omega)), List.append_nil, ← hpadded]
      rfl
    · exact fun c hc => hall c (List.mem_of_mem_take hc)
    · refine List.ne_nil_of_length_pos ?_
      rw [List.length_take]
      omega
    · exact fun c hc => hall c (List.mem_of_mem_drop hc)
    · rw [ofDigits, List.take_append_drop, hvalue, hdrop]
      rfl

theorem exists_spelled_scientific (d : Decimal) :
    ∃ whole fraction rest, d.Spelled d.scientific whole fraction rest d.leadingExponent := by
  obtain ⟨first, more, hdigits⟩ :=
    List.exists_cons_of_ne_nil (Nat.toDigits_ne_nil (n := d.digits) (b := 10))
  have hall := allDigits_toDigits d.digits
  have hvalue := natOfDigits_toDigits d.digits
  have hlength : d.length = more.length + 1 := by rw [length, hdigits, List.length_cons]
  rw [hdigits] at hall hvalue
  refine ⟨[first], more, 'e' :: (toString d.leadingExponent).toList, ?_, ?_, by simp, ?_, ?_, ?_,
    exponentOfText?_toString _, rfl, ?_⟩
  · rw [scientific, hdigits]
    cases more <;> simp [pointed]
  · exact fun c hc => hall c (List.mem_of_mem_take (i := 1) hc)
  · exact fun c hc => hall c (List.mem_cons_of_mem first hc)
  · rintro c ⟨⟩
    exact ⟨rfl, by decide⟩
  · intro c hc
    rcases List.mem_cons.1 hc with rfl | hc
    · exact .inr List.mem_cons_self
    · exact (mem_toString hc).imp_right (by rintro rfl; decide)
  · have hexponent : d.leadingExponent - more.length = d.exponent := by
      rw [leadingExponent, hlength]
      omega
    rw [ofDigits, List.singleton_append, hvalue, hexponent]

/-- The text of a decimal is its sign and a text that is read as its value. -/
theorem exists_spelled_write (style : NumberStyle) (d : Decimal) :
    ∃ text whole fraction rest exponent, d.Spelled text whole fraction rest exponent ∧
      d.write style = (if d.negative then ['-'] else []) ++ text := by
  by_cases hpositional : d.digits = 0 ∨ style.positional d.leadingExponent = true
  · obtain ⟨whole, fraction, h⟩ := exists_spelled_positional style.pointZero d
    exact ⟨_, whole, fraction, [], 0, h, by rw [write, if_pos hpositional]⟩
  · obtain ⟨whole, fraction, rest, h⟩ := exists_spelled_scientific d
    exact ⟨_, whole, fraction, rest, _, h, by rw [write, if_neg hpositional]⟩

/-- Keys are written positionally, whatever their size. -/
theorem write_plain (d : Decimal) :
    d.write .plain = (if d.negative then ['-'] else []) ++ d.positional false := by
  have hpositional : d.digits = 0 ∨ NumberStyle.plain.positional d.leadingExponent = true :=
    .inr rfl
  rw [write, if_pos hpositional]
  rfl

end Decimal

/-! ## Words -/

theorem toLower_of_isDigit {c : Char} (h : c.isDigit = true) : c.toLower = c := by
  have hdigit : c.val ≤ '9'.val := of_decide_eq_true (Bool.and_eq_true_iff.1 h).2
  unfold Char.toLower
  rw [dif_neg]
  rintro ⟨hletter, -⟩
  exact absurd (UInt32.le_trans hletter hdigit) (by decide)

/-- What begins with a digit is none of the words for numbers. -/
theorem ofList_map_toLower_ne {c : Char} (h : c.isDigit = true) (cs : List Char) {word : String}
    (hword : ∀ d ∈ word.toList.head?, d.isDigit = false) :
    String.ofList ((c :: cs).map Char.toLower) ≠ word := by
  rintro rfl
  have hc := hword c (by simp [toLower_of_isDigit h])
  rw [h] at hc
  cases hc

namespace Binary

open Decimal

variable {f : Format}

/-- **A number is read back from its text**, whatever its style. -/
theorem ofText?_write (hp : 0 < f.precision) (style : NumberStyle) (x : Binary f) :
    ofText? (.ofList (x.write style)) = some x := by
  cases x with
  | nan => simp [write, ofText?, splitSign]
  | infinity negative => cases negative <;> simp [write, ofText?, splitSign]
  | finite negative code =>
    obtain ⟨text, whole, fraction, rest, exponent, h, htext⟩ :=
      exists_spelled_write style (shortest negative code)
    obtain ⟨c, cs, hc, hcs⟩ := h.exists_cons
    have hread := h.ofText?_eq
    have hnan : String.ofList ((c :: cs).map Char.toLower) ≠ "nan" :=
      ofList_map_toLower_ne hc cs (by simp)
    have hinf : String.ofList ((c :: cs).map Char.toLower) ≠ "inf" :=
      ofList_map_toLower_ne hc cs (by simp)
    have hinfinity : String.ofList ((c :: cs).map Char.toLower) ≠ "infinity" :=
      ofList_map_toLower_ne hc cs (by simp)
    rw [write, htext, hcs, ofText?, String.toList_ofList, splitSign_append _ hc cs]
    dsimp only
    rw [if_neg hnan, if_neg (not_or.2 ⟨hinf, hinfinity⟩), ← hcs, hread, Option.map_some,
      ← h.value.toBinary_eq hp, toBinary_shortest hp]

/-- The characters of texts of numbers, without the digits. -/
def marks : List Char := ['.', 'e', '-', 'N', 'a', 'i', 'n', 'f']

theorem mem_write {style : NumberStyle} {x : Binary f} {c : Char} (h : c ∈ x.write style) :
    c.isDigit = true ∨ c ∈ marks := by
  have hminus : ['-'] ⊆ marks := by decide
  cases x with
  | nan =>
    have hword : ['N', 'a', 'N'] ⊆ marks := by decide
    exact .inr (hword h)
  | infinity negative =>
    have hword : ['i', 'n', 'f'] ⊆ marks := by decide
    rcases List.mem_append.1 h with h | h
    · split at h
      · exact .inr (hminus h)
      · cases h
    · exact .inr (hword h)
  | finite negative code =>
    have hnumeral : ['.', 'e', '-'] ⊆ marks := by decide
    obtain ⟨text, whole, fraction, rest, exponent, hs, htext⟩ :=
      exists_spelled_write style (shortest negative code)
    rw [write, htext, List.mem_append] at h
    rcases h with h | h
    · split at h
      · exact .inr (hminus h)
      · cases h
    · exact (hs.mem_text h).imp_right fun h => hnumeral h

/-- **No two numbers have one text** in one style. -/
theorem write_injective (hp : 0 < f.precision) (style : NumberStyle) :
    Function.Injective fun x : Binary f => String.ofList (x.write style) := by
  intro x y h
  have hx := ofText?_write hp style x
  have hy := ofText?_write hp style y
  dsimp only at h
  rw [h, hy] at hx
  exact (Option.some.inj hx).symm

theorem ofText?_plain (hp : 0 < f.precision) (x : Binary f) : ofText? x.plain = some x :=
  ofText?_write hp .plain x

theorem plain_injective (hp : 0 < f.precision) : Function.Injective (plain : Binary f → String) :=
  write_injective hp .plain

/-- **The key of a finite number has no exponent.** -/
theorem mem_plain {x : Binary f} (hx : x.isFinite = true) {c : Char} (h : c ∈ x.plain.toList) :
    c.isDigit = true ∨ c = '.' ∨ c = '-' := by
  cases x with
  | finite negative code =>
    rw [plain, String.toList_ofList, write, write_plain, List.mem_append] at h
    rcases h with h | h
    · split at h
      · exact .inr (.inr (List.mem_singleton.1 h))
      · cases h
    · obtain ⟨whole, fraction, hs⟩ := exists_spelled_positional false (shortest negative code)
      rw [hs.text_eq, List.append_nil] at h
      exact (mem_pointed hs.before hs.after h).imp_right .inl
  | _ => cases hx

theorem literal_injective (hp : 0 < f.precision) :
    Function.Injective (literal : Binary f → String) :=
  write_injective hp .literal

end Binary

end ShapeCheck
