import ShapeCheck.Proofs.Integers
import ShapeCheck.Proofs.NumberText
/-!
# Texts of integers

A double that holds an integer of up to `2 ^ 53` has the decimal numeral of the integer as its text
(`plain_ofInt`): a decimal with fewer digits is another integer, and is not rounded to it.
-/
namespace ShapeCheck

theorem toDigits_mul_ten_pow {n : Nat} (hn : 0 < n) (k : Nat) :
    Nat.toDigits 10 (n * 10 ^ k) = Nat.toDigits 10 n ++ List.replicate k '0' := by
  induction k with
  | zero => simp
  | succ k ih =>
    have hpos : 0 < n * 10 ^ k := Nat.mul_pos hn (Nat.pow_pos (by decide))
    have happend := Nat.toDigits_append_toDigits (b := 10) (d := 0) (by decide) hpos (by decide)
    rw [Nat.toDigits_zero, ih, List.append_assoc, ← List.replicate_succ'] at happend
    rw [happend, Nat.pow_succ, ← Nat.mul_assoc, Nat.mul_comm 10, Nat.add_zero]

namespace Decimal

theorem isNat_ofNat_iff {negative : Bool} {digits k n : Nat} :
    IsNat ⟨negative, digits, .ofNat k⟩ n ↔ digits * 10 ^ k = n := by
  rw [IsNat, numerator_ofNat, denominator_ofNat, Nat.mul_one]

theorem isNat_negSucc_iff {negative : Bool} {digits k n : Nat} :
    IsNat ⟨negative, digits, .negSucc k⟩ n ↔ digits = n * 10 ^ (k + 1) := by
  rw [IsNat, numerator_negSucc, denominator_negSucc]

/-- A trimmed decimal that is a natural number is written as its numeral. -/
theorem positional_trim_of_isNat {d : Decimal} {n : Nat} (h : d.IsNat n) :
    d.trim.positional false = Nat.toDigits 10 n := by
  have h := (sameValue_trim d).isNat h
  have htrim := digits_trim d
  generalize d.trim = d at h htrim
  obtain ⟨negative, digits, exponent⟩ := d
  cases exponent with
  | ofNat k =>
    have hn := isNat_ofNat_iff.1 h
    by_cases hdigits : digits = 0
    · obtain ⟨-, hexp⟩ := htrim.resolve_left (by simp [hdigits])
      cases hexp
      simp [positional, ← hn]
    · rw [← hn, toDigits_mul_ten_pow (Nat.pos_of_ne_zero hdigits)]
      simp [positional]
  | negSucc k =>
    -- There would be a zero at the end of the digits.
    have hn := isNat_negSucc_iff.1 h
    have hmod : digits % 10 = 0 := by
      rw [hn, Nat.pow_succ, ← Nat.mul_assoc, Nat.mul_mod_left]
    obtain ⟨-, hexp⟩ := htrim.resolve_left (by simp [hmod])
    cases hexp

/-- A decimal that has ten as a factor is rounded to a small integer only if it is that integer. -/
theorem isNat_of_toBinary_eq {d : Decimal} {m : Nat} (hexp : 0 < d.exponent)
    (hm : m ≤ 2 ^ (53 : Nat)) {negative : Bool} {code : Fin Format.double.infCode}
    (hcode : Binary.codeOf m = code) (h : d.toBinary .double = .finite negative code) :
    d.IsNat m := by
  obtain ⟨sign, digits, exponent⟩ := d
  obtain ⟨k, rfl⟩ : ∃ k : Nat, exponent = .ofNat (k + 1) :=
    ⟨exponent.toNat - 1, by dsimp only at hexp; simp only [Int.ofNat_eq_natCast]; omega⟩
  have hnat : IsNat ⟨sign, digits, .ofNat (k + 1)⟩ (digits * 10 ^ (k + 1)) := isNat_ofNat_iff.2 rfl
  rw [hnat.toBinary_eq (by decide)] at h
  have hround : Binary.codeOf (digits * 10 ^ (k + 1)) = Binary.codeOf m :=
    (Binary.of_ofCode_eq_finite h).2.trans hcode.symm
  have hten : digits * 10 ^ (k + 1) ≠ 2 ^ (53 : Nat) + 1 := by
    rw [Nat.pow_succ, ← Nat.mul_assoc]
    omega
  rwa [Binary.eq_of_codeOf_eq hm hten hround] at hnat

theorem exponent_of_mem_neighbours {d found : Decimal} {dropped : Nat}
    (h : found ∈ d.neighbours dropped) : found.exponent = d.exponent + dropped := by
  unfold neighbours at h
  dsimp only at h
  split at h
  all_goals
    simp only [List.mem_cons, List.not_mem_nil, or_false] at h
    rcases h with rfl | rfl <;> rfl

/-- Digits of an integer are cut off without a rest as long as they are after the point, and what is
left comes first. -/
theorem neighbours_of_le {d : Decimal} {m places dropped : Nat}
    (hdigits : d.digits = m * 10 ^ places) (hexp : d.exponent = -places)
    (hle : dropped ≤ places) :
    ∃ below above, d.neighbours dropped = [below, above] ∧ below.negative = d.negative ∧
      below.IsNat m := by
  have hsplit : d.digits = m * 10 ^ (places - dropped) * 10 ^ dropped := by
    rw [hdigits, Nat.mul_assoc, ← Nat.pow_add, Nat.sub_add_cancel hle]
  have hpow : 0 < 10 ^ dropped := Nat.pow_pos (by decide)
  have hmod : 2 * (d.digits % 10 ^ dropped) < 10 ^ dropped := by
    rw [hsplit, Nat.mul_mod_left]
    exact hpow
  unfold neighbours
  dsimp only
  rw [if_pos hmod]
  refine ⟨_, _, rfl, rfl, ?_⟩
  unfold IsNat numerator denominator
  dsimp only
  rw [hsplit, Nat.mul_div_cancel _ hpow, hexp,
    show (-(places : Int) + dropped).toNat = 0 by omega,
    show (-(-(places : Int) + dropped)).toNat = places - dropped by omega, Nat.pow_zero,
    Nat.mul_one]

/-- **Of the neighbours of a small integer on any grid, the first that is rounded to it is the
integer itself.** -/
theorem isNat_of_find?_neighbours {d : Decimal} {m places dropped : Nat}
    (hdigits : d.digits = m * 10 ^ places) (hexp : d.exponent = -places)
    (hm : m ≤ 2 ^ (53 : Nat)) {code : Fin Format.double.infCode} (hcode : Binary.codeOf m = code)
    {found : Decimal}
    (h : (d.neighbours dropped).find? (fun e => e.toBinary .double = .finite d.negative code) =
      some found) : found.IsNat m := by
  by_cases hle : dropped ≤ places
  · obtain ⟨below, above, hpair, hsign, hnat⟩ := neighbours_of_le hdigits hexp hle
    have hround : below.toBinary .double = .finite d.negative code := by
      rw [hnat.toBinary_eq (by decide), hsign]
      show Binary.ofCode d.negative (Binary.codeOf m) = _
      rw [hcode, Binary.ofCode_val]
    have hfound : below = found := by simpa [hpair, hround] using h
    exact hfound ▸ hnat
  · have hfound := exponent_of_mem_neighbours (List.mem_of_find?_eq_some h)
    have hround := List.find?_some h
    exact isNat_of_toBinary_eq (by omega) hm hcode (of_decide_eq_true hround)

end Decimal

namespace Binary

open Decimal

variable {m : Nat} {code : Fin Format.double.infCode}

theorem isNat_expansion (hm : m ≤ 2 ^ (53 : Nat)) (hcode : codeOf m = code) (negative : Bool) :
    (expansion negative code).IsNat m := by
  have hnum := numerator_expansion negative code
  rw [← hcode, units_codeOf hm, Nat.mul_right_comm] at hnum
  exact Nat.eq_of_mul_eq_mul_right (Nat.two_pow_pos _) hnum

/-- The expansion of an integer has the integer and then zeros, as many as there are places. -/
theorem digits_expansion (hm : m ≤ 2 ^ (53 : Nat)) (hcode : codeOf m = code) (negative : Bool) :
    ∃ places : Nat, (expansion negative code).digits = m * 10 ^ places ∧
      (expansion negative code).exponent = -places := by
  have hnat := isNat_expansion hm hcode negative
  refine ⟨Format.double.unitExponent - Format.double.shift code, ?_, rfl⟩
  have hexp : (expansion negative code).exponent =
    -(Format.double.unitExponent - Format.double.shift code : Nat) := rfl
  rwa [IsNat, numerator, denominator, hexp, Int.neg_neg, Int.toNat_natCast,
    Int.toNat_neg_natCast, Nat.pow_zero, Nat.mul_one] at hnat

/-- **The shortest decimal of a small integer is that integer.** -/
theorem shortest_eq_trim (hm : m ≤ 2 ^ (53 : Nat)) (hcode : codeOf m = code) (negative : Bool) :
    ∃ d : Decimal, shortest negative code = d.trim ∧ d.IsNat m := by
  obtain ⟨places, hdigits, hexp⟩ := digits_expansion hm hcode negative
  refine ⟨_, rfl, ?_⟩
  generalize hfound : List.findSome? _ _ = found
  cases found with
  | none => exact isNat_expansion hm hcode negative
  | some d =>
    obtain ⟨n, -, hn⟩ := List.exists_of_findSome?_eq_some hfound
    exact isNat_of_find?_neighbours hdigits hexp hm hcode hn

/-- **An integer of up to `2 ^ 53` is written as its numeral.** -/
theorem plain_ofInt {n : Int} (h : n.natAbs ≤ 2 ^ (53 : Nat)) :
    (ofInt n : Double).plain = toString n := by
  have hwide : n.natAbs ≤ 2 ^ (64 : Nat) := Nat.le_trans h (by decide)
  obtain ⟨d, hd, hnat⟩ := shortest_eq_trim h
    (show codeOf n.natAbs = (⟨codeOf n.natAbs, codeOf_lt_infCode hwide⟩ : Fin _) from rfl)
    (decide (n < 0))
  have hsign := negative_shortest (f := .double) (by decide) (decide (n < 0))
    ⟨codeOf n.natAbs, codeOf_lt_infCode hwide⟩
  rw [ofInt_eq_finite hwide, plain, write, write_plain, hsign, hd, positional_trim_of_isNat hnat]
  cases n with
  | ofNat m =>
    have hpos : decide (Int.ofNat m < 0) = false :=
      decide_eq_false (Int.not_lt.2 (Int.natCast_nonneg m))
    rw [hpos]
    exact Nat.repr_eq_ofList_toDigits.symm
  | negSucc m =>
    have hneg : decide (Int.negSucc m < 0) = true := decide_eq_true (Int.negSucc_lt_zero m)
    rw [hneg]
    show String.ofList (['-'] ++ Nat.toDigits 10 (m + 1)) = "-" ++ Nat.repr (m + 1)
    rw [Nat.repr_eq_ofList_toDigits, String.ofList_append]

end Binary

end ShapeCheck
