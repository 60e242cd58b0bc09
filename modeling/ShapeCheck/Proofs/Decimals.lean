import ShapeCheck.Number.Shortest
import ShapeCheck.Proofs.Rounding
/-!
# Decimals and binary numbers

A decimal is a ratio, and it is rounded as that ratio is (`toBinary_eq_ofRatio`): the powers of ten
that are not computed would not have changed the answer. So two decimals of one value are rounded to
the same number. Main theorem `toBinary_shortest`: the shortest decimal of a number is rounded to
that number.
-/
namespace ShapeCheck

variable {f : Format}

namespace Decimal

/-- The value of a decimal is `numerator / denominator`. -/
def numerator (d : Decimal) : Nat := d.digits * 10 ^ d.exponent.toNat

def denominator (d : Decimal) : Nat := 10 ^ (-d.exponent).toNat

theorem denominator_pos (d : Decimal) : 0 < d.denominator := Nat.pow_pos (by decide)

@[simp] theorem numerator_ofNat (negative : Bool) (digits k : Nat) :
    numerator ⟨negative, digits, .ofNat k⟩ = digits * 10 ^ k := rfl

@[simp] theorem denominator_ofNat (negative : Bool) (digits k : Nat) :
    denominator ⟨negative, digits, .ofNat k⟩ = 1 := by
  have hexp : (-Int.ofNat k).toNat = 0 := by
    simp only [Int.ofNat_eq_natCast]
    omega
  rw [denominator, hexp, Nat.pow_zero]

@[simp] theorem numerator_negSucc (negative : Bool) (digits k : Nat) :
    numerator ⟨negative, digits, .negSucc k⟩ = digits := Nat.mul_one digits

@[simp] theorem denominator_negSucc (negative : Bool) (digits k : Nat) :
    denominator ⟨negative, digits, .negSucc k⟩ = 10 ^ (k + 1) := rfl

theorem eight_pow_le_ten_pow (k : Nat) : 2 ^ (3 * k) ≤ 10 ^ k := by
  rw [Nat.pow_mul]
  exact Nat.pow_le_pow_left (by decide) k

/-! ## What is not computed -/

/-- What is below half a unit is zero. -/
theorem ofRatio_of_small (hp : 0 < f.precision) (negative : Bool) {digits k : Nat}
    (h : 2 * (digits * 2 ^ f.unitExponent) < 10 ^ k) :
    (Binary.ofRatio negative digits (10 ^ k) : Binary f) = .ofCode negative 0 := by
  rw [Binary.ofRatio, Format.nearestCode_eq_zero hp h]

/-- Great powers of ten are infinite. -/
theorem ofRatio_of_great (hp : 0 < f.precision) (negative : Bool) {digits k : Nat}
    (hdigits : digits ≠ 0) (hk : 2 ^ f.exponentBits < k) :
    (Binary.ofRatio negative (digits * 10 ^ k) 1 : Binary f) = .infinity negative := by
  have hnum : 2 ^ (3 * k + f.unitExponent) ≤ digits * 10 ^ k * 2 ^ f.unitExponent / 1 := by
    rw [Nat.div_one, Nat.pow_add]
    refine Nat.mul_le_mul_right _ (Nat.le_trans (eight_pow_le_ten_pow k) ?_)
    exact Nat.le_mul_of_pos_left _ (Nat.pos_of_ne_zero hdigits)
  have hexp : f.precision ≤ f.unitExponent + 3 := by
    have hbias : 0 < 2 ^ (f.exponentBits - 1) := Nat.two_pow_pos _
    unfold Format.unitExponent
    omega
  have hpos : 0 < k := Nat.lt_of_le_of_lt (Nat.zero_le _) hk
  have hfull : f.binade ≤ digits * 10 ^ k * 2 ^ f.unitExponent / 1 := by
    refine Nat.le_trans (Nat.pow_le_pow_right (by decide) ?_) hnum
    omega
  have hlog : 3 * k + f.unitExponent ≤ (digits * 10 ^ k * 2 ^ f.unitExponent / 1).log2 :=
    (Nat.le_log2 (Nat.ne_of_gt (Nat.lt_of_lt_of_le (Nat.two_pow_pos _) hnum))).2 hnum
  have hcode : f.infCode ≤ f.nearestCode (digits * 10 ^ k * 2 ^ f.unitExponent) 1 := by
    refine Nat.le_trans (Nat.mul_le_mul_right _ ?_) (Format.le_nearestCode hp hfull)
    rw [Format.dropped]
    omega
  rw [Binary.ofRatio, Binary.ofCode, dif_neg (Nat.not_lt.2 hcode)]

/-- **A decimal is rounded as the ratio that it is.** -/
theorem toBinary_eq_ofRatio (hp : 0 < f.precision) (d : Decimal) :
    d.toBinary f = .ofRatio d.negative d.numerator d.denominator := by
  obtain ⟨negative, digits, exponent⟩ := d
  cases exponent with
  | ofNat k =>
    rw [numerator_ofNat, denominator_ofNat]
    unfold toBinary
    dsimp only
    by_cases hdigits : digits = 0
    · rw [if_pos hdigits, hdigits, Nat.zero_mul, ← Nat.pow_zero 10]
      exact (ofRatio_of_small hp negative (by simp)).symm
    · rw [if_neg hdigits]
      split
      · exact (ofRatio_of_great hp negative hdigits ‹_›).symm
      · rfl
  | negSucc k =>
    rw [numerator_negSucc, denominator_negSucc]
    unfold toBinary
    dsimp only
    split
    next hsmall =>
      refine (ofRatio_of_small hp negative ?_).symm
      have hdigits : digits < 2 ^ (digits.log2 + 1) := Nat.lt_log2_self
      calc 2 * (digits * 2 ^ f.unitExponent)
        _ ≤ 2 * (2 ^ (digits.log2 + 1) * 2 ^ f.unitExponent) := by
          exact Nat.mul_le_mul_left _ (Nat.mul_le_mul_right _ (Nat.le_of_lt hdigits))
        _ = 2 ^ (digits.log2 + f.unitExponent + 2) := by
          rw [← Nat.pow_add, ← Nat.pow_succ']
          congr 1
          omega
        _ < 2 ^ (3 * (k + 1)) := Nat.pow_lt_pow_right (by decide) hsmall
        _ ≤ 10 ^ (k + 1) := eight_pow_le_ten_pow (k + 1)
    · rfl

/-! ## Decimals of one value -/

/-- The same value with the same sign. -/
def SameValue (d e : Decimal) : Prop :=
  d.negative = e.negative ∧ d.numerator * e.denominator = e.numerator * d.denominator

theorem SameValue.toBinary_eq {d e : Decimal} (h : SameValue d e) (hp : 0 < f.precision) :
    d.toBinary f = e.toBinary f := by
  rw [toBinary_eq_ofRatio hp, toBinary_eq_ofRatio hp, h.1]
  exact Binary.ofRatio_congr _ d.denominator_pos e.denominator_pos h.2

theorem SameValue.trans {d e g : Decimal} (hde : SameValue d e) (heg : SameValue e g) :
    SameValue d g := by
  refine ⟨hde.1.trans heg.1, Nat.eq_of_mul_eq_mul_right e.denominator_pos ?_⟩
  calc d.numerator * g.denominator * e.denominator
    _ = d.numerator * e.denominator * g.denominator := Nat.mul_right_comm _ _ _
    _ = e.numerator * g.denominator * d.denominator := by rw [hde.2, Nat.mul_right_comm]
    _ = g.numerator * d.denominator * e.denominator := by rw [heg.2, Nat.mul_right_comm]

/-- The decimal is `n`, without its sign. -/
def IsNat (d : Decimal) (n : Nat) : Prop := d.numerator = n * d.denominator

theorem SameValue.isNat {d e : Decimal} (h : SameValue d e) {n : Nat} (hd : d.IsNat n) :
    e.IsNat n := by
  refine Nat.eq_of_mul_eq_mul_right d.denominator_pos ?_
  rw [← h.2, hd]
  exact Nat.mul_right_comm _ _ _

/-- A whole number is rounded as one. -/
theorem IsNat.toBinary_eq {d : Decimal} {n : Nat} (h : d.IsNat n) (hp : 0 < f.precision) :
    d.toBinary f = .ofRatio d.negative n 1 := by
  rw [toBinary_eq_ofRatio hp]
  refine Binary.ofRatio_congr _ d.denominator_pos Nat.one_pos ?_
  rw [Nat.mul_one, h]

/-- A zero at the end of the digits is a matter of the exponent. -/
theorem sameValue_of_mod_eq_zero {negative : Bool} {digits : Nat} (h : digits % 10 = 0)
    (exponent : Int) :
    SameValue ⟨negative, digits, exponent⟩ ⟨negative, digits / 10, exponent + 1⟩ := by
  refine ⟨rfl, ?_⟩
  obtain ⟨q, rfl⟩ := Nat.dvd_of_mod_eq_zero h
  rw [Nat.mul_div_cancel_left q (by decide)]
  cases exponent with
  | ofNat k =>
    show numerator ⟨negative, 10 * q, .ofNat k⟩ * denominator ⟨negative, q, .ofNat (k + 1)⟩ =
      numerator ⟨negative, q, .ofNat (k + 1)⟩ * denominator ⟨negative, 10 * q, .ofNat k⟩
    simp only [numerator_ofNat, denominator_ofNat]
    rw [Nat.pow_succ, Nat.mul_one, Nat.mul_one, Nat.mul_comm 10 q, Nat.mul_assoc,
      Nat.mul_comm 10 (10 ^ k)]
  | negSucc k =>
    cases k with
    | zero =>
      show numerator ⟨negative, 10 * q, .negSucc 0⟩ * denominator ⟨negative, q, .ofNat 0⟩ =
        numerator ⟨negative, q, .ofNat 0⟩ * denominator ⟨negative, 10 * q, .negSucc 0⟩
      simp only [numerator_ofNat, denominator_ofNat, numerator_negSucc, denominator_negSucc]
      omega
    | succ k =>
      show numerator ⟨negative, 10 * q, .negSucc (k + 1)⟩ * denominator ⟨negative, q, .negSucc k⟩ =
        numerator ⟨negative, q, .negSucc k⟩ * denominator ⟨negative, 10 * q, .negSucc (k + 1)⟩
      simp only [numerator_negSucc, denominator_negSucc]
      rw [Nat.pow_succ 10 (k + 1), Nat.mul_comm 10 q, Nat.mul_assoc, Nat.mul_comm 10]

theorem sameValue_trim (d : Decimal) : SameValue d d.trim := by
  fun_induction trim d with
  | case1 d h => exact ⟨rfl, by simp [numerator, h]⟩
  | case2 d h hmod ih => exact (sameValue_of_mod_eq_zero hmod d.exponent).trans ih
  | case3 d h hmod => exact ⟨rfl, rfl⟩

/-- No zero is left at the end of the digits, except for zero itself. -/
theorem digits_trim (d : Decimal) :
    d.trim.digits % 10 ≠ 0 ∨ d.trim.digits = 0 ∧ d.trim.exponent = 0 := by
  fun_induction trim d with
  | case1 d h => exact .inr ⟨h, rfl⟩
  | case2 d h hmod ih => exact ih
  | case3 d h hmod => exact .inl hmod

end Decimal

namespace Binary

open Decimal

/-! ## The shortest decimal -/

/-- The expansion is the number. -/
theorem numerator_expansion (negative : Bool) (code : Fin f.infCode) :
    (expansion negative code).numerator * 2 ^ f.unitExponent =
      f.units code * (expansion negative code).denominator := by
  unfold numerator denominator expansion Format.units
  dsimp only
  rw [show (-((f.unitExponent - f.shift code : Nat) : Int)).toNat = 0 by omega, Int.neg_neg,
    Int.toNat_natCast, Nat.pow_zero, Nat.mul_one, show (10 : Nat) = 5 * 2 from rfl, Nat.mul_pow]
  generalize f.significand code = significand
  generalize f.shift code = shift
  -- Of the two differences of exponents one is zero.
  have hshift : 2 ^ (shift - f.unitExponent) * 2 ^ f.unitExponent =
      2 ^ shift * 2 ^ (f.unitExponent - shift) := by
    rw [← Nat.pow_add, ← Nat.pow_add]
    congr 1
    omega
  generalize 5 ^ (f.unitExponent - shift) = fives
  calc significand * 2 ^ (shift - f.unitExponent) * fives * 2 ^ f.unitExponent
    _ = significand * fives * (2 ^ (shift - f.unitExponent) * 2 ^ f.unitExponent) := by ac_rfl
    _ = significand * fives * (2 ^ shift * 2 ^ (f.unitExponent - shift)) := by rw [hshift]
    _ = significand * 2 ^ shift * (fives * 2 ^ (f.unitExponent - shift)) := by ac_rfl

theorem toBinary_expansion (hp : 0 < f.precision) (negative : Bool) (code : Fin f.infCode) :
    (expansion negative code).toBinary f = .finite negative code := by
  rw [toBinary_eq_ofRatio hp]
  exact ofRatio_of_units hp (denominator_pos _) negative (numerator_expansion negative code)

/-- **The shortest decimal of a number is rounded to the number.** -/
theorem toBinary_shortest (hp : 0 < f.precision) (negative : Bool) (code : Fin f.infCode) :
    (shortest negative code).toBinary f = .finite negative code := by
  unfold shortest
  dsimp only
  rw [← (sameValue_trim _).toBinary_eq hp]
  generalize hfound : List.findSome? _ _ = found
  cases found with
  | none => exact toBinary_expansion hp negative code
  | some d =>
    obtain ⟨n, -, hn⟩ := List.exists_of_findSome?_eq_some hfound
    have hround := List.find?_some hn
    exact of_decide_eq_true hround

theorem negative_shortest (hp : 0 < f.precision) (negative : Bool) (code : Fin f.infCode) :
    (shortest negative code).negative = negative := by
  have h := toBinary_shortest hp negative code
  rw [toBinary_eq_ofRatio hp] at h
  exact (of_ofCode_eq_finite h).1

end Binary

end ShapeCheck
