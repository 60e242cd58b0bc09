import ShapeCheck.Proofs.Rounding
import ShapeCheck.Word
/-!
# Integers as doubles

An integer becomes the double nearest to it. No word becomes infinite (`isFinite_toDouble`).
Integers of up to `2 ^ 53` are held exactly (`isInteger_ofInt`), and no other integer is rounded to
one of them, except for `2 ^ 53 + 1` (`eq_of_codeOf_eq`).
-/
namespace ShapeCheck

namespace Binary

/-- The code that a natural number is rounded to. -/
def codeOf (n : Nat) : Nat := Format.double.nearestCode (n * 2 ^ Format.double.unitExponent) 1

/-- **A natural number of at most 64 places is never infinite.** -/
theorem codeOf_lt_infCode {n : Nat} (h : n ≤ 2 ^ (64 : Nat)) :
    codeOf n < Format.double.infCode := by
  have hlt : n < 2 ^ (65 : Nat) := Nat.lt_of_le_of_lt h (by decide)
  have hlog : (n * 2 ^ Format.double.unitExponent / 1).log2 < 65 + Format.double.unitExponent := by
    rw [Nat.div_one]
    exact log2_mul_two_pow_lt (by decide) hlt _
  have hexp : Format.double.unitExponent = 1074 := by decide
  have hprecision : Format.double.precision = 53 := rfl
  refine Nat.lt_of_le_of_lt (Format.nearestCode_le (by decide) _ _) ?_
  refine Nat.mul_lt_mul_of_pos_right ?_ Format.binade_pos
  have hbits : 2 ^ Format.double.exponentBits - 1 = 2047 := by decide
  rw [Format.dropped]
  omega

theorem ofInt_eq_finite {n : Int} (h : n.natAbs ≤ 2 ^ (64 : Nat)) :
    (ofInt n : Double) = .finite (decide (n < 0)) ⟨codeOf n.natAbs, codeOf_lt_infCode h⟩ :=
  ofCode_val _ ⟨codeOf n.natAbs, codeOf_lt_infCode h⟩

theorem isFinite_ofInt {n : Int} (h : n.natAbs ≤ 2 ^ (64 : Nat)) :
    (ofInt n : Double).isFinite = true := by
  rw [ofInt_eq_finite h]
  rfl

/-! ## Exact integers -/

theorem codeOf_mono {m n : Nat} (h : m ≤ n) : codeOf m ≤ codeOf n :=
  Format.nearestCode_mono (by decide) (Nat.mul_le_mul_right _ h) 1

/-- A natural number of at most 53 places up to its last zeros is held exactly. -/
theorem units_codeOf_mul {n m k : Nat} (hn : n = m * 2 ^ k) (hm : m < 2 ^ (53 : Nat)) :
    Format.double.units (codeOf n) = n * 2 ^ Format.double.unitExponent := by
  subst hn
  rw [codeOf, Nat.mul_assoc, ← Nat.pow_add]
  obtain ⟨code, hcode⟩ := Format.exists_units (f := .double) hm (k + Format.double.unitExponent)
  have hround := Format.nearestCode_units (f := .double) (by decide) code Nat.one_pos
  rw [Nat.mul_one, hcode] at hround
  rw [hround, hcode]

theorem units_codeOf {n : Nat} (h : n ≤ 2 ^ (53 : Nat)) :
    Format.double.units (codeOf n) = n * 2 ^ Format.double.unitExponent := by
  rcases Nat.lt_or_eq_of_le h with hlt | rfl
  · have hn : n = n * 2 ^ 0 := by rw [Nat.pow_zero, Nat.mul_one]
    exact units_codeOf_mul hn hlt
  · have hn : 2 ^ (53 : Nat) = 2 ^ (52 : Nat) * 2 ^ 1 := by decide
    exact units_codeOf_mul hn (by decide)

/-- **An integer is held exactly up to `2 ^ 53`.** -/
theorem isInteger_ofInt {n : Int} (h : n.natAbs ≤ 2 ^ (53 : Nat)) :
    (ofInt n : Double).IsInteger n := by
  rw [ofInt_eq_finite (Nat.le_trans h (by decide))]
  exact ⟨rfl, units_codeOf h⟩

/-- **Of two numbers that are rounded alike, the one of up to `2 ^ 53` is the other**, unless the
other is the first that has no double of its own. -/
theorem eq_of_codeOf_eq {m n : Nat} (hm : m ≤ 2 ^ (53 : Nat)) (hn : n ≠ 2 ^ (53 : Nat) + 1)
    (h : codeOf n = codeOf m) : n = m := by
  rcases Nat.lt_or_ge (2 ^ (53 : Nat)) n with hgreat | hsmall
  · -- The next exact integer would be rounded to the same code.
    have hlow : codeOf m ≤ codeOf (2 ^ (53 : Nat)) := codeOf_mono hm
    have hmid : codeOf (2 ^ (53 : Nat)) ≤ codeOf (2 ^ (53 : Nat) + 2) := codeOf_mono (by omega)
    have hhigh : codeOf (2 ^ (53 : Nat) + 2) ≤ codeOf n := codeOf_mono (by omega)
    have heq : codeOf (2 ^ (53 : Nat) + 2) = codeOf (2 ^ (53 : Nat)) := by omega
    have hnext : 2 ^ (53 : Nat) + 2 = (2 ^ (52 : Nat) + 1) * 2 ^ 1 := by decide
    have hunits := units_codeOf_mul hnext (by decide)
    rw [heq, units_codeOf (Nat.le_refl _)] at hunits
    exact absurd (Nat.eq_of_mul_eq_mul_right (Nat.two_pow_pos _) hunits) (by decide)
  · have hunits := units_codeOf hm
    rw [← h, units_codeOf hsmall] at hunits
    exact Nat.eq_of_mul_eq_mul_right (Nat.two_pow_pos _) hunits

theorem eq_of_ofInt_eq {a b : Int} (ha : a.natAbs ≤ 2 ^ (53 : Nat))
    (hb : b.natAbs ≤ 2 ^ (53 : Nat)) (h : (ofInt a : Double) = ofInt b) : a = b := by
  rw [ofInt_eq_finite (Nat.le_trans ha (by decide)),
    ofInt_eq_finite (Nat.le_trans hb (by decide))] at h
  obtain ⟨hsign, hcode⟩ := Binary.finite.inj h
  have habs : a.natAbs = b.natAbs := eq_of_codeOf_eq hb (by omega) (Fin.mk.inj hcode)
  have hneg : a < 0 ↔ b < 0 := decide_eq_decide.1 hsign
  omega

end Binary

/-- A word has at most 64 places, with or without sign. -/
theorem Word.toInt_bounds (w : Word) :
    -(2 ^ (63 : Nat) : Nat) ≤ w.toInt ∧ w.toInt < (2 ^ (64 : Nat) : Nat) := by
  cases w with
  | int8 n => have := n.toInt_lt; have := n.le_toInt; simp only [toInt]; omega
  | int16 n => have := n.toInt_lt; have := n.le_toInt; simp only [toInt]; omega
  | int32 n => have := n.toInt_lt; have := n.le_toInt; simp only [toInt]; omega
  | int64 n => have := n.toInt_lt; have := n.le_toInt; simp only [toInt]; omega
  | uint8 n => have := n.toNat_lt; simp only [toInt]; omega
  | uint16 n => have := n.toNat_lt; simp only [toInt]; omega
  | uint32 n => have := n.toNat_lt; simp only [toInt]; omega
  | uint64 n => have := n.toNat_lt; simp only [toInt]; omega

/-- Each such integer is held by a word. -/
theorem Word.exists_toInt_eq {n : Int} (hlow : -(2 ^ (63 : Nat) : Nat) ≤ n)
    (hhigh : n < (2 ^ (64 : Nat) : Nat)) : ∃ w : Word, w.toInt = n := by
  rcases Int.lt_or_le n 0 with hneg | hpos
  · exact ⟨.int64 (.ofInt n), Int64.toInt_ofInt_of_le (by omega) (by omega)⟩
  · obtain ⟨m, rfl⟩ := Int.eq_ofNat_of_zero_le hpos
    have hm : (UInt64.ofNat m).toNat = m := UInt64.toNat_ofNat_of_lt' (Int.ofNat_lt.1 hhigh)
    exact ⟨.uint64 (.ofNat m), congrArg Int.ofNat hm⟩

theorem Word.natAbs_toInt_le (w : Word) : w.toInt.natAbs ≤ 2 ^ (64 : Nat) := by
  have h := w.toInt_bounds
  omega

theorem Word.isFinite_toDouble (w : Word) : w.toDouble.isFinite = true :=
  Binary.isFinite_ofInt w.natAbs_toInt_le

end ShapeCheck
