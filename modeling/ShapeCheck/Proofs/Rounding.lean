import ShapeCheck.Proofs.Exact
/-!
# Rounding ratios

The code nearest to a ratio depends on the ratio alone (`nearestCode_mul_mul`), it grows with the
numerator (`nearestCode_mono`), and it is known up to one binade from the places of the whole part
(`nearestCode_le`, `le_nearestCode`).
-/
namespace ShapeCheck

theorem log2_mono {a b : Nat} (h : a ≤ b) : a.log2 ≤ b.log2 := by
  by_cases ha : a = 0
  · rw [ha, Nat.log2_zero]
    exact Nat.zero_le _
  · exact (Nat.le_log2 (by omega)).2 (Nat.le_trans (Nat.log2_self_le ha) h)

theorem le_roundRatio (num den : Nat) : num / den ≤ roundRatio num den := by
  unfold roundRatio
  dsimp only
  split <;> omega

theorem roundRatio_le (num den : Nat) : roundRatio num den ≤ num / den + 1 := by
  unfold roundRatio
  dsimp only
  split <;> omega

theorem roundRatio_mono {a b : Nat} (h : a ≤ b) (den : Nat) :
    roundRatio a den ≤ roundRatio b den := by
  have hdiv : a / den ≤ b / den := Nat.div_le_div_right h
  rcases Nat.lt_or_eq_of_le hdiv with hlt | heq
  · have ha := roundRatio_le a den
    have hb := le_roundRatio b den
    omega
  · -- The whole parts are the same, so the rests are in the order of the numerators.
    have hrest : a % den ≤ b % den := by
      have ha := Nat.div_add_mod a den
      have hb := Nat.div_add_mod b den
      rw [heq] at ha
      omega
    unfold roundRatio
    dsimp only
    rw [heq]
    split <;> split <;> omega

/-- Only the ratio matters. -/
theorem roundRatio_mul_mul (num den : Nat) {c : Nat} (hc : 0 < c) :
    roundRatio (num * c) (den * c) = roundRatio num den := by
  unfold roundRatio
  dsimp only
  rw [Nat.mul_div_mul_right _ _ hc, Nat.mul_mod_mul_right, ← Nat.mul_assoc]
  have hlt : 2 * (num % den) * c < den * c ↔ 2 * (num % den) < den :=
    Nat.mul_lt_mul_right hc
  have heq : 2 * (num % den) * c = den * c ↔ 2 * (num % den) = den :=
    Nat.mul_left_inj (Nat.ne_of_gt hc)
  simp only [hlt, heq]

namespace Format

variable {f : Format}

theorem nearestCode_mul_mul (num den : Nat) {c : Nat} (hc : 0 < c) :
    f.nearestCode (num * c) (den * c) = f.nearestCode num den := by
  unfold nearestCode
  dsimp only
  rw [Nat.mul_div_mul_right _ _ hc, Nat.mul_right_comm den c, roundRatio_mul_mul _ _ hc]

/-- How many binary places of a ratio do not fit the precision. -/
def dropped (f : Format) (num den : Nat) : Nat := (num / den).log2 + 1 - f.precision

theorem nearestCode_eq_add (num den : Nat) : f.nearestCode num den =
    f.dropped num den * f.binade + roundRatio num (den * 2 ^ f.dropped num den) := rfl

/-- What is left fits the precision. -/
theorem div_dropped_lt (hp : 0 < f.precision) (num den : Nat) :
    num / (den * 2 ^ f.dropped num den) < 2 * f.binade := by
  rw [two_mul_binade hp, ← Nat.div_div_eq_div_mul, Nat.div_lt_iff_lt_mul (Nat.two_pow_pos _),
    ← Nat.pow_add]
  refine Nat.lt_of_lt_of_le Nat.lt_log2_self (Nat.pow_le_pow_right (by decide) ?_)
  rw [dropped]
  omega

/-- What is left has all places of the precision if the whole part has them. -/
theorem le_div_dropped {num den : Nat} (hpos : num / den ≠ 0)
    (h : f.precision - 1 ≤ (num / den).log2) (hp : 0 < f.precision) :
    f.binade ≤ num / (den * 2 ^ f.dropped num den) := by
  rw [← Nat.div_div_eq_div_mul, Nat.le_div_iff_mul_le (Nat.two_pow_pos _), binade, ← Nat.pow_add,
    show f.precision - 1 + f.dropped num den = (num / den).log2 by rw [dropped]; omega]
  exact Nat.log2_self_le hpos

/-- The code of a ratio is in the binade that its whole part asks for, or begins the next. -/
theorem nearestCode_le (hp : 0 < f.precision) (num den : Nat) :
    f.nearestCode num den ≤ (f.dropped num den + 2) * f.binade := by
  have hround := roundRatio_le num (den * 2 ^ f.dropped num den)
  have hleft := div_dropped_lt hp num den
  rw [nearestCode_eq_add, Nat.add_mul]
  omega

/-- A whole part with all places of the precision is not rounded to below its binade. -/
theorem le_nearestCode (hp : 0 < f.precision) {num den : Nat} (h : f.binade ≤ num / den) :
    (f.dropped num den + 1) * f.binade ≤ f.nearestCode num den := by
  have hpos : num / den ≠ 0 := Nat.ne_of_gt (Nat.lt_of_lt_of_le binade_pos h)
  have hround := le_roundRatio num (den * 2 ^ f.dropped num den)
  have hleft := le_div_dropped hpos ((Nat.le_log2 hpos).2 h) hp
  rw [nearestCode_eq_add, Nat.succ_mul]
  omega

/-- What is below one half of the smallest magnitude is rounded to zero. -/
theorem nearestCode_eq_zero (hp : 0 < f.precision) {num den : Nat} (h : 2 * num < den) :
    f.nearestCode num den = 0 := by
  have hlt : num < den := by omega
  have hdropped : 0 + 1 - f.precision = 0 := by omega
  unfold nearestCode roundRatio
  dsimp only
  rw [Nat.div_eq_of_lt hlt, Nat.log2_zero, hdropped, Nat.pow_zero, Nat.mul_one,
    Nat.mod_eq_of_lt hlt, if_pos (.inl h), Nat.div_eq_of_lt hlt, Nat.zero_mul]

/-- **Rounding keeps the order of ratios with one denominator.** -/
theorem nearestCode_mono (hp : 0 < f.precision) {a b : Nat} (h : a ≤ b) (den : Nat) :
    f.nearestCode a den ≤ f.nearestCode b den := by
  have hdiv : a / den ≤ b / den := Nat.div_le_div_right h
  have hlog : (a / den).log2 ≤ (b / den).log2 := log2_mono hdiv
  by_cases hdropped : f.dropped a den = f.dropped b den
  · rw [nearestCode_eq_add, nearestCode_eq_add, hdropped]
    exact Nat.add_le_add_left (roundRatio_mono h _) _
  · -- The second begins at least where the binade of the first ends.
    unfold dropped at hdropped
    have hpos : b / den ≠ 0 := by
      intro hzero
      rw [hzero, Nat.log2_zero] at hlog hdropped
      omega
    have hfull : f.binade ≤ b / den :=
      (Nat.le_log2 hpos).1 (show f.precision - 1 ≤ (b / den).log2 by omega)
    refine Nat.le_trans (nearestCode_le hp a den) (Nat.le_trans ?_ (le_nearestCode hp hfull))
    exact Nat.mul_le_mul_right _ (by unfold dropped; omega)

end Format

namespace Binary

variable {f : Format}

/-- Two ratios that are the same have the same nearest number. -/
theorem ofRatio_congr (negative : Bool) {num den num' den' : Nat} (hden : 0 < den)
    (hden' : 0 < den') (h : num * den' = num' * den) :
    (ofRatio negative num den : Binary f) = ofRatio negative num' den' := by
  unfold ofRatio
  rw [← Format.nearestCode_mul_mul (num * 2 ^ f.unitExponent) den hden',
    ← Format.nearestCode_mul_mul (num' * 2 ^ f.unitExponent) den' hden, Nat.mul_right_comm, h,
    Nat.mul_right_comm num', Nat.mul_comm den den']

end Binary

end ShapeCheck
