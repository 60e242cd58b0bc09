import Mathlib.Order.Monotone.Basic
import Mathlib.Tactic.Ring
import ShapeCheck.Proofs.Rounding
/-!
# The nearest number

The codes of a format are in the order of their magnitudes, each with the next one a step of its own
shift above it (`units_succ`). Rounding a ratio gives a code that the ratio is not past the middle
to any other, and in a middle only if the code is even (`nearestCode_below`, `nearestCode_above`).
`Binary.IsNearest` says of any numbers what this means for an integer and its number: none is
nearer, and of two equally near ones it is the one with the even significand. Main theorems
`isNearest_ofInt` and `IsNearest.unique`: the number of an integer is the nearest one, and no other
number is.
-/
namespace ShapeCheck

/-! ## Rounding to a whole number -/

/-- A ratio is at most one half above its rounding, and as much only if that is even. -/
theorem twice_le_roundRatio (num : Nat) {den : Nat} (hden : 0 < den) :
    2 * num ≤ (2 * roundRatio num den + 1) * den ∧
      (2 * num = (2 * roundRatio num den + 1) * den → roundRatio num den % 2 = 0) := by
  have hdiv := Nat.div_add_mod num den
  have hrest := Nat.mod_lt num hden
  have hwhole : (2 * (num / den) + 1) * den = 2 * (den * (num / den)) + den := by ring
  have hnext : (2 * (num / den + 1) + 1) * den = 2 * (den * (num / den)) + 3 * den := by ring
  unfold roundRatio
  dsimp only
  split
  · rw [hwhole]
    omega
  · rw [hnext]
    omega

/-- A ratio is at most one half below its rounding, and as much only if that is even. -/
theorem roundRatio_le_twice (num : Nat) {den : Nat} (hden : 0 < den) :
    2 * roundRatio num den * den ≤ 2 * num + den ∧
      (2 * roundRatio num den * den = 2 * num + den → roundRatio num den % 2 = 0) := by
  have hdiv := Nat.div_add_mod num den
  have hrest := Nat.mod_lt num hden
  have hwhole : 2 * (num / den) * den = 2 * (den * (num / den)) := by ring
  have hnext : 2 * (num / den + 1) * den = 2 * (den * (num / den)) + 2 * den := by ring
  unfold roundRatio
  dsimp only
  split
  · rw [hwhole]
    omega
  · rw [hnext]
    omega

namespace Format

variable {f : Format}

/-! ## Codes in order -/

/-- Significands of up to two binades have codes at one shift; the last is the first of the next. -/
theorem units_mul_binade_add {m k : Nat} (hlow : k = 0 ∨ f.binade ≤ m)
    (hhigh : m ≤ 2 * f.binade) : f.units (k * f.binade + m) = m * 2 ^ k := by
  have hpos : 0 < f.binade := binade_pos
  rcases Nat.lt_or_eq_of_le hhigh with hlt | rfl
  · rcases Nat.lt_or_ge m f.binade with hsmall | hfull
    · obtain rfl : k = 0 := hlow.resolve_right (by omega)
      rw [Nat.zero_mul, Nat.zero_add, units, significand, shift, Nat.div_eq_of_lt hsmall,
        if_pos rfl, Nat.mod_eq_of_lt hsmall]
    · exact units_add hfull hlt k
  · have hcode : k * f.binade + 2 * f.binade = (k + 1) * f.binade + f.binade := by ring
    rw [hcode, units_add (Nat.le_refl _) (by omega), Nat.pow_succ]
    ring

/-- The next magnitude is one step of the shift above. -/
theorem units_succ (code : Nat) : f.units (code + 1) = f.units code + 2 ^ f.shift code := by
  have hcode := shift_mul_binade_add_significand (f := f) code
  have hsig := significand_lt (f := f) code
  have hlow : f.shift code = 0 ∨ f.binade ≤ f.significand code := by
    unfold shift significand
    split
    · left; omega
    · right; omega
  have hnext : code + 1 = f.shift code * f.binade + (f.significand code + 1) := by omega
  rw [hnext, units_mul_binade_add (hlow.imp_right fun h => by omega) (by omega), Nat.succ_mul,
    units]

/-- **Codes are in the order of their magnitudes.** -/
theorem units_strictMono : StrictMono f.units := by
  refine strictMono_nat_of_lt_succ fun code => ?_
  rw [units_succ]
  exact Nat.lt_add_of_pos_right (Nat.two_pow_pos _)

@[simp] theorem units_zero : f.units 0 = 0 := by
  simp [units, significand]

@[simp] theorem units_one : f.units 1 = 1 := by
  simp [units_succ 0, shift]

theorem units_eq_zero_iff {code : Nat} : f.units code = 0 ↔ code = 0 := by
  rw [← units_strictMono.injective.eq_iff (a := code), units_zero]

/-- Every binade has an even number of codes, so the last place of a code is that of its
significand. -/
theorem mul_binade_add_mod_two (hp : 1 < f.precision) (k m : Nat) :
    (k * f.binade + m) % 2 = m % 2 := by
  have heven : f.binade = 2 ^ (f.precision - 2) * 2 := by
    rw [← Nat.pow_succ, binade]
    congr 1
    omega
  rw [heven, ← Nat.mul_assoc, Nat.mul_add_mod']

theorem significand_mod_two (hp : 1 < f.precision) (code : Nat) :
    f.significand code % 2 = code % 2 := by
  rw [← mul_binade_add_mod_two hp, shift_mul_binade_add_significand]

/-! ## The nearest code -/

/-- A ratio is rounded at the shift where its whole part has the places of the precision. -/
theorem nearestCode_eq (hp : 0 < f.precision) (num den : Nat) :
    ∃ k, f.nearestCode num den = k * f.binade + roundRatio num (den * 2 ^ k) ∧
      (k = 0 ∨ f.binade ≤ num / (den * 2 ^ k)) ∧ num / (den * 2 ^ k) < 2 * f.binade := by
  refine ⟨f.dropped num den, rfl, ?_, div_dropped_lt hp num den⟩
  rcases Nat.eq_zero_or_pos (f.dropped num den) with hk | hk
  · exact .inl hk
  · unfold dropped at hk
    have hpos : num / den ≠ 0 := by
      intro hzero
      rw [hzero, Nat.log2_zero] at hk
      omega
    exact .inr (le_div_dropped hpos (by omega) hp)

variable {num den code : Nat}

/-- Where a ratio is rounded to: as a whole number of steps of one shift, at most one half of a step
away, and there only if the number of steps is even. -/
structure Step (f : Format) (num den k m : Nat) : Prop where
  code : f.nearestCode num den = k * f.binade + m
  low : k = 0 ∨ f.binade ≤ m
  high : m ≤ 2 * f.binade
  floor : m = f.binade → k = 0 ∨ m * (den * 2 ^ k) ≤ num
  above : 2 * num ≤ (2 * m + 1) * (den * 2 ^ k)
  above_even : 2 * num = (2 * m + 1) * (den * 2 ^ k) → m % 2 = 0
  below : 2 * m * (den * 2 ^ k) ≤ 2 * num + den * 2 ^ k
  below_even : 2 * m * (den * 2 ^ k) = 2 * num + den * 2 ^ k → m % 2 = 0

theorem exists_step (hp : 0 < f.precision) (num : Nat) (hden : 0 < den) :
    ∃ k m, f.Step num den k m := by
  obtain ⟨k, hcode, hlow, hhigh⟩ := nearestCode_eq (f := f) hp num den
  have hpos : 0 < den * 2 ^ k := Nat.mul_pos hden (Nat.two_pow_pos k)
  have hfloor := le_roundRatio num (den * 2 ^ k)
  have hceil := roundRatio_le num (den * 2 ^ k)
  have habove := twice_le_roundRatio num hpos
  have hbelow := roundRatio_le_twice num hpos
  refine ⟨k, roundRatio num (den * 2 ^ k), hcode, ?_, by omega, ?_, habove.1, habove.2, hbelow.1,
    hbelow.2⟩
  · exact hlow.imp_right fun h => Nat.le_trans h hfloor
  · intro hm
    rw [hm]
    exact hlow.imp_right fun h => (Nat.le_div_iff_mul_le hpos).1 h

namespace Step

variable {k m : Nat}

theorem units_eq (h : f.Step num den k m) : f.units (f.nearestCode num den) = m * 2 ^ k := by
  rw [h.code, units_mul_binade_add h.low h.high]

theorem even_iff (h : f.Step num den k m) (hp : 1 < f.precision) :
    f.nearestCode num den % 2 = 0 ↔ m % 2 = 0 := by
  rw [h.code, mul_binade_add_mod_two hp]

/-- The next magnitude is at least a step away. -/
theorem le_units_succ (h : f.Step num den k m) :
    (m + 1) * 2 ^ k ≤ f.units (f.nearestCode num den + 1) := by
  have hshift : k ≤ f.shift (k * f.binade + m) := by
    rcases h.low with rfl | hlow
    · exact Nat.zero_le _
    · have hdiv : 1 ≤ m / f.binade := (Nat.one_le_div_iff binade_pos).2 hlow
      rw [shift, Nat.mul_comm, Nat.mul_add_div binade_pos]
      omega
  rw [units_succ, h.units_eq, Nat.succ_mul, h.code]
  exact Nat.add_le_add_left (Nat.pow_le_pow_right (by decide) hshift) _

/-- The magnitude before is a step away, except at the start of a binade. -/
theorem units_le (h : f.Step num den k m) (hm : m ≠ f.binade ∨ k = 0)
    (hlt : code < f.nearestCode num den) : f.units code + 2 ^ k ≤ m * 2 ^ k := by
  have hpos : m ≠ 0 := by
    rintro rfl
    have hlow := h.low
    have hb : 0 < f.binade := binade_pos
    obtain rfl : k = 0 := by omega
    have hcode := h.code
    omega
  obtain ⟨p, rfl⟩ := Nat.exists_eq_succ_of_ne_zero hpos
  have hcode := h.code
  have hlow := h.low
  have hhigh := h.high
  have hlast : f.units (k * f.binade + p) = p * 2 ^ k :=
    units_mul_binade_add (by omega) (by omega)
  rw [Nat.succ_mul, ← hlast]
  exact Nat.add_le_add_right (units_strictMono.monotone (by omega)) _

end Step

/-- **A ratio is not past the middle to any greater magnitude**, and in the middle only if it is
rounded to an even code. -/
theorem nearestCode_above (hp : 1 < f.precision) (hden : 0 < den)
    (h : f.nearestCode num den < code) :
    2 * num ≤ (f.units (f.nearestCode num den) + f.units code) * den ∧
      (2 * num = (f.units (f.nearestCode num den) + f.units code) * den →
        f.nearestCode num den % 2 = 0) := by
  obtain ⟨k, m, hs⟩ := exists_step (f := f) (Nat.lt_of_succ_lt hp) num hden
  have hnext := Nat.le_trans hs.le_units_succ (units_strictMono.monotone h)
  have hmid : (2 * m + 1) * (den * 2 ^ k) ≤
      (f.units (f.nearestCode num den) + f.units code) * den := by
    calc (2 * m + 1) * (den * 2 ^ k)
      _ = (m * 2 ^ k + (m + 1) * 2 ^ k) * den := by ring
      _ ≤ (f.units (f.nearestCode num den) + f.units code) * den := by
        rw [hs.units_eq]
        exact Nat.mul_le_mul_right _ (Nat.add_le_add_left hnext _)
  have habove := hs.above
  exact ⟨by omega, fun heq => (hs.even_iff hp).2 (hs.above_even (by omega))⟩

/-- **Nor is it before the middle to any smaller magnitude**, and in the middle only if it is
rounded to an even code. -/
theorem nearestCode_below (hp : 1 < f.precision) (hden : 0 < den)
    (h : code < f.nearestCode num den) :
    (f.units code + f.units (f.nearestCode num den)) * den ≤ 2 * num ∧
      (2 * num = (f.units code + f.units (f.nearestCode num den)) * den →
        f.nearestCode num den % 2 = 0) := by
  obtain ⟨k, m, hs⟩ := exists_step (f := f) (Nat.lt_of_succ_lt hp) num hden
  by_cases hstart : m = f.binade ∧ k ≠ 0
  · -- At the start of a binade, the ratio has been rounded down.
    have hfloor := (hs.floor hstart.1).resolve_left hstart.2
    have hlt : (f.units code + f.units (f.nearestCode num den)) * den <
        2 * (m * (den * 2 ^ k)) := by
      calc (f.units code + f.units (f.nearestCode num den)) * den
        _ < (m * 2 ^ k + m * 2 ^ k) * den := by
          have hcode := units_strictMono (f := f) h
          rw [hs.units_eq] at hcode ⊢
          exact Nat.mul_lt_mul_of_pos_right (Nat.add_lt_add_right hcode _) hden
        _ = 2 * (m * (den * 2 ^ k)) := by ring
    exact ⟨by omega, fun heq => by omega⟩
  · have hlast := hs.units_le (by omega) h
    have hmid : (f.units code + f.units (f.nearestCode num den)) * den + den * 2 ^ k ≤
        2 * m * (den * 2 ^ k) := by
      calc (f.units code + f.units (f.nearestCode num den)) * den + den * 2 ^ k
        _ = (f.units code + 2 ^ k + m * 2 ^ k) * den := by rw [hs.units_eq]; ring
        _ ≤ (m * 2 ^ k + m * 2 ^ k) * den :=
          Nat.mul_le_mul_right _ (Nat.add_le_add_right hlast _)
        _ = 2 * m * (den * 2 ^ k) := by ring
    have hbelow := hs.below
    exact ⟨by omega, fun heq => (hs.even_iff hp).2 (hs.below_even (by omega))⟩

/-- **No magnitude is nearer to a ratio than the one that it is rounded to**, and another one is as
near only if that one has an even code. -/
theorem nearestCode_nearest (hp : 1 < f.precision) (num code : Nat) :
    ((num : Int) - f.units (f.nearestCode num 1)).natAbs ≤ ((num : Int) - f.units code).natAbs ∧
      (((num : Int) - f.units code).natAbs = ((num : Int) - f.units (f.nearestCode num 1)).natAbs →
        code ≠ f.nearestCode num 1 → f.nearestCode num 1 % 2 = 0) := by
  rcases Nat.lt_trichotomy code (f.nearestCode num 1) with hlt | heq | hgt
  · have hmid := nearestCode_below hp Nat.one_pos hlt
    have hunits := units_strictMono (f := f) hlt
    rw [Nat.mul_one] at hmid
    exact ⟨by omega, fun h _ => hmid.2 (by omega)⟩
  · exact ⟨by rw [heq], fun _ h => absurd heq h⟩
  · have hmid := nearestCode_above hp Nat.one_pos hgt
    have hunits := units_strictMono (f := f) hgt
    rw [Nat.mul_one] at hmid
    exact ⟨by omega, fun h _ => hmid.2 (by omega)⟩

end Format

/-! ## The number of an integer -/

namespace Binary

variable {f : Format}

/-- A number in units, with its sign. Those that are not finite count as zero. -/
def signedUnits : Binary f → Int
  | .finite true code => -f.units code
  | .finite false code => f.units code
  | _ => 0

/-- The significand of the number is even. -/
def HasEvenSignificand : Binary f → Prop
  | .finite _ code => f.significand code % 2 = 0
  | _ => False

/-- How many units there are between an integer and a number. -/
def distance (n : Int) (x : Binary f) : Nat :=
  (n * (2 ^ f.unitExponent : Nat) - x.signedUnits).natAbs

/-- The number nearest to an integer. Of two equally near numbers it is the one with the even
significand, and a zero is positive. -/
structure IsNearest (n : Int) (x : Binary f) : Prop where
  finite : x.isFinite = true
  nearest : ∀ y : Binary f, y.isFinite = true → distance n x ≤ distance n y
  even : ∀ y : Binary f, y.isFinite = true → distance n y = distance n x →
    y.signedUnits ≠ x.signedUnits → x.HasEvenSignificand
  positive : ∀ code : Fin f.infCode, x = .finite true code → code.val ≠ 0

theorem exists_of_isFinite {x : Binary f} (h : x.isFinite = true) :
    ∃ negative code, x = .finite negative code := by
  cases x with
  | finite negative code => exact ⟨negative, code, rfl⟩
  | _ => cases h

/-- On the side of the integer, magnitudes are compared. -/
theorem distance_same_side (n : Int) (code : Fin f.infCode) :
    distance n (.finite (decide (n < 0)) code) =
      (((n.natAbs * 2 ^ f.unitExponent : Nat) : Int) - f.units code).natAbs := by
  unfold distance
  obtain ⟨m, rfl | rfl⟩ := n.eq_nat_or_neg
  · have hneg : decide ((m : Int) < 0) = false := decide_eq_false (by omega)
    rw [hneg, Int.natAbs_natCast, signedUnits, Int.natCast_mul]
  · by_cases hm : m = 0
    · subst hm
      simp [signedUnits]
    · have hneg : decide (-(m : Int) < 0) = true := decide_eq_true (by omega)
      rw [hneg, Int.natAbs_neg, Int.natAbs_natCast, signedUnits, Int.natCast_mul, Int.neg_mul]
      omega

/-- On the other side, they add up. -/
theorem distance_other_side (n : Int) (code : Fin f.infCode) :
    distance n (.finite (!decide (n < 0)) code) =
      n.natAbs * 2 ^ f.unitExponent + f.units code := by
  unfold distance
  obtain ⟨m, rfl | rfl⟩ := n.eq_nat_or_neg
  · have hneg : decide ((m : Int) < 0) = false := decide_eq_false (by omega)
    rw [hneg, Int.natAbs_natCast, Bool.not_false, signedUnits, ← Int.natCast_mul]
    omega
  · by_cases hm : m = 0
    · subst hm
      simp [signedUnits]
    · have hneg : decide (-(m : Int) < 0) = true := decide_eq_true (by omega)
      rw [hneg, Int.natAbs_neg, Int.natAbs_natCast, Bool.not_true, signedUnits, Int.neg_mul,
        ← Int.natCast_mul]
      omega

/-- **The number of an integer is the nearest one**, as long as it is not infinite. -/
theorem isNearest_ofInt (hp : 1 < f.precision) {n : Int}
    (h : (ofInt n : Binary f).isFinite = true) : (ofInt n : Binary f).IsNearest n := by
  obtain ⟨negative, code, hx⟩ := exists_of_isFinite h
  have hround : ofCode (decide (n < 0)) (f.nearestCode (n.natAbs * 2 ^ f.unitExponent) 1) =
    (.finite negative code : Binary f) := hx
  obtain ⟨rfl, hcode⟩ := of_ofCode_eq_finite hround
  have hnearest := Format.nearestCode_nearest hp (n.natAbs * 2 ^ f.unitExponent)
  rw [hcode] at hnearest
  have hzero := (hnearest 0).1
  rw [Format.units_zero] at hzero
  rw [hx]
  refine ⟨rfl, fun y hy => ?nearest, fun y hy hequal hne => ?even, fun c hc => ?positive⟩
  case nearest =>
    obtain ⟨sign, other, rfl⟩ := exists_of_isFinite hy
    have hother := (hnearest other).1
    rw [distance_same_side]
    rcases Bool.eq_or_eq_not sign (decide (n < 0)) with rfl | rfl
    · rwa [distance_same_side]
    · rw [distance_other_side]
      omega
  case even =>
    obtain ⟨sign, other, rfl⟩ := exists_of_isFinite hy
    have hother := hnearest other
    rw [distance_same_side] at hequal
    show f.significand code % 2 = 0
    rw [Format.significand_mod_two hp]
    rcases Bool.eq_or_eq_not sign (decide (n < 0)) with rfl | rfl
    · rw [distance_same_side] at hequal
      refine hother.2 hequal fun heq => hne ?_
      rw [Fin.ext heq]
    · rw [distance_other_side] at hequal
      by_cases heq : other.val = code.val
      · -- Only a zero is as near as its opposite.
        have hunits : f.units code = 0 := by
          rw [heq] at hequal
          omega
        rw [Format.units_eq_zero_iff.1 hunits]
      · exact hother.2 (by omega) heq
  case positive =>
    obtain ⟨hneg, rfl⟩ := Binary.finite.inj hc
    intro hcode
    have hn : n < 0 := of_decide_eq_true hneg
    have hpos : 0 < n.natAbs * 2 ^ f.unitExponent :=
      Nat.mul_pos (by omega) (Nat.two_pow_pos _)
    have hone := (hnearest 1).1
    rw [hcode, Format.units_zero, Format.units_one] at hone
    omega

/-! ## No other number -/

theorem HasEvenSignificand.code_even (hp : 1 < f.precision) {negative : Bool}
    {code : Fin f.infCode} (h : (Binary.finite negative code).HasEvenSignificand) :
    code.val % 2 = 0 := by
  rw [← Format.significand_mod_two hp]
  exact h

/-- Two even codes are not next to one another. -/
theorem exists_code_between {a b : Fin f.infCode} (ha : a.val % 2 = 0) (hb : b.val % 2 = 0)
    (h : f.units a < f.units b) :
    ∃ c : Fin f.infCode, f.units a < f.units c ∧ f.units c < f.units b := by
  have hcodes : a.val < b.val := Format.units_strictMono.lt_iff_lt.1 h
  have hnext : a.val + 1 < b.val := by omega
  exact ⟨⟨a + 1, Nat.lt_trans hnext b.isLt⟩, Format.units_strictMono (Nat.lt_succ_self _),
    Format.units_strictMono hnext⟩

/-- Between two numbers with even significands there is another number. -/
theorem exists_between (hp : 1 < f.precision) {x y : Binary f} (hx : x.HasEvenSignificand)
    (hy : y.HasEvenSignificand) (h : x.signedUnits < y.signedUnits) :
    ∃ z : Binary f, z.isFinite = true ∧ x.signedUnits < z.signedUnits ∧
      z.signedUnits < y.signedUnits := by
  cases x with
  | finite s a =>
    cases y with
    | finite t b =>
      have ha := hx.code_even hp
      have hb := hy.code_even hp
      have hinf : 0 < f.infCode := Nat.lt_of_le_of_lt (Nat.zero_le _) a.isLt
      cases s <;> cases t <;> simp only [signedUnits] at h
      case false.false =>
        obtain ⟨c, hac, hcb⟩ := exists_code_between ha hb (by omega)
        exact ⟨.finite false c, rfl, Int.ofNat_lt.2 hac, Int.ofNat_lt.2 hcb⟩
      case false.true => omega
      case true.true =>
        obtain ⟨c, hbc, hca⟩ := exists_code_between hb ha (by omega)
        exact ⟨.finite true c, rfl, by simp only [signedUnits]; omega⟩
      case true.false =>
        -- Zero is between them, unless it is one of them.
        rcases Nat.eq_zero_or_pos (f.units a) with hunits | hposa
        · obtain ⟨c, hac, hcb⟩ := exists_code_between ha hb (by omega)
          exact ⟨.finite false c, rfl, by simp only [signedUnits]; omega⟩
        · rcases Nat.eq_zero_or_pos (f.units b) with hunits | hposb
          · obtain ⟨c, hbc, hca⟩ := exists_code_between hb ha (by omega)
            exact ⟨.finite true c, rfl, by simp only [signedUnits]; omega⟩
          · refine ⟨.finite false ⟨0, hinf⟩, rfl, ?_⟩
            simp only [signedUnits, Format.units_zero]
            omega
    | _ => exact hy.elim
  | _ => exact hx.elim

variable {n : Int} {x y : Binary f}

/-- Of two nearest numbers none is below the other: what is between them would be nearer. -/
theorem IsNearest.not_lt (hp : 1 < f.precision) (hx : x.IsNearest n) (hy : y.IsNearest n) :
    ¬ x.signedUnits < y.signedUnits := by
  intro hlt
  have hequal : distance n x = distance n y :=
    Nat.le_antisymm (hx.nearest y hy.finite) (hy.nearest x hx.finite)
  have hevenx := hx.even y hy.finite hequal.symm (Int.ne_of_gt hlt)
  have heveny := hy.even x hx.finite hequal (Int.ne_of_lt hlt)
  obtain ⟨z, hz, hxz, hzy⟩ := exists_between hp hevenx heveny hlt
  have hnearer := hx.nearest z hz
  unfold distance at hequal hnearer
  omega

theorem IsNearest.eq_of_signedUnits_eq (hx : x.IsNearest n) (hy : y.IsNearest n)
    (h : x.signedUnits = y.signedUnits) : x = y := by
  obtain ⟨s, a, rfl⟩ := exists_of_isFinite hx.finite
  obtain ⟨t, b, rfl⟩ := exists_of_isFinite hy.finite
  have hzero : ∀ code : Fin f.infCode, f.units code = 0 ↔ code.val = 0 :=
    fun _ => Format.units_eq_zero_iff
  have hunits : f.units a = f.units b := by
    cases s <;> cases t <;> simp only [signedUnits] at h <;> omega
  have hcodes : a = b := Fin.ext (Format.units_strictMono.injective hunits)
  subst hcodes
  have hposx := hx.positive a
  have hposy := hy.positive a
  cases s <;> cases t <;> simp only [signedUnits] at h
  case false.false | true.true => rfl
  case false.true => exact absurd ((hzero a).1 (by omega)) (hposy rfl)
  case true.false => exact absurd ((hzero a).1 (by omega)) (hposx rfl)

/-- **No other number is the nearest.** -/
theorem IsNearest.unique (hp : 1 < f.precision) (hx : x.IsNearest n) (hy : y.IsNearest n) :
    x = y := by
  have hxy := hx.not_lt hp hy
  have hyx := hy.not_lt hp hx
  exact hx.eq_of_signedUnits_eq hy (by omega)

end Binary

end ShapeCheck
