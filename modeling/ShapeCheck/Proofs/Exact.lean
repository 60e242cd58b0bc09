import ShapeCheck.Number.Binary
/-!
# Exact numbers

A code splits into its shift and its significand (`shift_mul_binade_add_significand`), and rounding
the magnitude of a code gives that code back (`nearestCode_units`). So a number that a format has is
not changed by being rounded to it: an integer that is held exactly (`ofInt_of_isInteger`), or a
number of another format (`convert_of_same`). Singles are all doubles (`same_iff_convert`). And no
two numbers have the same bits (`bits?_injective`).
-/
namespace ShapeCheck

theorem roundRatio_mul (n : Nat) {den : Nat} (h : 0 < den) : roundRatio (n * den) den = n := by
  simp [roundRatio, Nat.mul_div_cancel n h, h]

theorem log2_mul_two_pow_lt {n places : Nat} (hp : 0 < places) (h : n < 2 ^ places) (k : Nat) :
    (n * 2 ^ k).log2 < places + k := by
  rcases Nat.eq_zero_or_pos n with rfl | hn
  · rw [Nat.zero_mul, Nat.log2_zero]
    omega
  · rw [Nat.log2_lt (Nat.ne_of_gt (Nat.mul_pos hn (Nat.two_pow_pos k))), Nat.pow_add]
    exact Nat.mul_lt_mul_of_pos_right h (Nat.two_pow_pos k)

namespace Format

variable {f : Format}

theorem binade_pos : 0 < f.binade := Nat.two_pow_pos _

theorem two_mul_binade (hp : 0 < f.precision) : 2 * f.binade = 2 ^ f.precision := by
  obtain ⟨p, hq⟩ := Nat.exists_eq_succ_of_ne_zero (Nat.ne_of_gt hp)
  rw [binade, hq, Nat.succ_sub_one, Nat.pow_succ, Nat.mul_comm]

/-! ## Codes and magnitudes -/

theorem significand_lt (code : Nat) : f.significand code < 2 * f.binade := by
  have hmod : code % f.binade < f.binade := Nat.mod_lt _ binade_pos
  unfold significand
  split <;> omega

theorem shift_mul_binade_add_significand (code : Nat) :
    f.shift code * f.binade + f.significand code = code := by
  have hdiv := Nat.div_add_mod' code f.binade
  unfold shift significand
  split
  next h => rw [h] at hdiv ⊢; exact hdiv
  next h =>
    obtain ⟨q, hq⟩ := Nat.exists_eq_succ_of_ne_zero h
    rw [hq, Nat.succ_mul] at hdiv
    rw [hq, Nat.succ_sub_one]
    omega

/-- The places of a magnitude beyond the precision are those it is shifted by. -/
theorem log2_units (hp : 0 < f.precision) (code : Nat) :
    (f.units code).log2 + 1 - f.precision = f.shift code := by
  have hmod : code % f.binade < f.binade := Nat.mod_lt _ binade_pos
  have htwo := two_mul_binade hp
  unfold units shift significand
  split
  next h =>
    rw [h, Nat.zero_sub, Nat.pow_zero, Nat.mul_one]
    rcases Nat.eq_zero_or_pos (code % f.binade) with hzero | hpos
    · rw [hzero, Nat.log2_zero]
      omega
    · have hlog := (Nat.log2_lt (Nat.ne_of_gt hpos)).2 hmod
      omega
  next h =>
    generalize code / f.binade - 1 = k
    have hpos : f.binade ≤ f.binade + code % f.binade := Nat.le_add_right _ _
    have hlog : ((f.binade + code % f.binade) * 2 ^ k).log2 = f.precision - 1 + k := by
      have hne : (f.binade + code % f.binade) * 2 ^ k ≠ 0 :=
        Nat.ne_of_gt (Nat.mul_pos (Nat.lt_of_lt_of_le binade_pos hpos) (Nat.two_pow_pos k))
      rw [Nat.log2_eq_iff hne]
      constructor
      · rw [Nat.pow_add]
        exact Nat.mul_le_mul_right _ hpos
      · rw [show f.precision - 1 + k + 1 = f.precision + k by omega, Nat.pow_add, ← htwo]
        exact Nat.mul_lt_mul_of_pos_right (by omega) (Nat.two_pow_pos k)
    omega

/-- **The magnitude of a code is rounded to that code.** -/
theorem nearestCode_units (hp : 0 < f.precision) (code : Nat) {den : Nat} (hden : 0 < den) :
    f.nearestCode (f.units code * den) den = code := by
  have hround : roundRatio (f.units code * den) (den * 2 ^ f.shift code) = f.significand code := by
    rw [units, Nat.mul_assoc, Nat.mul_comm (2 ^ _) den]
    exact roundRatio_mul _ (Nat.mul_pos hden (Nat.two_pow_pos _))
  rw [nearestCode, Nat.mul_div_cancel _ hden, log2_units hp, hround]
  exact shift_mul_binade_add_significand code

/-- The code with that shift and significand. -/
theorem units_add {m : Nat} (hlow : f.binade ≤ m) (hhigh : m < 2 * f.binade) (k : Nat) :
    f.units (k * f.binade + m) = m * 2 ^ k := by
  obtain ⟨r, rfl⟩ := Nat.exists_eq_add_of_le hlow
  have hr : r < f.binade := by omega
  have hcode : k * f.binade + (f.binade + r) = f.binade * (k + 1) + r := by
    rw [Nat.mul_succ, Nat.mul_comm, Nat.add_assoc]
  have hdiv : (f.binade * (k + 1) + r) / f.binade = k + 1 := by
    rw [Nat.mul_add_div binade_pos, Nat.div_eq_of_lt hr, Nat.add_zero]
  have hmod : (f.binade * (k + 1) + r) % f.binade = r := by
    rw [Nat.mul_add_mod, Nat.mod_eq_of_lt hr]
  rw [hcode, units, significand, shift, hdiv, hmod, if_neg (Nat.succ_ne_zero k),
    Nat.succ_sub_one]

/-- **A significand that fits the precision has a code, whatever it is shifted by.** -/
theorem exists_units {m : Nat} (hm : m < 2 * f.binade) (k : Nat) :
    ∃ code, f.units code = m * 2 ^ k := by
  induction k generalizing m with
  | zero =>
    rcases Nat.lt_or_ge m f.binade with hlow | hlow
    · refine ⟨m, ?_⟩
      rw [units, significand, shift, Nat.div_eq_of_lt hlow, if_pos rfl, Nat.mod_eq_of_lt hlow]
    · exact ⟨_, units_add hlow hm 0⟩
  | succ k ih =>
    rcases Nat.lt_or_ge m f.binade with hlow | hlow
    · -- There is room to double the significand and shift it one place less.
      obtain ⟨code, hcode⟩ := ih (m := 2 * m) (by omega)
      exact ⟨code, by rw [hcode, Nat.pow_succ, Nat.mul_comm 2 m, Nat.mul_assoc, Nat.mul_comm 2]⟩
    · exact ⟨_, units_add hlow hm (k + 1)⟩

/-- A magnitude of few places has a small code. -/
theorem lt_infCode_of_log2_lt {code places : Nat} (hp : 0 < f.precision)
    (h : (f.units code).log2 < places) (hplaces : (places + 2) * f.binade ≤ f.infCode) :
    code < f.infCode := by
  have hshift := log2_units hp code
  have hcode := shift_mul_binade_add_significand (f := f) code
  have hsig := significand_lt (f := f) code
  have hle : f.shift code * f.binade ≤ places * f.binade :=
    Nat.mul_le_mul_right _ (by omega)
  rw [Nat.add_mul] at hplaces
  omega

end Format

/-! ## Numbers that are not changed -/

namespace Binary

variable {f g : Format}

/-- The number is this integer. Zero has no minus sign. -/
def IsInteger : Binary f → Int → Prop
  | .finite negative code, n =>
    negative = decide (n < 0) ∧ f.units code = n.natAbs * 2 ^ f.unitExponent
  | _, _ => False

/-- The same number in two formats, the sign of zero included. -/
def Same : Binary f → Binary g → Prop
  | .nan, .nan => True
  | .infinity s, .infinity t => s = t
  | .finite s a, .finite t b =>
    s = t ∧ f.units a * 2 ^ g.unitExponent = g.units b * 2 ^ f.unitExponent
  | _, _ => False

theorem ofCode_val (negative : Bool) (code : Fin f.infCode) :
    ofCode negative code.val = .finite negative code := by
  rw [ofCode, dif_pos code.isLt]

theorem of_ofCode_eq_finite {negative negative' : Bool} {n : Nat} {code : Fin f.infCode}
    (h : ofCode negative n = .finite negative' code) : negative = negative' ∧ n = code := by
  unfold ofCode at h
  split at h
  · cases h
    exact ⟨rfl, rfl⟩
  · cases h

/-- A ratio that is the magnitude of a code is rounded to it. -/
theorem ofRatio_of_units (hp : 0 < f.precision) {num den : Nat} (hden : 0 < den)
    (negative : Bool) {code : Fin f.infCode} (h : num * 2 ^ f.unitExponent = f.units code * den) :
    ofRatio negative num den = .finite negative code := by
  rw [ofRatio, h, Format.nearestCode_units hp _ hden, ofCode_val]

theorem ofInt_of_isInteger (hp : 0 < f.precision) {x : Binary f} {n : Int} (h : x.IsInteger n) :
    ofInt n = x := by
  cases x with
  | finite negative code =>
    obtain ⟨hneg, hunits⟩ := h
    rw [hneg]
    exact ofRatio_of_units hp Nat.one_pos _ (by rw [hunits, Nat.mul_one])
  | _ => exact h.elim

theorem isInteger_zero {code : Fin f.infCode} (h : code.val = 0) :
    (Binary.finite false code).IsInteger 0 :=
  ⟨rfl, by simp [h, Format.units, Format.significand]⟩

/-- No integer is a zero with a minus sign. -/
theorem not_isInteger_negative_zero {code : Fin f.infCode} (h : code.val = 0) (n : Int) :
    ¬ (Binary.finite true code).IsInteger n := by
  rintro ⟨hneg, hunits⟩
  have hn : n < 0 := of_decide_eq_true hneg.symm
  have hzero : f.units code = 0 := by simp [h, Format.units, Format.significand]
  rw [hzero] at hunits
  have hpos : 0 < n.natAbs * 2 ^ f.unitExponent := Nat.mul_pos (by omega) (Nat.two_pow_pos _)
  omega

theorem convert_of_same (hp : 0 < g.precision) {x : Binary f} {y : Binary g} (h : x.Same y) :
    x.convert = y := by
  cases x with
  | nan => cases y <;> first | rfl | exact h.elim
  | infinity s => cases y <;> first | exact congrArg _ h | exact h.elim
  | finite s a =>
    cases y with
    | finite t b =>
      obtain ⟨rfl, hunits⟩ := h
      exact ofRatio_of_units hp (Nat.two_pow_pos _) s hunits
    | _ => exact h.elim

/-- The code of a single in the wider format. -/
theorem exists_wider_code (a : Fin Format.single.infCode) :
    ∃ b : Fin Format.double.infCode, Format.single.units a * 2 ^ Format.double.unitExponent =
      Format.double.units b * 2 ^ Format.single.unitExponent := by
  have hshift : Format.single.shift a ≤ 253 := by
    have hdiv : a.val / Format.single.binade < 255 :=
      (Nat.div_lt_iff_lt_mul Format.binade_pos).2 a.isLt
    unfold Format.shift
    omega
  have hsig : Format.single.significand a < 2 ^ (24 : Nat) := Format.significand_lt _
  have hwide : (2 : Nat) ^ (24 : Nat) < 2 * Format.double.binade := by decide
  obtain ⟨b, hb⟩ := Format.exists_units (Nat.lt_trans hsig hwide) (Format.single.shift a + 925)
  have hlog : (Format.double.units b).log2 < 24 + (Format.single.shift a + 925) := by
    rw [hb]
    exact log2_mul_two_pow_lt (by decide) hsig _
  have hlt : b < Format.double.infCode := by
    have hbits : 2 ^ Format.double.exponentBits - 1 = 2047 := by decide
    refine Format.lt_infCode_of_log2_lt (by decide) hlog (Nat.mul_le_mul_right _ ?_)
    omega
  refine ⟨⟨b, hlt⟩, ?_⟩
  have hexp : Format.double.unitExponent = 925 + Format.single.unitExponent := by decide
  rw [hb, Format.units, hexp, Nat.pow_add, Nat.pow_add]
  simp only [Nat.mul_assoc]

/-- **A single is the same number as a double.** -/
theorem same_convert (x : Single) : x.Same (x.convert : Double) := by
  cases x with
  | nan => trivial
  | infinity s => exact rfl
  | finite s a =>
    obtain ⟨b, hb⟩ := exists_wider_code a
    have hconvert : (Binary.finite s a : Single).convert = (.finite s b : Double) :=
      ofRatio_of_units (by decide) (Nat.two_pow_pos _) s hb
    rw [hconvert]
    exact ⟨rfl, hb⟩

/-- The double that a single is the same number as is the one that it is widened to. -/
theorem same_iff_convert {x : Single} {y : Double} : x.Same y ↔ x.convert = y := by
  constructor
  · exact convert_of_same (by decide)
  · rintro rfl
    exact same_convert x

/-! ## Bits -/

theorem infCode_lt_signBit : f.infCode < bits?.signBit (f := f) true := by
  have hbits : 2 ^ f.exponentBits - 1 < 2 ^ f.exponentBits :=
    Nat.sub_lt (Nat.two_pow_pos _) Nat.one_pos
  exact Nat.mul_lt_mul_of_pos_right hbits Format.binade_pos

/-- **The bits tell which number it is.** Only a `nan` has none. -/
theorem bits?_injective : Function.Injective (bits? : Binary f → Option Nat) := by
  have hsign := infCode_lt_signBit (f := f)
  have hplus : bits?.signBit (f := f) false = 0 := rfl
  intro x y h
  cases x with
  | nan =>
    cases y with
    | nan => rfl
    | _ => cases h
  | infinity s =>
    cases y with
    | nan => cases h
    | infinity t =>
      have h := Option.some.inj h
      cases s <;> cases t <;> first | rfl | omega
    | finite t b =>
      have h := Option.some.inj h
      cases s <;> cases t <;> omega
  | finite s a =>
    cases y with
    | nan => cases h
    | infinity t =>
      have h := Option.some.inj h
      cases s <;> cases t <;> omega
    | finite t b =>
      have h := Option.some.inj h
      have hcode : a.val = b.val := by cases s <;> cases t <;> omega
      obtain rfl := Fin.ext hcode
      cases s <;> cases t <;> first | rfl | omega

end Binary

end ShapeCheck
