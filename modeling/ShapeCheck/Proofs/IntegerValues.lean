import ShapeCheck.Proofs.Integers
import ShapeCheck.Proofs.Nearest
import ShapeCheck.Proofs.Routes
import ShapeCheck.Proofs.Verdict
/-!
# Integers as values

An integer is handed over as a word of any width, by a data source or in a JSON tree. Main theorem
`integers_round_alike`: whichever way it comes, it becomes the one double nearest to it. So the
double is finite and in the order of the integers, it is exact up to `2 ^ 53`, and a literal made of
an integer accepts what became of an integer exactly if one double is the nearest to both.
-/
namespace ShapeCheck

namespace Binary

variable {m n : Int}

/-- Within 64 places, the number of an integer is the nearest double and no other is. -/
theorem isNearest_iff_ofInt_eq (h : n.natAbs ≤ 2 ^ (64 : Nat)) (x : Double) :
    x.IsNearest n ↔ ofInt n = x := by
  have hnearest : (ofInt n : Double).IsNearest n := isNearest_ofInt (by decide) (isFinite_ofInt h)
  constructor
  · exact fun hx => hnearest.unique (by decide) hx
  · rintro rfl
    exact hnearest

/-- **Greater integers have no smaller doubles.** -/
theorem signedUnits_ofInt_mono (hm : m.natAbs ≤ 2 ^ (64 : Nat)) (hn : n.natAbs ≤ 2 ^ (64 : Nat))
    (h : m ≤ n) : (ofInt m : Double).signedUnits ≤ (ofInt n : Double).signedUnits := by
  have hmono : ∀ {a b : Nat}, a ≤ b →
      Format.double.units (codeOf a) ≤ Format.double.units (codeOf b) :=
    fun hab => Format.units_strictMono.monotone (codeOf_mono hab)
  rw [ofInt_eq_finite hm, ofInt_eq_finite hn]
  by_cases hneg : n < 0
  · have hunits := hmono (show n.natAbs ≤ m.natAbs by omega)
    rw [decide_eq_true hneg, decide_eq_true (show m < 0 by omega)]
    simp only [signedUnits]
    omega
  · rw [decide_eq_false hneg]
    by_cases hneg' : m < 0
    · rw [decide_eq_true hneg']
      simp only [signedUnits]
      omega
    · have hunits := hmono (show m.natAbs ≤ n.natAbs by omega)
      rw [decide_eq_false hneg']
      simp only [signedUnits]
      omega

/-- Nearest numbers are numerically equal only if they are the same: none is a zero with a minus
sign. -/
theorem IsNearest.numEq_iff {f : Format} {x y : Binary f} (hx : x.IsNearest m)
    (hy : y.IsNearest n) : x.numEq y = true ↔ x = y := by
  obtain ⟨s, a, rfl⟩ := exists_of_isFinite hx.finite
  obtain ⟨t, b, rfl⟩ := exists_of_isFinite hy.finite
  have hposx := hx.positive a
  have hposy := hy.positive b
  simp only [numEq, Bool.and_eq_true, Bool.or_eq_true, beq_iff_eq]
  constructor
  · rintro ⟨rfl, rfl | hzero⟩
    · rfl
    · cases s <;> cases t <;> simp_all
  · rintro ⟨⟩
    exact ⟨rfl, .inl rfl⟩

end Binary

/-! ## Handing integers over -/

/-- The ways to hand an integer over: as a word, which has 64 places if it is as wide as the
machine; by a source; and in a JSON tree. -/
inductive Handing : Int → Reading Value → Prop where
  | word (w : Word) : Handing w.toInt (pure (.ofWord w))
  | source (w : Word) : Handing w.toInt (Source.word w).read
  | unsigned (n : UInt64) : Handing n.toNat (Json.number (.unsigned n)).toValue
  | negative (n : Int64) : Handing n.toInt (Json.number (.negative n)).toValue

/-- Handing the integer over one way or another gives the value. -/
def Becomes (n : Int) (v : Value) : Prop :=
  ∃ way serial next, Handing n way ∧ way serial = .ok (v, next)

namespace Handing

variable {n : Int} {way : Reading Value}

/-- Every way gives what a source gives that hands over a word. -/
theorem exists_word (h : Handing n way) : ∃ w : Word, w.toInt = n ∧ way = (Source.word w).read := by
  cases h with
  | word w => exact ⟨w, rfl, by rw [Source.read]⟩
  | source w => exact ⟨w, rfl, rfl⟩
  | unsigned n => exact ⟨.uint64 n, rfl, (Source.read_of_spells _ (.unsigned n)).symm⟩
  | negative n => exact ⟨.int64 n, rfl, (Source.read_of_spells _ (.negative n)).symm⟩

/-- **Whichever way an integer is handed over, it becomes the number of the integer.** -/
theorem eq_pure (h : Handing n way) : way = pure (.number (.ofInt n)) := by
  obtain ⟨w, rfl, rfl⟩ := h.exists_word
  rw [Source.read, Value.ofWord, Word.toDouble]

theorem natAbs_le (h : Handing n way) : n.natAbs ≤ 2 ^ (64 : Nat) := by
  obtain ⟨w, rfl, -⟩ := h.exists_word
  exact w.natAbs_toInt_le

end Handing

/-- **There is a way for the integers of 64 places, with or without sign, and for no others.** -/
theorem exists_handing_iff {n : Int} :
    (∃ way, Handing n way) ↔ -(2 ^ (63 : Nat) : Nat) ≤ n ∧ n < (2 ^ (64 : Nat) : Nat) := by
  constructor
  · rintro ⟨way, h⟩
    obtain ⟨w, rfl, -⟩ := h.exists_word
    exact w.toInt_bounds
  · rintro ⟨hlow, hhigh⟩
    obtain ⟨w, rfl⟩ := Word.exists_toInt_eq hlow hhigh
    exact ⟨_, .word w⟩

namespace Becomes

variable {m n : Int} {u v : Value}

theorem natAbs_le (h : Becomes n v) : n.natAbs ≤ 2 ^ (64 : Nat) := by
  obtain ⟨way, serial, next, hway, -⟩ := h
  exact hway.natAbs_le

theorem eq_number (h : Becomes n v) : v = .number (.ofInt n) := by
  obtain ⟨way, serial, next, hway, hread⟩ := h
  rw [hway.eq_pure] at hread
  cases hread
  rfl

theorem isNearest {x : Double} (h : Becomes n (.number x)) : x.IsNearest n := by
  have hx := Value.number.inj h.eq_number
  exact (Binary.isNearest_iff_ofInt_eq h.natAbs_le x).2 hx.symm

/-- A literal accepts a number if it is the same double. -/
theorem accepts_literal_iff (hu : Becomes n u) (hv : Becomes m v) :
    (Validator.literal u).accepts v = true ↔ ∃ x : Double, x.IsNearest n ∧ x.IsNearest m := by
  rw [Validator.accepts_literal]
  obtain rfl := hu.eq_number
  obtain rfl := hv.eq_number
  have hn := hu.isNearest
  have hm := hv.isNearest
  rw [Value.strictEq, hm.numEq_iff hn]
  constructor
  · intro h
    exact ⟨_, hn, h ▸ hm⟩
  · rintro ⟨x, hxn, hxm⟩
    exact (hm.unique (by decide) hxm).trans (hxn.unique (by decide) hn)

end Becomes

/-- Integers become the same correctly rounded number on every way. The integers that can be handed
over are those from `-2 ^ 63` to below `2 ^ 64`. Each way gives a number, and it is the double
nearest to the integer, of two equally near ones the one with the even significand; no other double
is. All ways give it the same bits, and zero has no minus sign. So the number is finite, it is the
integer itself up to `2 ^ 53`, where no two integers have strictly equal numbers, and greater
integers have no smaller numbers. A literal of what became of `n` accepts what became of `m` exactly
if they have one nearest double. -/
structure RoundAlike : Prop where
  handed_iff : ∀ n : Int,
    (∃ way, Handing n way) ↔ -(2 ^ (63 : Nat) : Nat) ≤ n ∧ n < (2 ^ (64 : Nat) : Nat)
  nearest : ∀ (n : Int) (way : Reading Value) (serial : Nat), Handing n way →
    ∃ x : Double, way serial = .ok (.number x, serial) ∧ x.IsNearest n ∧
      ∀ y : Double, y.IsNearest n → y = x
  bits : ∀ (n : Int) (u v : Value), Becomes n u → Becomes n v →
    ∃ (x : Double) (bits : Nat), u = .number x ∧ v = .number x ∧ x.bits? = some bits
  zero : ∀ v : Value, Becomes 0 v → v = .number (.finite false ⟨0, by decide⟩)
  finite : ∀ (n : Int) (x : Double), Becomes n (.number x) → x.isFinite = true
  exact : ∀ (n : Int) (x : Double), n.natAbs ≤ 2 ^ (53 : Nat) → Becomes n (.number x) →
    x.IsInteger n
  injective : ∀ (m n : Int) (u v : Value), m.natAbs ≤ 2 ^ (53 : Nat) →
    n.natAbs ≤ 2 ^ (53 : Nat) → Becomes m u → Becomes n v → u.strictEq v = true → m = n
  monotone : ∀ (m n : Int) (x y : Double), m ≤ n → Becomes m (.number x) →
    Becomes n (.number y) → x.signedUnits ≤ y.signedUnits
  literal : ∀ (m n : Int) (u v : Value), Becomes n u → Becomes m v →
    ((Validator.literal u).accepts v = true ↔ ∃ x : Double, x.IsNearest n ∧ x.IsNearest m)

/-- **Integers become the same correctly rounded number on every way.** -/
theorem integers_round_alike : RoundAlike where
  handed_iff _ := exists_handing_iff
  nearest n way serial h := by
    have hn := Binary.isNearest_iff_ofInt_eq h.natAbs_le
    refine ⟨.ofInt n, ?_, (hn _).2 rfl, fun y hy => ((hn y).1 hy).symm⟩
    rw [h.eq_pure]
    rfl
  bits n u v hu hv := by
    obtain ⟨negative, code, hx⟩ := Binary.exists_of_isFinite (Binary.isFinite_ofInt hu.natAbs_le)
    exact ⟨.ofInt n, _, hu.eq_number, hv.eq_number, congrArg Binary.bits? hx⟩
  zero v h := by
    have hzero : (.finite false ⟨0, by decide⟩ : Double).IsInteger 0 := Binary.isInteger_zero rfl
    rw [h.eq_number, Binary.ofInt_of_isInteger (by decide) hzero]
  finite _ _ h := h.isNearest.finite
  exact n x hn h := by
    rw [Value.number.inj h.eq_number]
    exact Binary.isInteger_ofInt hn
  injective m n u v hm hn hu hv h := by
    obtain rfl := hu.eq_number
    obtain rfl := hv.eq_number
    exact Binary.eq_of_ofInt_eq hm hn ((hu.isNearest.numEq_iff hv.isNearest).1 h)
  monotone m n x y hmn hx hy := by
    rw [Value.number.inj hx.eq_number, Value.number.inj hy.eq_number]
    exact Binary.signedUnits_ofInt_mono hx.natAbs_le hy.natAbs_le hmn
  literal _ _ _ _ hu hv := hu.accepts_literal_iff hv

/-- An integer half way between two doubles, from a JSON tree, and the even one of the two, from a
word. -/
theorem integers_round_alike_halfway :
    Handing 9007199254740993 (Json.number (.unsigned 9007199254740993)).toValue ∧
    ∃ x y : Double, Becomes 9007199254740992 (.number x) ∧ Becomes 9007199254740993 (.number y) ∧
      x.IsInteger 9007199254740992 ∧ x.signedUnits ≤ y.signedUnits ∧
      (Validator.literal (.number x)).accepts (.number y) = true := by
  have hfirst : (Word.int64 9007199254740992).toInt = 9007199254740992 := by decide
  have hsecond : ((9007199254740993 : UInt64).toNat : Int) = 9007199254740993 := by decide
  have hword : Handing 9007199254740992 (Source.word (.int64 9007199254740992)).read :=
    hfirst ▸ .source (.int64 9007199254740992)
  have htree : Handing 9007199254740993 (Json.number (.unsigned 9007199254740993)).toValue :=
    hsecond ▸ .unsigned 9007199254740993
  obtain ⟨x, hx, -, -⟩ := integers_round_alike.nearest _ _ 0 hword
  obtain ⟨y, hy, -, -⟩ := integers_round_alike.nearest _ _ 0 htree
  have hu : Becomes 9007199254740992 (.number x) := ⟨_, 0, 0, hword, hx⟩
  have hv : Becomes 9007199254740993 (.number y) := ⟨_, 0, 0, htree, hy⟩
  refine ⟨htree, x, y, hu, hv, integers_round_alike.exact _ x (by decide) hu,
    integers_round_alike.monotone _ _ x y (by decide) hu hv, ?_⟩
  refine (integers_round_alike.literal _ _ _ _ hu hv).2 ⟨x, hu.isNearest, ?_⟩
  have hround : (Binary.ofInt 9007199254740993 : Double) = .ofInt 9007199254740992 := by
    decide +kernel
  rw [Value.number.inj hu.eq_number, ← hround]
  exact (Binary.isNearest_iff_ofInt_eq (by decide) _).2 rfl

end ShapeCheck
