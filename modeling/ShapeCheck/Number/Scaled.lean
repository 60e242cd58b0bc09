import ShapeCheck.Number.Decimal
/-!
# Decimals rounded in steps

`Decimal.scaled` turns a decimal into a double by the arithmetic of doubles alone: it rounds the
digits, rounds the power of ten, and multiplies or divides the one by the other, which rounds again.
So the answer can be a neighbour of the nearest double that `Decimal.toBinary` gives: `3 · 10 ^ 23`
is the double below the nearest, and a decimal just below the largest double can become infinite.

`Decimal.ofLeadingDigits` is the decimal that a long row of digits is cut down to before that.
-/
namespace ShapeCheck

namespace Binary

variable {f : Format}

def isZero : Binary f → Bool
  | .finite _ code => code.val == 0
  | _ => false

/-- The product, rounded to nearest. -/
def mul : Binary f → Binary f → Binary f
  | .finite s a, .finite t b =>
    ofRatio (s != t) (f.units a * f.units b) (2 ^ (2 * f.unitExponent))
  | .infinity s, .infinity t => .infinity (s != t)
  | .infinity s, .finite t b => if b.val = 0 then .nan else .infinity (s != t)
  | .finite s a, .infinity t => if a.val = 0 then .nan else .infinity (s != t)
  | .nan, _ => .nan
  | _, .nan => .nan

/-- The quotient, rounded to nearest. -/
def div : Binary f → Binary f → Binary f
  | .finite s a, .finite t b =>
    if b.val ≠ 0 then ofRatio (s != t) (f.units a) (f.units b)
    else if a.val = 0 then .nan
    else .infinity (s != t)
  | .infinity _, .infinity _ => .nan
  | .infinity s, .finite t _ => .infinity (s != t)
  | .finite s _, .infinity t => ofCode (s != t) 0
  | .nan, _ => .nan
  | _, .nan => .nan

end Binary

namespace Decimal

/-! ## Scaling -/

/-- The greatest power of ten that is a finite double is `10 ^ 308`. -/
def greatestPower : Nat := 308

/-- The double nearest to `10 ^ k`. -/
def power (k : Nat) : Double := toBinary .double ⟨false, 1, k⟩

/-- `x` divided that many times by the greatest power. Nothing is left to divide at zero. -/
def lower (x : Double) : Nat → Double
  | 0 => x
  | times + 1 => if x.isZero then x else lower (x.div (power greatestPower)) times

/-- The double of the digits, scaled by the double of the power of ten. Beyond the greatest power
all digits but zero are infinite; below its inverse the division is done in parts. -/
def scaled (d : Decimal) : Double :=
  let x : Double := .ofRatio d.negative d.digits 1
  match d.exponent with
  | .ofNat k =>
    if k ≤ greatestPower then x.mul (power k)
    else if x.isZero then x
    else .infinity d.negative
  | .negSucc k => (lower x (k / greatestPower)).div (power (k % greatestPower + 1))

/-! ## Leading digits -/

/-- The number that `n` grows to with the digits in front, as many as keep it below `2 ^ 64`, and
the digits that are left. -/
def absorb (n : Nat) : List Char → Nat × List Char
  | [] => (n, [])
  | c :: cs =>
    let m := 10 * n + (c.toNat - '0'.toNat)
    if m < 2 ^ (64 : Nat) then absorb m cs else (n, c :: cs)

theorem fst_absorb_lt {n : Nat} (h : n < 2 ^ (64 : Nat)) (cs : List Char) :
    (absorb n cs).1 < 2 ^ (64 : Nat) := by
  induction cs generalizing n with
  | nil => exact h
  | cons c cs ih =>
    unfold absorb
    dsimp only
    split
    · exact ih ‹_›
    · exact h

/-- The decimal written with these digits before and after the point, times `10 ^ exponent`, with
the digits that fit a 64-bit word. A digit that is left out before the point counts as a zero; after
the point it is dropped. -/
def ofLeadingDigits (negative : Bool) (whole fraction : List Char) (exponent : Int) : Decimal :=
  let (n, zeros) := absorb 0 whole
  let (n, dropped) := absorb n fraction
  ⟨negative, n, exponent + zeros.length - (fraction.length - dropped.length : Nat)⟩

theorem digits_ofLeadingDigits_lt (negative : Bool) (whole fraction : List Char) (exponent : Int) :
    (ofLeadingDigits negative whole fraction exponent).digits < 2 ^ (64 : Nat) :=
  fst_absorb_lt (fst_absorb_lt (by decide) whole) fraction

end Decimal

end ShapeCheck
