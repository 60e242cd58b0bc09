/-!
# Binary floating point numbers

A finite number is a sign and a **code**: the bits of its magnitude read as a natural number. Codes
are in the order of the magnitudes they stand for, so rounding to the nearest number is rounding to
the nearest code, and the code after the last finite one is infinity. `Format.units` gives the
magnitude of a code as a whole number of the smallest positive magnitudes, which keeps all
arithmetic in `Nat`.
-/
namespace ShapeCheck

-- Powers of naturals are computed by `Nat.pow` throughout the namespace, whatever else is imported.
attribute [scoped instance (2000)] instPowNat

/-- The widths of a binary floating point format: bits of the significand, its leading one
included, and bits of the exponent. -/
structure Format where
  precision : Nat
  exponentBits : Nat
deriving DecidableEq, Repr

namespace Format

/-- The 32-bit format. -/
def single : Format := ⟨24, 8⟩

/-- The 64-bit format. -/
def double : Format := ⟨53, 11⟩

/-- How many codes share one exponent. -/
def binade (f : Format) : Nat := 2 ^ (f.precision - 1)

/-- The code of infinity: the exponent bits all one. -/
def infCode (f : Format) : Nat := (2 ^ f.exponentBits - 1) * f.binade

/-- The smallest positive magnitude, the **unit**, is `2 ^ (-unitExponent)`. -/
def unitExponent (f : Format) : Nat := 2 ^ (f.exponentBits - 1) + f.precision - 3

/-- The significand of a code: its fraction below a leading one, which the smallest lack. -/
def significand (f : Format) (code : Nat) : Nat :=
  if code / f.binade = 0 then code % f.binade else f.binade + code % f.binade

/-- How many places the significand of a code is shifted up, in units. The smallest numbers and
those of the first full exponent are not shifted. -/
def shift (f : Format) (code : Nat) : Nat := code / f.binade - 1

/-- The magnitude of a code, in units. -/
def units (f : Format) (code : Nat) : Nat := f.significand code * 2 ^ f.shift code

end Format

/-- `num / den` as a whole number: the nearest one, of two equally near the even one. -/
def roundRatio (num den : Nat) : Nat :=
  let whole := num / den
  let rest := num % den
  if 2 * rest < den ∨ (2 * rest = den ∧ whole % 2 = 0) then whole else whole + 1

/-- The code nearest to `num / den` units, of two equally near the even one. The last `dropped`
binary places do not fit the precision; a significand that is rounded up to the next power of two
carries into the exponent by itself. -/
def Format.nearestCode (f : Format) (num den : Nat) : Nat :=
  let dropped := (num / den).log2 + 1 - f.precision
  dropped * f.binade + roundRatio num (den * 2 ^ dropped)

/-- A number of the format. There is one `nan`; a finite number has a sign even when it is zero. -/
inductive Binary (f : Format) where
  | nan
  | infinity (negative : Bool)
  | finite (negative : Bool) (code : Fin f.infCode)
deriving DecidableEq, Repr

abbrev Single : Type := Binary Format.single
abbrev Double : Type := Binary Format.double

namespace Binary

variable {f g : Format}

/-- The number of a code; a code past the last finite one is infinity. -/
def ofCode (negative : Bool) (code : Nat) : Binary f :=
  if h : code < f.infCode then .finite negative ⟨code, h⟩ else .infinity negative

/-- The number nearest to `± num / den`, of two equally near the one with the even code. -/
def ofRatio (negative : Bool) (num den : Nat) : Binary f :=
  ofCode negative (f.nearestCode (num * 2 ^ f.unitExponent) den)

/-- The number nearest to an integer; zero is positive. -/
def ofInt (n : Int) : Binary f :=
  ofRatio (decide (n < 0)) n.natAbs 1

/-- The number of another format nearest to this one. -/
def convert : Binary f → Binary g
  | .nan => .nan
  | .infinity negative => .infinity negative
  | .finite negative code => ofRatio negative (f.units code) (2 ^ f.unitExponent)

/-- Numeric equality: `nan` is equal to nothing, and the two zeros are equal. -/
def numEq : Binary f → Binary f → Bool
  | .infinity s, .infinity t => s == t
  | .finite s a, .finite t b => a == b && (s == t || a.val == 0)
  | _, _ => false

def isNaN : Binary f → Bool
  | .nan => true
  | _ => false

def isFinite : Binary f → Bool
  | .finite _ _ => true
  | _ => false

/-- Greater than zero. -/
def isPositive : Binary f → Bool
  | .nan => false
  | .infinity negative => !negative
  | .finite negative code => !negative && code.val != 0

/-- The bits of the interchange encoding: the sign above the code. A `nan` has no encoding of its
own, since many stand for it. -/
def bits? : Binary f → Option Nat
  | .nan => none
  | .infinity negative => some (signBit negative + f.infCode)
  | .finite negative code => some (signBit negative + code)
where
  signBit (negative : Bool) : Nat :=
    if negative then 2 ^ f.exponentBits * f.binade else 0

end Binary

end ShapeCheck
