import ShapeCheck.Number.Decimal
/-!
# The shortest decimal of a binary number

Every finite binary number has a finite decimal expansion. Cutting it after `n` digits leaves two
neighbours on the grid of `n`-digit decimals. **The shortest decimal** is the nearer neighbour, on
the coarsest grid where one of them is read back as the number; a tie goes to the larger one.
-/
namespace ShapeCheck

namespace Decimal

/-- How many digits the decimal is written with. -/
def length (d : Decimal) : Nat := (Nat.toDigits 10 d.digits).length

/-- The two neighbours with the last `dropped` digits cut off, the nearer one in front. -/
def neighbours (d : Decimal) (dropped : Nat) : List Decimal :=
  let scale := 10 ^ dropped
  let below : Decimal := ⟨d.negative, d.digits / scale, d.exponent + dropped⟩
  let above : Decimal := { below with digits := below.digits + 1 }
  if 2 * (d.digits % scale) < scale then [below, above] else [above, below]

/-- The same decimal without zeros at the end of its digits. -/
def trim (d : Decimal) : Decimal :=
  if d.digits = 0 then { d with exponent := 0 }
  else if d.digits % 10 = 0 then
    trim { d with digits := d.digits / 10, exponent := d.exponent + 1 }
  else d
termination_by d.digits
decreasing_by omega

end Decimal

namespace Binary

variable {f : Format}

/-- The decimal expansion of a finite number, written out to the end. A number with `k` binary
places has `k` decimal ones: `m · 2 ^ -k = (m · 5 ^ k) · 10 ^ -k`. -/
def expansion (negative : Bool) (code : Fin f.infCode) : Decimal :=
  let places := f.unitExponent - f.shift code
  ⟨negative, f.significand code * 2 ^ (f.shift code - f.unitExponent) * 5 ^ places, -places⟩

/-- The decimal with the fewest digits that is read back as the number, and the nearest of those. -/
def shortest (negative : Bool) (code : Fin f.infCode) : Decimal :=
  let exact := expansion negative code
  let length := exact.length
  let found := (List.range length).findSome? fun n =>
    (exact.neighbours (length - (n + 1))).find? fun d => d.toBinary f = .finite negative code
  (found.getD exact).trim

end Binary

end ShapeCheck
