import ShapeCheck.Number.Shortest
/-!
# Texts of a number

A number is written with its shortest digits, in one of two layouts. **Positional** writes the
digits around a point and fills up with zeros; **scientific** writes one digit before the point and
an exponent. A `NumberStyle` says which magnitudes are positional. `Binary.plain` is the text that a
number has as a key: positional at any size. `Binary.literal` is the text that shows a number to a
reader: it always has a fraction or an exponent.
-/
namespace ShapeCheck

/-- How numbers are written. -/
structure NumberStyle where
  /-- Is a number positional whose first digit counts `10 ^ exponent`? -/
  positional : Int → Bool
  /-- Do positional whole numbers end in `.0`? -/
  pointZero : Bool

/-- Keys: positional always, and whole numbers without a point. -/
def NumberStyle.plain : NumberStyle := ⟨fun _ => true, false⟩

/-- Shown numbers: positional from `10 ^ -4` to below `10 ^ 16`, with at least one digit after the
point. -/
def NumberStyle.literal : NumberStyle := ⟨fun exponent => -4 ≤ exponent ∧ exponent < 16, true⟩

namespace Decimal

/-- The exponent of the first digit. -/
def leadingExponent (d : Decimal) : Int := d.exponent + d.length - 1

/-- The digits around the point, filled up with zeros. -/
def positional (pointZero : Bool) (d : Decimal) : List Char :=
  let digits := Nat.toDigits 10 d.digits
  match d.exponent with
  | .ofNat k => digits ++ List.replicate k '0' ++ (if pointZero then ['.', '0'] else [])
  | .negSucc k =>
    let places := k + 1
    let padded := List.replicate (places + 1 - digits.length) '0' ++ digits
    padded.take (padded.length - places) ++ '.' :: padded.drop (padded.length - places)

/-- One digit, the others after a point, and the exponent. -/
def scientific (d : Decimal) : List Char :=
  let mantissa := match Nat.toDigits 10 d.digits with
    | first :: second :: rest => first :: '.' :: second :: rest
    | digits => digits
  mantissa ++ 'e' :: (toString d.leadingExponent).toList

/-- The text of a decimal in a style. -/
def write (style : NumberStyle) (d : Decimal) : List Char :=
  (if d.negative then ['-'] else []) ++
    if d.digits = 0 ∨ style.positional d.leadingExponent then d.positional style.pointZero
    else d.scientific

end Decimal

namespace Binary

variable {f : Format}

/-- The text of a number in a style. -/
def write (style : NumberStyle) : Binary f → List Char
  | .nan => ['N', 'a', 'N']
  | .infinity negative => (if negative then ['-'] else []) ++ ['i', 'n', 'f']
  | .finite negative code => (shortest negative code).write style

/-- The text of a number as a key: `1`, `-0`, `1.5`, `0.0000001`, never an exponent. -/
def plain (x : Binary f) : String := .ofList (x.write .plain)

/-- The text that shows a number: `1.0`, `-0.0`, `0.0001`, `1e16`, `1.5e-7`. -/
def literal (x : Binary f) : String := .ofList (x.write .literal)

end Binary

end ShapeCheck
