import ShapeCheck.Number.Binary
/-!
# Decimal numbers

A decimal is `± digits · 10 ^ exponent`. `Decimal.toBinary` rounds it to a binary format, whatever
the size of its exponent, and `Binary.ofText?` reads the decimal texts of a number.
-/
namespace ShapeCheck

/-- The decimal `± digits · 10 ^ exponent`. -/
structure Decimal where
  negative : Bool
  digits : Nat
  exponent : Int
deriving DecidableEq, Repr

/-- The number that a row of decimal digits stands for. -/
def natOfDigits (cs : List Char) : Nat :=
  cs.foldl (fun n c => 10 * n + (c.toNat - '0'.toNat)) 0

namespace Decimal

/-- The decimal written with these digits before and after the point, times `10 ^ exponent`. -/
def ofDigits (negative : Bool) (whole fraction : List Char) (exponent : Int) : Decimal :=
  ⟨negative, natOfDigits (whole ++ fraction), exponent - fraction.length⟩

/-- The nearest number of the format. Powers of ten far outside its range are not computed:
`10 ^ k ≥ 2 ^ (3 * k)` already decides that the answer is infinite, or below half a unit. -/
def toBinary (f : Format) (d : Decimal) : Binary f :=
  match d.exponent with
  | .ofNat k =>
    if d.digits = 0 then .ofCode d.negative 0
    else if 2 ^ f.exponentBits < k then .infinity d.negative
    else .ofRatio d.negative (d.digits * 10 ^ k) 1
  | .negSucc k =>
    if d.digits.log2 + f.unitExponent + 2 < 3 * (k + 1) then .ofCode d.negative 0
    else .ofRatio d.negative d.digits (10 ^ (k + 1))

end Decimal

/-! ## Reading a text

`[sign] digits [. digits] [e [sign] digits]`, with a digit before or after the point, or
`[sign] inf`, `infinity` or `nan`. Letters may be of either case. -/

/-- A sign in front, and what follows it. -/
def splitSign : List Char → Bool × List Char
  | '-' :: cs => (true, cs)
  | '+' :: cs => (false, cs)
  | cs => (false, cs)

/-- The digits in front, and what follows them. -/
def splitDigits (cs : List Char) : List Char × List Char :=
  (cs.takeWhile Char.isDigit, cs.dropWhile Char.isDigit)

/-- The exponent at the end of a number: nothing at all, or `e` and an integer. -/
def exponentOfText? : List Char → Option Int
  | [] => some 0
  | c :: cs =>
    let (negative, cs) := splitSign cs
    let (digits, rest) := splitDigits cs
    if c.toLower = 'e' ∧ digits ≠ [] ∧ rest = [] then
      some (if negative then -natOfDigits digits else natOfDigits digits)
    else none

/-- An unsigned decimal number. -/
def Decimal.ofText? (negative : Bool) (cs : List Char) : Option Decimal :=
  let (whole, rest) := splitDigits cs
  let (fraction, rest) := match rest with
    | '.' :: rest => splitDigits rest
    | rest => ([], rest)
  if whole = [] ∧ fraction = [] then none
  else (exponentOfText? rest).map (.ofDigits negative whole fraction)

/-- The number nearest to what the text says, if it is the text of a number. -/
def Binary.ofText? {f : Format} (text : String) : Option (Binary f) :=
  let (negative, cs) := splitSign text.toList
  let word := String.ofList (cs.map Char.toLower)
  if word = "nan" then some .nan
  else if word = "inf" ∨ word = "infinity" then some (.infinity negative)
  else (Decimal.ofText? negative cs).map (·.toBinary f)

end ShapeCheck
