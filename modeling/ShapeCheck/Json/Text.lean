import ShapeCheck.Json.Basic
import ShapeCheck.Number.Scaled
/-!
# JSON texts

`Json.parse` reads a JSON text. It stops at the first fault from the left, and a fault is one of
two: the text ended where more was needed, or it has a character that cannot stand where it stands.
Each reader takes the characters from a position on and gives back those that it leaves.
-/
namespace ShapeCheck

/-- Why a text is no JSON text. -/
inductive JsonError where
  | endedEarly
  | malformed
deriving DecidableEq, Repr

/-- What was read, and the characters after it. -/
abbrev Rest (α : Type) : Type := α × List Char

namespace Json

/-- The fault where something else was needed than what comes. -/
def unexpected : List Char → JsonError
  | [] => .endedEarly
  | _ :: _ => .malformed

/-- The characters allowed between tokens. -/
def isBlank (c : Char) : Bool := c = ' ' ∨ c = '\t' ∨ c = '\n' ∨ c = '\r'

def skipBlanks (cs : List Char) : List Char := cs.dropWhile isBlank

/-- What follows a word that must come now. -/
def expectWord : List Char → List Char → Except JsonError (List Char)
  | [], cs => .ok cs
  | _ :: _, [] => .error .endedEarly
  | w :: ws, c :: cs => if w = c then expectWord ws cs else .error .malformed

/-! ## Numbers -/

/-- At least one digit. -/
def readDigits (cs : List Char) : Except JsonError (Rest (List Char)) :=
  match splitDigits cs with
  | ([], _) => .error (unexpected cs)
  | (digits, rest) => .ok (digits, rest)

/-- The digits before the point. A zero stands alone. -/
def readWhole : List Char → Except JsonError (Rest (List Char))
  | '0' :: cs =>
    if (splitDigits cs).1 = [] then .ok (['0'], cs) else .error .malformed
  | cs => readDigits cs

/-- The digits after the point, if there is one. -/
def readFraction : List Char → Except JsonError (Rest (List Char))
  | '.' :: cs => readDigits cs
  | cs => .ok ([], cs)

/-- The exponent, if there is one. -/
def readExponent : List Char → Except JsonError (Rest (Option Int))
  | [] => .ok (none, [])
  | c :: cs =>
    if c = 'e' ∨ c = 'E' then do
      let (negative, cs) := splitSign cs
      let (digits, cs) ← readDigits cs
      let n : Int := natOfDigits digits
      return (some (if negative then -n else n), cs)
    else .ok (none, c :: cs)

/-- The double that a decimal is scaled to, if it is finite. -/
def finite? (d : Decimal) : Except JsonError JsonNumber :=
  let x := d.scaled
  if x.isFinite then .ok (.real x) else .error .malformed

/-- The number with these parts. Whole numbers are held as words as long as they fit; zero with a
minus sign does not. -/
def ofParts (negative : Bool) (whole fraction : List Char) (exponent : Option Int) :
    Except JsonError JsonNumber :=
  let n := natOfDigits whole
  let wide := finite? (.ofLeadingDigits negative whole fraction (exponent.getD 0))
  if fraction ≠ [] ∨ exponent.isSome then wide
  else if negative then
    if 0 < n ∧ n ≤ 2 ^ (63 : Nat) then .ok (.negative (.ofInt (-n))) else wide
  else if n < 2 ^ (64 : Nat) then .ok (.unsigned (.ofNat n)) else wide

def readNumber (cs : List Char) : Except JsonError (Rest JsonNumber) := do
  let (negative, cs) := match cs with
    | '-' :: cs => (true, cs)
    | cs => (false, cs)
  let (whole, cs) ← readWhole cs
  let (fraction, cs) ← readFraction cs
  let (exponent, cs) ← readExponent cs
  return (← ofParts negative whole fraction exponent, cs)

/-! ## Strings -/

/-- The character for a letter after a backslash. -/
def unescape? : Char → Option Char
  | '"' => some '"'
  | '\\' => some '\\'
  | '/' => some '/'
  | 'b' => some '\x08'
  | 'f' => some '\x0c'
  | 'n' => some '\n'
  | 'r' => some '\r'
  | 't' => some '\t'
  | _ => none

def hexDigit? (c : Char) : Option Nat :=
  if c.isDigit then some (c.toNat - '0'.toNat)
  else if 'a' ≤ c ∧ c ≤ 'f' then some (c.toNat - 'a'.toNat + 10)
  else if 'A' ≤ c ∧ c ≤ 'F' then some (c.toNat - 'A'.toNat + 10)
  else none

/-- The code unit that four hexadecimal digits name. -/
def codeUnit? (a b c d : Char) : Option Nat := do
  return ((← hexDigit? a) * 16 + (← hexDigit? b)) * 256 + (← hexDigit? c) * 16 + (← hexDigit? d)

/-- Is the code unit the first of a surrogate pair? -/
def isHigh (u : Nat) : Bool := 0xd800 ≤ u ∧ u < 0xdc00

/-- Is the code unit the second of a surrogate pair? -/
def isLow (u : Nat) : Bool := 0xdc00 ≤ u ∧ u < 0xe000

/-- The character of a surrogate pair. -/
def ofPair (high low : Nat) : Char :=
  .ofNat (0x10000 + (high - 0xd800) * 0x400 + (low - 0xdc00))

/-- The fault of an escape with fewer than four characters after it. Four digits would be four
bytes, so the text ended early only if fewer bytes are left. -/
def shortEscape (cs : List Char) : JsonError :=
  if (String.ofList cs).utf8ByteSize < 4 then .endedEarly else .malformed

/-- The fault after the first of a surrogate pair, where the escape of the second was needed. -/
def brokenPair : List Char → JsonError
  | [] => .endedEarly
  | ['\\'] => .endedEarly
  | '\\' :: 'u' :: cs => shortEscape cs
  | _ => .malformed

/-- A character in front of what is read. -/
def consChar (c : Char) (r : Except JsonError (Rest (List Char))) :
    Except JsonError (Rest (List Char)) :=
  r.map fun (cs, rest) => (c :: cs, rest)

/-- The content of a string, from after its opening quote. -/
def readString : List Char → Except JsonError (Rest (List Char))
  | [] => .error .endedEarly
  | '"' :: cs => .ok ([], cs)
  | ['\\'] => .error .endedEarly
  | '\\' :: 'u' :: a :: b :: c :: d :: cs =>
    match codeUnit? a b c d with
    | none => .error .malformed
    | some u =>
      if isLow u then .error .malformed
      else if isHigh u then
        match cs with
        | '\\' :: 'u' :: a :: b :: c :: d :: cs =>
          match codeUnit? a b c d with
          | none => .error .malformed
          | some v =>
            if isLow v then consChar (ofPair u v) (readString cs) else .error .malformed
        | cs => .error (brokenPair cs)
      else consChar (.ofNat u) (readString cs)
  | '\\' :: 'u' :: cs => .error (shortEscape cs)
  | '\\' :: c :: cs =>
    match unescape? c with
    | none => .error .malformed
    | some c => consChar c (readString cs)
  | c :: cs => if c < ' ' then .error .malformed else consChar c (readString cs)

/-! ## Trees -/

/-- One item or more with commas between them, up to the closing bracket. The limit is at least the
number of characters left, and every item takes one or more of them: at zero the text has ended. -/
def readItems {α : Type} (item : List Char → Except JsonError (Rest α)) (close : Char) :
    Nat → List Char → Except JsonError (Rest (List α))
  | 0, _ => .error .endedEarly
  | limit + 1, cs => do
    let (a, cs) ← item cs
    match skipBlanks cs with
    | [] => .error .endedEarly
    | ',' :: cs => do
      let (as, cs) ← readItems item close limit cs
      return (a :: as, cs)
    | c :: cs => if c = close then .ok ([a], cs) else .error .malformed

/-- A key, a colon and a value. -/
def readMember {α : Type} (item : List Char → Except JsonError (Rest α)) (cs : List Char) :
    Except JsonError (Rest (String × α)) := do
  match skipBlanks cs with
  | '"' :: cs => do
    let (key, cs) ← readString cs
    match skipBlanks cs with
    | ':' :: cs => do
      let (a, cs) ← item cs
      return ((.ofList key, a), cs)
    | cs => .error (unexpected cs)
  | cs => .error (unexpected cs)

/-- A tree with at most `room` arrays and objects inside one another. -/
def readTree (room : Nat) (cs : List Char) : Except JsonError (Rest Json) :=
  match skipBlanks cs with
  | [] => .error .endedEarly
  | 'n' :: cs => do return (.null, ← expectWord ['u', 'l', 'l'] cs)
  | 't' :: cs => do return (.bool true, ← expectWord ['r', 'u', 'e'] cs)
  | 'f' :: cs => do return (.bool false, ← expectWord ['a', 'l', 's', 'e'] cs)
  | '"' :: cs => do
    let (s, cs) ← readString cs
    return (.string (.ofList s), cs)
  | '[' :: cs =>
    match room with
    | 0 => .error .malformed
    | room + 1 =>
      match skipBlanks cs with
      | ']' :: cs => .ok (.array [], cs)
      | cs => do
        let (elements, cs) ← readItems (readTree room) ']' cs.length cs
        return (.array elements, cs)
  | '\x7b' :: cs =>
    match room with
    | 0 => .error .malformed
    | room + 1 =>
      match skipBlanks cs with
      | '\x7d' :: cs => .ok (.object [], cs)
      | cs => do
        let (members, cs) ← readItems (readMember (readTree room)) '\x7d' cs.length cs
        return (.object members, cs)
  | c :: cs =>
    if c = '-' ∨ c.isDigit then do
      let (n, cs) ← readNumber (c :: cs)
      return (.number n, cs)
    else .error .malformed

/-- How many arrays and objects may be inside one another. -/
def depthLimit : Nat := 127

/-- The tree of a JSON text, with repeated keys as they are written. -/
def parse (text : String) : Except JsonError Json := do
  let (tree, rest) ← readTree depthLimit text.toList
  if skipBlanks rest = [] then return tree else throw .malformed

end Json

end ShapeCheck
