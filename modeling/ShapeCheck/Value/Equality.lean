import ShapeCheck.Value.Basic
/-!
# Two equalities of values

**Strict** equality compares scalars by content and everything else by identity. **Structural**
equality compares arrays element by element and objects as maps, whatever the order of their
entries. Numbers compare as numbers, so neither is reflexive on `nan`; structural equality is not
even on a container that holds one, where strict equality sees the same container.
-/
namespace ShapeCheck

namespace Value

/-- Equal scalars, or the same array, object or host object: `strict_eq`. -/
def strictEq : Value → Value → Bool
  | .undefined, .undefined => true
  | .null, .null => true
  | .bool a, .bool b => a == b
  | .number x, .number y => x.numEq y
  | .string s, .string t => s == t
  | .array s _, .array t _ => s == t
  | .object s _, .object t _ => s == t
  | .host g, .host h => g.same h
  | _, _ => false

mutual

/-- Equal content: `eq`, which leaves what is no container to `strict_eq`. -/
def eqv : Value → Value → Bool
  | .array _ xs, .array _ ys => eqvElements xs ys
  | .object _ xs, .object _ ys => xs.length == ys.length && eqvEntries xs (Entries.index ys)
  | x, y => strictEq x y

/-- As many elements, and equal ones at each place. -/
def eqvElements : List Value → List Value → Bool
  | [], [] => true
  | x :: xs, y :: ys => eqv x y && eqvElements xs ys
  | _, _ => false

/-- Each entry has an equal value at its key in the table. -/
def eqvEntries : List (String × Value) → Std.HashMap String Value → Bool
  | [], _ => true
  | (key, x) :: xs, table =>
    (match table[key]? with
      | some y => eqv x y
      | none => false) && eqvEntries xs table

end

end Value

end ShapeCheck
