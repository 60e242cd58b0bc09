import ShapeCheck.Number.Binary
/-!
# Machine words

Integers come in eight widths, signed and unsigned. As a number, a word is rounded to the nearest
double, whatever its width.
-/
namespace ShapeCheck

inductive Word where
  | int8 (n : Int8)
  | int16 (n : Int16)
  | int32 (n : Int32)
  | int64 (n : Int64)
  | uint8 (n : UInt8)
  | uint16 (n : UInt16)
  | uint32 (n : UInt32)
  | uint64 (n : UInt64)
deriving DecidableEq, Repr

namespace Word

/-- The integer that a word holds. -/
def toInt : Word → Int
  | .int8 n => n.toInt
  | .int16 n => n.toInt
  | .int32 n => n.toInt
  | .int64 n => n.toInt
  | .uint8 n => n.toNat
  | .uint16 n => n.toNat
  | .uint32 n => n.toNat
  | .uint64 n => n.toNat

/-- The double nearest to a word. -/
def toDouble (w : Word) : Double := .ofInt w.toInt

end Word

end ShapeCheck
