import VisualNovel.Decimal.FloatText

/-!
Numbers as documents write them: whole numbers of any size, and floating-point numbers. A number
keeps the form it was written in, so `1` and `1.0` print differently and still compare as equal.
-/
namespace VisualNovel

/-- A float is kept as its bits, which makes equality of numbers decidable. -/
inductive Number where
  | whole (n : Int)
  | float (bits : UInt64)
deriving DecidableEq, Repr, Inhabited

namespace Number

def ofFloat (x : Float) : Number := .float x.toBits

def toFloat : Number → Float
  | .whole n => Decimal.ofInt n
  | .float bits => Float.ofBits bits

def text : Number → String
  | .whole n => toString n
  | .float bits => Decimal.floatText Decimal.plain (Float.ofBits bits)

/-- Equality of values: `1`, `1.0` and `-0.0`, `0.0` are equal pairs, and no NaN equals itself. -/
def same : Number → Number → Bool
  | .whole m, .whole n => m == n
  | .whole m, .float bits => Decimal.wholeNumber? (Float.ofBits bits) == some m
  | .float bits, .whole m => Decimal.wholeNumber? (Float.ofBits bits) == some m
  | .float a, .float b => Float.ofBits a == Float.ofBits b

def inUnitInterval : Number → Bool
  | .whole n => n == 0 || n == 1
  | .float bits => 0.0 ≤ Float.ofBits bits && Float.ofBits bits ≤ 1.0

end Number

end VisualNovel
