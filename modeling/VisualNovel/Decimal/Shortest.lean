import VisualNovel.Decimal.Binary

/-!
The shortest decimal that reads back as a given binary fraction. Decimals with one digit are
tried first, then those with two, and so on; on each grid only the two neighbours of the exact
value can qualify, and of two that do the nearer one is taken. Seventeen digits always suffice.
-/
namespace VisualNovel.Decimal

structure Scaled where
  digits : Nat
  exponent : Int
deriving DecidableEq

/-- The power of ten at or below a positive quotient. -/
def leadingExponent (numerator denominator : Nat) : Int :=
  if denominator ≤ numerator then
    ((toString (numerator / denominator)).length : Int) - 1
  else
    let shift := (toString denominator).length - (toString numerator).length
    if denominator ≤ numerator * Nat.pow 10 shift then -(shift : Int) else -(shift : Int) - 1

/-- The reals that round to one binary fraction, as quarters of its last place: the bounds belong
to the interval when the significand is even. -/
structure Interval where
  low : Nat
  value : Nat
  high : Nat
  closed : Bool
  exponent : Int

/-- Below a power of two the neighbouring fractions lie twice as dense. -/
def Binary.interval (b : Binary) : Interval where
  low := if b.significand == Nat.pow 2 52 && b.exponent != -1074 then 4 * b.significand - 1
    else 4 * b.significand - 2
  value := 4 * b.significand
  high := 4 * b.significand + 2
  closed := b.significand % 2 == 0
  exponent := b.exponent - 2

/-- Quarters of the last place, and grid steps of `10 ^ k`, as multiples of one common unit. -/
def commonUnits (binaryExponent k : Int) : Nat × Nat :=
  (Nat.pow 2 binaryExponent.toNat * Nat.pow 10 (-k).toNat,
    Nat.pow 2 (-binaryExponent).toNat * Nat.pow 10 k.toNat)

/-- The qualifying neighbour on the grid of multiples of `10 ^ k`, if there is one. -/
def Interval.onGrid (i : Interval) (k : Int) : Option Nat :=
  let (quarter, step) := commonUnits i.exponent k
  let value := i.value * quarter
  let inside (n : Nat) : Bool :=
    let x := n * step
    (i.low * quarter < x && x < i.high * quarter) ||
      (i.closed && (x == i.low * quarter || x == i.high * quarter))
  let below := value / step
  let above := below + 1
  match inside below && below != 0, inside above with
  | true, true => some (if above * step - value < value - below * step then above else below)
  | true, false => some below
  | false, true => some above
  | false, false => none

def Interval.search (i : Interval) (lead : Int) : Nat → Nat → Scaled
  | 0, _ => ⟨0, 0⟩
  | left + 1, count =>
      let k := lead - count + 1
      match i.onGrid k with
      | some digits => ⟨digits, k⟩
      | none => i.search lead left (count + 1)

def Scaled.normalise : Nat → Scaled → Scaled
  | 0, s => s
  | fuel + 1, s =>
      if s.digits != 0 && s.digits % 10 == 0 then
        Scaled.normalise fuel ⟨s.digits / 10, s.exponent + 1⟩
      else s

def shortest (b : Binary) : Scaled :=
  if b.significand == 0 then ⟨0, 0⟩
  else
    let (numerator, denominator) := b.quotient
    (b.interval.search (leadingExponent numerator denominator) 17 1).normalise 400

end VisualNovel.Decimal
