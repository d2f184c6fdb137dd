/-!
A floating-point number as an exact binary fraction. Everything that reads or prints numbers works
on the exact value, so that no step depends on how arithmetic happens to round.
-/
namespace VisualNovel.Decimal

/-- The magnitude `significand * 2 ^ exponent` of a finite number. -/
structure Binary where
  significand : Nat
  exponent : Int
deriving DecidableEq

inductive FloatClass where
  | finite (negative : Bool) (magnitude : Binary)
  | infinite (negative : Bool)
  | notANumber
deriving DecidableEq

/-- Splits the 64-bit interchange format: sign, eleven bits of exponent, 52 bits of fraction. -/
def classifyBits (bits : Nat) : FloatClass :=
  let negative := bits / Nat.pow 2 63 % 2 == 1
  let exponent : Nat := bits / Nat.pow 2 52 % 2048
  let fraction : Nat := bits % Nat.pow 2 52
  if exponent == 2047 then
    if fraction == 0 then .infinite negative else .notANumber
  else if exponent == 0 then .finite negative ⟨fraction, -1074⟩
  else .finite negative ⟨Nat.pow 2 52 + fraction, (exponent : Int) - 1075⟩

def classify (x : Float) : FloatClass := classifyBits x.toBits.toNat

def Binary.quotient (b : Binary) : Nat × Nat :=
  if 0 ≤ b.exponent then (b.significand * Nat.pow 2 b.exponent.toNat, 1)
  else (b.significand, Nat.pow 2 (-b.exponent).toNat)

def wholeNumber? (x : Float) : Option Int :=
  match classify x with
  | .finite negative magnitude =>
      let (numerator, denominator) := magnitude.quotient
      if numerator % denominator == 0 then
        let whole := (numerator / denominator : Nat)
        some (if negative then -whole else whole)
      else none
  | _ => none

end VisualNovel.Decimal
