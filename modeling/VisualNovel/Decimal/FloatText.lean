import VisualNovel.Decimal.Shortest

/-!
How floating-point numbers are written, and how decimal texts become floating-point numbers.
-/
namespace VisualNovel.Decimal

/-- The choices that fix the written form of a float. -/
structure FloatStyle where
  /-- Leading exponents from here up to the next bound are written positionally. -/
  positionalFrom : Int
  positionalBelow : Int
  exponentDigits : Nat
  infinity : String
  notANumber : String

/-- Positional from `0.0001` up to sixteen places, with `.0` on whole numbers; `1e-05` and `1e+16`
beyond. -/
def plain : FloatStyle where
  positionalFrom := -4
  positionalBelow := 16
  exponentDigits := 2
  infinity := "inf"
  notANumber := "nan"

/-- The digits with the point after the first `places` of them, zeros filling any gap. -/
def positional (digits : List Char) (places : Int) : List Char :=
  if places ≤ 0 then '0' :: '.' :: (List.replicate (-places).toNat '0' ++ digits)
  else
    let whole := places.toNat
    if digits.length ≤ whole then
      digits ++ List.replicate (whole - digits.length) '0' ++ ['.', '0']
    else digits.take whole ++ '.' :: digits.drop whole

def scientific (style : FloatStyle) (digits : List Char) (lead : Int) : List Char :=
  let mantissa := match digits with
    | [] => []
    | [d] => [d]
    | d :: rest => d :: '.' :: rest
  let exponent := (toString lead.natAbs).toList
  mantissa ++ 'e' :: (if lead < 0 then '-' else '+') ::
    (List.replicate (style.exponentDigits - exponent.length) '0' ++ exponent)

def Scaled.text (style : FloatStyle) (s : Scaled) : List Char :=
  let digits := (toString s.digits).toList
  let lead := s.exponent + digits.length - 1
  if style.positionalFrom ≤ lead ∧ lead < style.positionalBelow then positional digits (lead + 1)
  else scientific style digits lead

def floatText (style : FloatStyle) (x : Float) : String :=
  let signed (negative : Bool) (body : String) := if negative then "-" ++ body else body
  match classify x with
  | .notANumber => style.notANumber
  | .infinite negative => signed negative style.infinity
  | .finite negative magnitude =>
      signed negative (String.ofList ((shortest magnitude).text style))

def infinity : Float := 1.0 / 0.0

/-- `digits * 10 ^ exponent` rounded to the nearest float. Magnitudes far outside the range are
settled before any power of ten is formed. -/
def toFloat (negative : Bool) (digits : Nat) (exponent : Int) : Float :=
  let magnitude := ((toString digits).length : Int) + exponent
  let x :=
    if digits == 0 then 0.0
    else if 400 < magnitude then infinity
    else if magnitude < -400 then 0.0
    else if 0 ≤ exponent then Float.ofScientific digits false exponent.toNat
    else Float.ofScientific digits true (-exponent).toNat
  if negative then -x else x

/-- A whole number rounded to the nearest float. -/
def ofInt (n : Int) : Float := toFloat (n < 0) n.natAbs 0

instance instNatCastFloat : NatCast Float := ⟨fun n => ofInt n⟩

end VisualNovel.Decimal
