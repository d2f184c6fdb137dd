import VisualNovel.Calendar.Moment
import VisualNovel.Decimal.FloatText

/-!
Reading moments from the texts and numbers under which they are stored.
-/
namespace VisualNovel.Calendar

open Text

/-- The value of exactly `count` plain digits, and the rest. -/
def takeDigits (count : Nat) (cs : List Char) : Option (Nat × List Char) :=
  let digits := cs.take count
  if digits.length == count && digits.all isAsciiDigit then
    some (digitsToNat digits, cs.drop count)
  else none

def skipChar (c : Char) : List Char → Option (List Char)
  | d :: rest => if c == d then some rest else none
  | [] => none

def takeDate (cs : List Char) : Option (Date × List Char) := do
  let (year, cs) ← takeDigits 4 cs
  let cs ← skipChar '-' cs
  let (month, cs) ← takeDigits 2 cs
  let cs ← skipChar '-' cs
  let (day, cs) ← takeDigits 2 cs
  let date : Date := ⟨year, month, day⟩
  if date.isValid then some (date, cs) else none

/-- Six places of a fraction of a second; what is written beyond them is cut off. -/
def microseconds (digits : List Char) : Nat :=
  digitsToNat (digits.take 6 ++ List.replicate (6 - digits.length) '0')

/-- Seconds may be missing; a fraction needs at least one digit. -/
def takeTime (cs : List Char) : Option (TimeOfDay × List Char) := do
  let (hour, cs) ← takeDigits 2 cs
  let cs ← skipChar ':' cs
  let (minute, cs) ← takeDigits 2 cs
  let (second, fraction, cs) ← match cs with
    | ':' :: cs => do
        let (second, cs) ← takeDigits 2 cs
        match cs with
        | c :: rest =>
            if c == '.' || c == ',' then
              let digits := rest.takeWhile isAsciiDigit
              if digits.isEmpty then none
              else some (second, microseconds digits, rest.dropWhile isAsciiDigit)
            else some (second, 0, cs)
        | [] => some (second, 0, cs)
    | _ => some (0, 0, cs)
  let time : TimeOfDay := ⟨hour, minute, second, fraction⟩
  if time.isValid then some (time, cs) else none

/-- The offset at the end of a moment: nothing, `Z`, or hours and minutes after a sign. -/
def offset? : List Char → Option (Option Int)
  | [] => some none
  | ['Z'] => some (some 0)
  | ['z'] => some (some 0)
  | sign :: cs => do
      let negative ← if sign == '+' then some false
        else if sign == '-' || sign == '\u2212' then some true
        else none
      let (hours, cs) ← takeDigits 2 cs
      let cs := match cs with
        | ':' :: rest => rest
        | _ => cs
      let (minutes, cs) ← takeDigits 2 cs
      if cs.isEmpty && hours < 24 && minutes < 60 then
        let seconds : Int := (hours * 60 + minutes : Nat) * 60
        some (some (if negative then -seconds else seconds))
      else none

def separatesTime (c : Char) : Bool := c == 'T' || c == 't' || c == '_' || c == ' '

def Moment.ofText? (cs : List Char) : Option Moment := do
  let (date, cs) ← takeDate cs
  match cs with
  | [] => some ⟨date, ⟨0, 0, 0, 0⟩, none⟩
  | c :: cs =>
      if separatesTime c then
        let (time, cs) ← takeTime cs
        let offset ← offset? cs
        some ⟨date, time, offset⟩
      else none

/-- Numbers beyond this size count milliseconds. -/
def millisecondsAbove : Nat := 20000000000

def Moment.ofStamp? (stamp : Int) (microsecond : Nat) : Option Moment :=
  let (seconds, extra) : Int × Nat :=
    if stamp.natAbs ≤ millisecondsAbove then (stamp, 0)
    else (stamp.fdiv 1000, (stamp.fmod 1000).toNat * 1000)
  let total := microsecond + extra
  let seconds := seconds + (total / 1000000 : Nat)
  if -11676096000 ≤ seconds ∧ seconds ≤ 253402300799 then
    some (Moment.ofSeconds seconds (total % 1000000))
  else none

/-- The largest whole number at or below a finite float, and the part behind the point in
millionths, rounded to the nearest. -/
def floorAndMillionths (x : Float) : Option (Int × Nat) :=
  match Decimal.classify x with
  | .finite negative magnitude =>
      let (numerator, denominator) := magnitude.quotient
      let whole : Nat := numerator / denominator
      let rest := numerator % denominator
      let floor : Int := if negative then
        if rest == 0 then -(whole : Int) else -(whole : Int) - 1
        else whole
      some (floor, (2 * rest * 1000000 + denominator) / (2 * denominator))
  | _ => none

def Moment.ofFloat? (x : Float) : Option Moment :=
  (floorAndMillionths x).bind fun (floor, millionths) => Moment.ofStamp? floor millionths

/-- A time stamp written as a number: a sign, digits, perhaps a point and more digits. -/
def Moment.ofNumeral? (cs : List Char) : Option Moment :=
  let (negative, digits) := match cs with
    | '-' :: rest => (true, rest)
    | '+' :: rest => (false, rest)
    | _ => (false, cs)
  let whole := digits.takeWhile isAsciiDigit
  if whole.isEmpty || Nat.pow 2 63 ≤ digitsToNat whole then none
  else
    match digits.dropWhile isAsciiDigit with
    | [] => Moment.ofStamp? (if negative then -(digitsToNat whole : Int) else digitsToNat whole) 0
    | '.' :: fraction =>
        if fraction.all isAsciiDigit then
          let digits := digitsToNat (whole ++ fraction)
          Moment.ofFloat? (Decimal.toFloat negative digits (-fraction.length))
        else none
    | _ => none

/-- A moment as it may be stored: written out, or as a time stamp. -/
def Moment.read? (s : String) : Option Moment :=
  (Moment.ofText? s.toList).orElse fun _ => Moment.ofNumeral? s.toList

end VisualNovel.Calendar
