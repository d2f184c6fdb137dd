import VisualNovel.Calendar.Reading
import VisualNovel.Data.Value

/-!
Numbers, dates and times of TOML. Every reader takes the longest piece that has the form and
returns what follows it.
-/
namespace VisualNovel.Data.Toml

/-- The digits of a base, with single underscores between them, and what follows. -/
def takeDigits (isDigit : Char → Bool) : List Char → List Char × List Char
  | '_' :: c :: rest =>
      if isDigit c then
        let (digits, rest) := takeDigits isDigit rest
        (c :: digits, rest)
      else ([], '_' :: c :: rest)
  | c :: rest =>
      if isDigit c then
        let (digits, rest) := takeDigits isDigit rest
        (c :: digits, rest)
      else ([], c :: rest)
  | [] => ([], [])

def takeDigits? (isDigit : Char → Bool) : List Char → Option (List Char × List Char)
  | c :: rest => if isDigit c then some (takeDigits isDigit (c :: rest)) else none
  | [] => none

def isDigitIn (base : Nat) (c : Char) : Bool := (Text.hexDigit? c).any (· < base)

def base? (c : Char) : Option Nat :=
  if c == 'x' then some 16 else if c == 'o' then some 8 else if c == 'b' then some 2 else none

def takeBased? : List Char → Option (Value × List Char)
  | '0' :: letter :: rest => do
      let base ← base? letter
      let (digits, rest) ← takeDigits? (isDigitIn base) rest
      let values ← digits.mapM Text.hexDigit?
      some (.int (values.foldl (fun n d => n * base + d) 0 : Nat), rest)
  | _ => none

def takeSign : List Char → Bool × List Char
  | '-' :: rest => (true, rest)
  | '+' :: rest => (false, rest)
  | cs => (false, cs)

/-- The digits before the point: a lone zero, or digits that start with another one. -/
def takeWhole? : List Char → Option (List Char × List Char)
  | '0' :: rest => some (['0'], rest)
  | cs => takeDigits? Text.isAsciiDigit cs

def takeFraction : List Char → List Char × List Char
  | '.' :: rest => (takeDigits? Text.isAsciiDigit rest).getD ([], '.' :: rest)
  | cs => ([], cs)

def takeExponent : List Char → Option Int × List Char
  | [] => (none, [])
  | e :: rest =>
      if e == 'e' || e == 'E' then
        let (negative, digits) := takeSign rest
        match takeDigits? Text.isAsciiDigit digits with
        | some (digits, after) =>
            let n : Int := Text.digitsToNat digits
            (some (if negative then -n else n), after)
        | none => (none, e :: rest)
      else (none, e :: rest)

/-- A number is a float as soon as it has a fraction or an exponent. -/
def takeDecimal? (cs : List Char) : Option (Value × List Char) := do
  let (negative, cs) := takeSign cs
  let (whole, cs) ← takeWhole? cs
  let (fraction, cs) := takeFraction cs
  let (exponent, cs) := takeExponent cs
  if fraction.isEmpty && exponent.isNone then
    let n : Int := Text.digitsToNat whole
    some (.int (if negative then -n else n), cs)
  else
    some (.float (Decimal.toFloat negative (Text.digitsToNat (whole ++ fraction))
      (exponent.getD 0 - fraction.length)), cs)

def takeSpecial? (cs : List Char) : Option (Value × List Char) :=
  let (negative, rest) := takeSign cs
  match rest with
  | 'i' :: 'n' :: 'f' :: rest =>
      some (.float (if negative then -Decimal.infinity else Decimal.infinity), rest)
  | 'n' :: 'a' :: 'n' :: rest => some (.float (0.0 / 0.0), rest)
  | _ => none

def takeTime? (cs : List Char) : Option (Calendar.TimeOfDay × List Char) := do
  let (hour, cs) ← Calendar.takeDigits 2 cs
  let (minute, cs) ← Calendar.takeDigits 2 (← Calendar.skipChar ':' cs)
  let (second, cs) ← Calendar.takeDigits 2 (← Calendar.skipChar ':' cs)
  let (fraction, cs) := match cs with
    | '.' :: rest =>
        let digits := rest.takeWhile Text.isAsciiDigit
        if digits.isEmpty then ([], cs) else (digits, rest.dropWhile Text.isAsciiDigit)
    | _ => ([], cs)
  let time : Calendar.TimeOfDay := ⟨hour, minute, second, Calendar.microseconds fraction⟩
  if time.isValid then some (time, cs) else none

def takeOffset (cs : List Char) : Option Int × List Char :=
  let offset? : Option (Int × List Char) := do
    let (hours, rest) ← Calendar.takeDigits 2 (cs.drop 1)
    let (minutes, rest) ← Calendar.takeDigits 2 (← Calendar.skipChar ':' rest)
    let seconds : Int := (hours * 60 + minutes : Nat) * 60
    if 24 ≤ hours || 60 ≤ minutes then none
    else if cs.head? == some '+' then some (seconds, rest)
    else if cs.head? == some '-' then some (-seconds, rest)
    else none
  match cs, offset? with
  | 'Z' :: rest, _ => (some 0, rest)
  | 'z' :: rest, _ => (some 0, rest)
  | _, some (offset, rest) => (some offset, rest)
  | _, none => (none, cs)

/-- A date, with a time of day if one follows it. A date that no calendar has is refused. -/
def takeMoment? (cs : List Char) : Option (Option (Value × List Char)) := do
  let (year, rest) ← Calendar.takeDigits 4 cs
  let (month, rest) ← Calendar.takeDigits 2 (← Calendar.skipChar '-' rest)
  let (day, rest) ← Calendar.takeDigits 2 (← Calendar.skipChar '-' rest)
  if month == 0 || 12 < month || day == 0 || 31 < day then none
  else
    let date : Calendar.Date := ⟨year, month, day⟩
    let timed : Option (Calendar.TimeOfDay × List Char) := match rest with
      | c :: after => if c == 'T' || c == 't' || c == ' ' then takeTime? after else none
      | [] => none
    if !date.isValid then some none
    else
      match timed with
      | none => some (some (.date date, rest))
      | some (time, rest) =>
          let (offset, rest) := takeOffset rest
          some (some (.moment ⟨date, time, offset⟩, rest))

def takeScalar? (cs : List Char) : Option (Value × List Char) :=
  match takeMoment? cs with
  | some answer => answer
  | none =>
      ((takeTime? cs).map fun (t, rest) => (Value.time t, rest))
        |>.orElse fun _ => takeBased? cs
        |>.orElse fun _ => takeDecimal? cs
        |>.orElse fun _ => takeSpecial? cs

end VisualNovel.Data.Toml
