import VisualNovel.Calendar.Reading
import VisualNovel.Data.Value
import VisualNovel.Text.Casing
import VisualNovel.Text.Search

/-!
What the text of a scalar stands for: by its form where no tag says it, and by its tag otherwise.
-/
namespace VisualNovel.Data.Yaml

inductive Tag where
  | null
  | bool
  | int
  | float
  | timestamp
  | merge
  | value
  | text
  | sequence
  | mapping
  | unknown
deriving DecidableEq, Repr, Inhabited

inductive Fault where
  | malformed
  /-- A scalar that does not fit its tag. -/
  | badScalar (reason : String)
deriving DecidableEq, Repr, Inhabited

namespace Scalar

def isDigitOrUnderscore (c : Char) : Bool := Text.isAsciiDigit c || c == '_'

def trueWords : List String := ["yes", "true", "on"]

def falseWords : List String := ["no", "false", "off"]

/-- A word in small letters, in capitals, or with a capital first. -/
def spellings (word : String) : List String :=
  [word, word.capitalize, String.ofList (word.toList.map Char.toUpper)]

def truth? (s : String) : Option Bool :=
  if (trueWords.flatMap spellings).contains s then some true
  else if (falseWords.flatMap spellings).contains s then some false
  else none

def isNull (s : String) : Bool := s == "" || s == "~" || (spellings "null").contains s

def sign : List Char → Bool × List Char
  | '-' :: rest => (true, rest)
  | '+' :: rest => (false, rest)
  | cs => (false, cs)

def isUnsigned (cs : List Char) : Bool := !(cs.head? == some '-' || cs.head? == some '+')

/-- Digits below sixty in a place after the first of a sexagesimal number. -/
def isSixtieth : List Char → Bool
  | [d] => Text.isAsciiDigit d
  | [t, d] => '0' ≤ t && t ≤ '5' && Text.isAsciiDigit d
  | _ => false

/-- Hours, minutes and the like, cut at the colons; there are two places at least. -/
def sixtieths? (isFirst : List Char → Bool) (cs : List Char) : Option (List (List Char)) :=
  match Text.splitWhere (· == ':') cs with
  | first :: second :: more =>
      if isFirst first && (second :: more).all isSixtieth then some (first :: second :: more)
      else none
  | _ => none

def isCount (cs : List Char) : Bool :=
  cs.head?.any (fun c => '1' ≤ c && c ≤ '9') && cs.all isDigitOrUnderscore

def isIntForm (cs : List Char) : Bool :=
  match (sign cs).2 with
  | ['0'] => true
  | '0' :: 'b' :: c :: rest => (c :: rest).all fun d => d == '0' || d == '1' || d == '_'
  | '0' :: 'x' :: c :: rest => (c :: rest).all fun d => (Text.hexDigit? d).isSome || d == '_'
  | '0' :: c :: rest => (c :: rest).all fun d => ('0' ≤ d && d ≤ '7') || d == '_'
  | body => isCount body || (sixtieths? isCount body).isSome

def isExponent : List Char → Bool
  | [] => true
  | e :: s :: d :: rest =>
      (e == 'e' || e == 'E') && (s == '-' || s == '+') && (d :: rest).all Text.isAsciiDigit
  | _ => false

def isInfinityWord (cs : List Char) : Bool :=
  ["inf", "Inf", "INF"].any fun w => cs == '.' :: w.toList

def isNotANumberWord (cs : List Char) : Bool :=
  ["nan", "NaN", "NAN"].any fun w => cs == '.' :: w.toList

def startsWithDigit (cs : List Char) : Bool := cs.head?.any Text.isAsciiDigit

def isPointForm (cs : List Char) : Bool :=
  startsWithDigit cs &&
    match cs.dropWhile isDigitOrUnderscore with
    | '.' :: rest => isExponent (rest.dropWhile isDigitOrUnderscore)
    | _ => false

def isLeadingPointForm : List Char → Bool
  | '.' :: rest => startsWithDigit rest && isExponent (rest.dropWhile isDigitOrUnderscore)
  | _ => false

def isSexagesimalPointForm (cs : List Char) : Bool :=
  match cs.dropWhile (· != '.') with
  | '.' :: rest =>
      rest.all isDigitOrUnderscore &&
        (sixtieths? (fun first => startsWithDigit first && first.all isDigitOrUnderscore)
          (cs.takeWhile (· != '.'))).isSome
  | _ => false

def isFloatForm (cs : List Char) : Bool :=
  let body := (sign cs).2
  isPointForm body || isSexagesimalPointForm body || isInfinityWord body ||
    (isUnsigned cs && (isLeadingPointForm cs || isNotANumberWord cs))

def takeOneOrTwo? (cs : List Char) : Option (Nat × List Char) :=
  let digits := (cs.take 2).takeWhile Text.isAsciiDigit
  if digits.isEmpty then none
  else some (Text.digitsToNat digits, cs.drop digits.length)

structure Stamp where
  date : Calendar.Date
  time : Option Calendar.TimeOfDay
  offset : Option Int

def takeOffset? : List Char → Option (Option Int)
  | [] => some none
  | ['Z'] => some (some 0)
  | s :: cs =>
      if s == '-' || s == '+' then do
        let (hours, cs) ← takeOneOrTwo? cs
        let minutes ← match cs with
          | [] => some 0
          | _ => do
              let (minutes, cs) ← Calendar.takeDigits 2 (← Calendar.skipChar ':' cs)
              if cs.isEmpty then some minutes else none
        let seconds : Int := (hours * 60 + minutes : Nat) * 60
        some (some (if s == '-' then -seconds else seconds))
      else none

def isBlankChar (c : Char) : Bool := c == ' ' || c == '\t'

/-- Blanks, or the letter `T`, between date and time. -/
def skipDivision? : List Char → Option (List Char)
  | c :: rest =>
      if c == 'T' || c == 't' then some rest
      else if isBlankChar c then some (rest.dropWhile isBlankChar)
      else none
  | [] => none

/-- Reads the form of a date or a moment, whose numbers may still be out of range. A date on its
own needs two digits for month and day. -/
def stamp? (cs : List Char) : Option Stamp := do
  let year := cs.take 4
  if !(year.length == 4 && year.all Text.isAsciiDigit) then none
  else
    let year := Text.digitsToNat year
    let (month, rest) ← takeOneOrTwo? (← Calendar.skipChar '-' (cs.drop 4))
    let (day, rest) ← takeOneOrTwo? (← Calendar.skipChar '-' rest)
    let date : Calendar.Date := ⟨year, month, day⟩
    if rest.isEmpty then
      if cs.length == 10 then some ⟨date, none, none⟩ else none
    else
      let (hour, rest) ← takeOneOrTwo? (← skipDivision? rest)
      let (minute, rest) ← Calendar.takeDigits 2 (← Calendar.skipChar ':' rest)
      let (second, rest) ← Calendar.takeDigits 2 (← Calendar.skipChar ':' rest)
      let (fraction, rest) := match rest with
        | '.' :: more => (more.takeWhile Text.isAsciiDigit, more.dropWhile Text.isAsciiDigit)
        | _ => ([], rest)
      let offset ← takeOffset? (rest.dropWhile isBlankChar)
      if offset.isNone && !rest.isEmpty then none
      else some ⟨date, some ⟨hour, minute, second, Calendar.microseconds fraction⟩, offset⟩

def Stamp.fault? (s : Stamp) : Option String :=
  let d := s.date
  if d.year == 0 then some "year 0 is out of range"
  else if d.month == 0 || 12 < d.month then some "month must be in 1..12"
  else if d.day == 0 || Calendar.daysInMonth d.year d.month < d.day then
    some "day is out of range for month"
  else
    match s.time with
    | none => none
    | some t =>
        if 24 ≤ t.hour then some "hour must be in 0..23"
        else if 60 ≤ t.minute then some "minute must be in 0..59"
        else if 60 ≤ t.second then some "second must be in 0..59"
        else none

/-- The tag of a scalar without one. -/
def impliedTag (s : String) : Tag :=
  let cs := s.toList
  if (truth? s).isSome then .bool
  else if isFloatForm cs then .float
  else if isIntForm cs then .int
  else if s == "<<" then .merge
  else if isNull s then .null
  else if (stamp? cs).isSome then .timestamp
  else if s == "=" then .value
  else .text

def digitsIn (base : Nat) (cs : List Char) : Except Fault Nat :=
  let digit? (c : Char) := (Text.hexDigit? c).filter (· < base)
  match Text.digitsNat? digit? base cs with
  | some n => .ok n
  | none =>
      .error (.badScalar
        s!"invalid literal for int() with base {base}: {Text.quoted (String.ofList cs)}")

def int (s : String) : Except Fault Int := do
  let (negative, cs) := sign (s.toList.filter (· != '_'))
  let size : Nat ← match cs with
    | [] => .error .malformed
    | ['0'] => .ok 0
    | '0' :: 'b' :: digits => digitsIn 2 digits
    | '0' :: 'x' :: digits => digitsIn 16 digits
    | '0' :: _ => digitsIn 8 cs
    | _ => do
        let places ← (Text.splitWhere (· == ':') cs).mapM (digitsIn 10)
        .ok (places.foldl (fun total place => total * 60 + place) 0)
  return if negative then -(size : Int) else size

def decimal? (cs : List Char) : Option Float :=
  let whole := cs.takeWhile Text.isAsciiDigit
  let (fraction, rest) := match cs.dropWhile Text.isAsciiDigit with
    | '.' :: rest => (rest.takeWhile Text.isAsciiDigit, rest.dropWhile Text.isAsciiDigit)
    | rest => ([], rest)
  let exponent? : Option Int := match rest with
    | [] => some 0
    | e :: rest =>
        let (negative, digits) := sign rest
        if (e == 'e' || e == 'E') && !digits.isEmpty && digits.all Text.isAsciiDigit then
          some (if negative then -(Text.digitsToNat digits : Int) else Text.digitsToNat digits)
        else none
  if whole.isEmpty && fraction.isEmpty then none
  else exponent?.map fun exponent =>
    Decimal.toFloat false (Text.digitsToNat (whole ++ fraction)) (exponent - fraction.length)

def float (s : String) : Except Fault Float := do
  let (negative, cs) := sign ((s.toList.filter (· != '_')).map Char.toLower)
  let size : Float ←
    if isInfinityWord cs then .ok Decimal.infinity
    else if isNotANumberWord cs then .ok (0.0 / 0.0)
    else
      let places := Text.splitWhere (· == ':') cs
      match places.mapM decimal? with
      | none =>
          .error (.badScalar
            s!"could not convert string to float: {Text.quoted (String.ofList cs)}")
      | some [x] => .ok x
      | some xs =>
          .ok (xs.reverse.foldl (fun (total, base) x => (total + x * base, base * 60.0))
            ((0.0, 1.0) : Float × Float)).1
  return if negative then -size else size

def moment (s : String) : Except Fault Value :=
  match stamp? s.toList with
  | none => .error .malformed
  | some stamp =>
      match stamp.fault?, stamp.time with
      | some reason, _ => .error (.badScalar reason)
      | none, none => .ok (.date stamp.date)
      | none, some time => .ok (.moment ⟨stamp.date, time, stamp.offset⟩)

def value : Tag → String → Except Fault Value
  | .null, _ => .ok .null
  | .bool, s =>
      match truth? (Text.lower s) with
      | some b => .ok (.bool b)
      | none => .error .malformed
  | .int, s => (int s).map .int
  | .float, s => (float s).map .float
  | .timestamp, s => moment s
  | .text, s => .ok (.text s)
  | _, _ => .error .malformed

end Scalar

end VisualNovel.Data.Yaml
