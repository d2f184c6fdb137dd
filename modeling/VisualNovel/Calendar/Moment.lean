import VisualNovel.Text.Digits

/-!
Dates, times of day and moments of the civil calendar. A moment carries the offset of its clock
from universal time, or none when it only names local time.
-/
namespace VisualNovel.Calendar

structure Date where
  year : Nat
  month : Nat
  day : Nat
deriving DecidableEq, Repr, Inhabited

structure TimeOfDay where
  hour : Nat
  minute : Nat
  second : Nat
  microsecond : Nat
deriving DecidableEq, Repr, Inhabited

structure Moment where
  date : Date
  time : TimeOfDay
  /-- Seconds east of universal time. -/
  offset : Option Int
deriving DecidableEq, Repr, Inhabited

def isLeapYear (year : Nat) : Bool := year % 4 == 0 && (year % 100 != 0 || year % 400 == 0)

def daysInMonth (year month : Nat) : Nat :=
  if month == 2 then if isLeapYear year then 29 else 28
  else if month == 4 || month == 6 || month == 9 || month == 11 then 30
  else 31

/-- Years have four digits and start at 1. -/
def Date.isValid (d : Date) : Bool :=
  1 ≤ d.year && d.year ≤ 9999 && 1 ≤ d.month && d.month ≤ 12 && 1 ≤ d.day &&
    d.day ≤ daysInMonth d.year d.month

def TimeOfDay.isValid (t : TimeOfDay) : Bool :=
  t.hour < 24 && t.minute < 60 && t.second < 60 && t.microsecond < 1000000

/-- The date that lies `days` days after the first of January 1970. -/
def Date.ofDays (days : Int) : Date :=
  let shifted := days + 719468
  let era := shifted.fdiv 146097
  let dayOfEra := (shifted - era * 146097).toNat
  let yearOfEra := (dayOfEra - dayOfEra / 1460 + dayOfEra / 36524 - dayOfEra / 146096) / 365
  let dayOfYear := dayOfEra - (365 * yearOfEra + yearOfEra / 4 - yearOfEra / 100)
  let shiftedMonth := (5 * dayOfYear + 2) / 153
  let day := dayOfYear - (153 * shiftedMonth + 2) / 5 + 1
  let month := if shiftedMonth < 10 then shiftedMonth + 3 else shiftedMonth - 9
  let year := (yearOfEra : Int) + era * 400 + (if month ≤ 2 then 1 else 0)
  ⟨year.toNat, month, day⟩

/-- The moment a number of seconds after the start of 1970, in universal time. -/
def Moment.ofSeconds (seconds : Int) (microsecond : Nat) : Moment :=
  let secondOfDay := (seconds.fmod 86400).toNat
  { date := Date.ofDays (seconds.fdiv 86400)
    time := ⟨secondOfDay / 3600, secondOfDay / 60 % 60, secondOfDay % 60, microsecond⟩
    offset := some 0 }

def Date.text (d : Date) : String :=
  Text.padded 4 d.year ++ "-" ++ Text.padded 2 d.month ++ "-" ++ Text.padded 2 d.day

def TimeOfDay.toSeconds (t : TimeOfDay) : String :=
  Text.padded 2 t.hour ++ ":" ++ Text.padded 2 t.minute ++ ":" ++ Text.padded 2 t.second

/-- Microseconds are written with six digits, or not at all when there are none. -/
def TimeOfDay.text (t : TimeOfDay) : String :=
  t.toSeconds ++ if t.microsecond == 0 then "" else "." ++ Text.padded 6 t.microsecond

def offsetText (seconds : Int) : String :=
  let size := seconds.natAbs
  (if seconds < 0 then "-" else "+") ++ Text.padded 2 (size / 3600) ++ ":" ++
    Text.padded 2 (size / 60 % 60) ++
    if size % 60 == 0 then "" else ":" ++ Text.padded 2 (size % 60)

/-- The stored form: `T` between date and time, and `Z` for universal time. -/
def Moment.stored (m : Moment) : String :=
  m.date.text ++ "T" ++ m.time.text ++
    match m.offset with
    | none => ""
    | some 0 => "Z"
    | some seconds => offsetText seconds

/-- The form shown to people: a space between date and time, and a numeric offset. -/
def Moment.text (m : Moment) : String :=
  m.date.text ++ " " ++ m.time.text ++ (m.offset.map offsetText).getD ""

/-- Date and time down to the second, in the clock's own zone. -/
def Moment.toSecondsText (m : Moment) : String :=
  m.date.text ++ " " ++ m.time.toSeconds

end VisualNovel.Calendar
