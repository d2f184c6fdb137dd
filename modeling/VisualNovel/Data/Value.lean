import VisualNovel.Calendar.Moment
import VisualNovel.Decimal.FloatText
import VisualNovel.Text.Quoted

/-!
The values that data files hold: numbers, texts, dates, lists and mappings. Mappings keep the order
of their entries, and their keys may be any scalar.
-/
namespace VisualNovel.Data

open Calendar

inductive Value where
  | null
  | bool (b : Bool)
  | int (n : Int)
  | float (x : Float)
  | text (s : String)
  | date (d : Date)
  | time (t : TimeOfDay)
  | moment (m : Moment)
  | list (items : List Value)
  | map (entries : List (Value × Value))
deriving Inhabited

namespace Value

def kind : Value → String
  | null => "NoneType"
  | bool _ => "bool"
  | int _ => "int"
  | float _ => "float"
  | text _ => "str"
  | date _ => "date"
  | time _ => "time"
  | moment _ => "datetime"
  | list _ => "list"
  | map _ => "dict"

/-- Whether a value counts as a yes: zeros, empty texts and empty collections do not. -/
def isTruthy : Value → Bool
  | null => false
  | bool b => b
  | int n => n != 0
  | float x => x != 0.0
  | text s => !s.isEmpty
  | list items => !items.isEmpty
  | map entries => !entries.isEmpty
  | _ => true

/-- Numeric value of a scalar that takes part in arithmetic; truth values count as 1 and 0. -/
def whole? : Value → Option Int
  | bool b => some (if b then 1 else 0)
  | int n => some n
  | float x => Decimal.wholeNumber? x
  | _ => none

/-- Equality of scalars, by which keys are told apart: numbers are compared by value, whatever
form they are written in. Collections equal nothing. -/
def sameScalar : Value → Value → Bool
  | null, null => true
  | text a, text b => a == b
  | date a, date b => a == b
  | time a, time b => a == b
  | moment a, moment b => a == b
  | float a, float b => a == b
  | a, b =>
      match a.whole?, b.whole? with
      | some m, some n => m == n
      | _, _ => false

/-- Writes an entry into a mapping; a key that is there already keeps its place and spelling. -/
def putEntry (key value : Value) : List (Value × Value) → List (Value × Value)
  | [] => [(key, value)]
  | (k, v) :: rest =>
      if k.sameScalar key then (k, value) :: rest else (k, v) :: putEntry key value rest

def lookup? (key : String) : List (Value × Value) → Option Value
  | [] => none
  | (text k, v) :: rest => if k == key then some v else lookup? key rest
  | _ :: rest => lookup? key rest

def get? (key : String) : Value → Option Value
  | map entries => lookup? key entries
  | _ => none

def commaSeparated (items : List String) : String := String.intercalate ", " items

def clockFields (t : TimeOfDay) : List Nat :=
  [t.hour, t.minute] ++
    if t.microsecond != 0 then [t.second, t.microsecond]
    else if t.second != 0 then [t.second] else []

def dateFields (d : Date) : List Nat := [d.year, d.month, d.day]

def zoneFields : Option Int → List String
  | none => []
  | some 0 => ["tzinfo=datetime.timezone.utc"]
  | some seconds =>
      let days := seconds.fdiv 86400
      let rest := seconds.fmod 86400
      let parts := (if days == 0 then [] else ["days=" ++ toString days]) ++
        ["seconds=" ++ toString rest]
      ["tzinfo=datetime.timezone(datetime.timedelta(" ++ commaSeparated parts ++ "))"]

mutual

/-- The text of a value inside a list or a mapping, where texts stand in quotes. -/
def shown : Value → String
  | null => "None"
  | bool b => if b then "True" else "False"
  | int n => toString n
  | float x => Decimal.floatText Decimal.plain x
  | text s => Text.quoted s
  | date d => "datetime.date(" ++ commaSeparated ((dateFields d).map toString) ++ ")"
  | time t => "datetime.time(" ++ commaSeparated ((clockFields t).map toString) ++ ")"
  | moment m =>
      "datetime.datetime(" ++
        commaSeparated ((dateFields m.date ++ clockFields m.time).map toString ++
          zoneFields m.offset) ++ ")"
  | list items => "[" ++ commaSeparated (shownItems items) ++ "]"
  | map entries => "\x7b" ++ commaSeparated (shownEntries entries) ++ "\x7d"

def shownItems : List Value → List String
  | [] => []
  | item :: rest => shown item :: shownItems rest

def shownEntries : List (Value × Value) → List String
  | [] => []
  | (k, v) :: rest => (shown k ++ ": " ++ shown v) :: shownEntries rest

end

/-- The text of a value on its own. Whole numbers are shown with all their digits, also those beyond
the limit at which a program may refuse to write them. -/
def display : Value → String
  | text s => s
  | date d => d.text
  | time t => t.text
  | moment m => m.text
  | v => v.shown

end Value

end VisualNovel.Data
