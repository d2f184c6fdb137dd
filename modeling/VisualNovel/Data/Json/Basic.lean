import VisualNovel.Data.Value
import VisualNovel.KeyedList
import VisualNovel.Text.Raw

/-!
Documents in JSON, and what they have in common with the values of other data files.
-/
namespace VisualNovel.Data

open Text (RawText)

inductive Json where
  | null
  | bool (b : Bool)
  | int (n : Int)
  | float (x : Float)
  | text (s : RawText)
  | list (items : List Json)
  | object (fields : List (RawText × Json))
deriving Inhabited

namespace Json

/-- Numeric value of a scalar; truth values count as 1 and 0. -/
def whole? : Json → Option Int
  | bool b => some (if b then 1 else 0)
  | int n => some n
  | float x => Decimal.wholeNumber? x
  | _ => none

def fields? : Json → Option (List (RawText × Json))
  | object fields => some fields
  | _ => none

mutual

/-- The value in a document. Where a text has half of a surrogate pair alone, the value has the
replacement character. -/
def toValue : Json → Value
  | null => .null
  | bool b => .bool b
  | int n => .int n
  | float x => .float x
  | text s => .text s.mended
  | list items => .list (toValues items)
  | object fields => .map (toEntries fields)

def toValues : List Json → List Value
  | [] => []
  | item :: rest => toValue item :: toValues rest

def toEntries : List (RawText × Json) → List (Value × Value)
  | [] => []
  | (key, v) :: rest => (.text key.mended, toValue v) :: toEntries rest

end

/-- Numbers without a value get words of their own. -/
def floatStyle : Decimal.FloatStyle :=
  { Decimal.plain with infinity := "Infinity", notANumber := "NaN" }

/-- Keys are texts; other scalars are spelled out as JSON spells them. -/
def keyText : Value → String
  | .text s => s
  | .null => "null"
  | .bool b => if b then "true" else "false"
  | .float x => Decimal.floatText floatStyle x
  | v => v.display

mutual

/-- A value as a document; what JSON has no form for becomes the text it is shown as. -/
def ofValue : Value → Json
  | .null => null
  | .bool b => bool b
  | .int n => int n
  | .float x => float x
  | .list items => list (ofValues items)
  | .map entries => object (ofEntries entries)
  | v => text v.display

def ofValues : List Value → List Json
  | [] => []
  | item :: rest => ofValue item :: ofValues rest

def ofEntries : List (Value × Value) → List (RawText × Json)
  | [] => []
  | (key, v) :: rest => (RawText.ofString (keyText key), ofValue v) :: ofEntries rest

end

end Json

end VisualNovel.Data
