import VisualNovel.Calendar.Reading
import VisualNovel.Data.Value
import VisualNovel.Text.Blank
import VisualNovel.Text.Casing

/-!
Lenient conversions: a field that holds a number, a truth value or a moment also takes values that
stand for one without loss, such as a text that spells it out.
-/
namespace VisualNovel.Data.Lenient

def isSpace (c : Char) : Bool := Text.isBlank c && !(28 ≤ c.toNat && c.toNat ≤ 31)

def trimSpace (cs : List Char) : List Char :=
  ((cs.dropWhile isSpace).reverse.dropWhile isSpace).reverse

/-- Skips zeros at the front, among which underscores may stand, and keeps one digit at least. -/
def dropLeadingZeros : List Char → Option (List Char)
  | '0' :: rest =>
      let body := rest.dropWhile fun c => c == '0' || c == '_'
      match body with
      | [] => some [rest.getLastD '0']
      | '.' :: _ => some ('0' :: body)
      | c :: _ => if '1' ≤ c ∧ c ≤ '9' then some body else none
  | c :: rest => if ('1' ≤ c ∧ c ≤ '9') ∨ c = '-' then some (c :: rest) else none
  | [] => none

def dropZeroFraction (cs : List Char) : List Char :=
  match cs.dropWhile (· != '.') with
  | '.' :: zeros => if zeros.all (· == '0') then cs.takeWhile (· != '.') else cs
  | _ => cs

def hasDoubleUnderscore : List Char → Bool
  | '_' :: '_' :: _ => true
  | _ :: rest => hasDoubleUnderscore rest
  | [] => false

def dropGrouping (cs : List Char) : Option (List Char) :=
  if hasDoubleUnderscore cs || cs.getLast? == some '_' then none
  else some (cs.filter (· != '_'))

def plainDigits (cs : List Char) : Option Nat :=
  if cs.isEmpty then none
  else (cs.mapM Text.asciiDigit?).map fun ds => ds.foldl (fun n d => n * 10 + d) 0

def wholeOfText? (s : String) : Option Int := do
  let cs := trimSpace s.toList
  let cs ← match cs with
    | '+' :: '-' :: _ => none
    | '+' :: rest => some rest
    | _ => some cs
  let cs ← dropLeadingZeros cs
  let cs ← dropGrouping (dropZeroFraction cs)
  match cs with
  | '-' :: digits => (plainDigits digits).map fun n => -(n : Int)
  | digits => (plainDigits digits).map fun n => (n : Int)

/-- Floats count as whole numbers below this size. -/
def floatLimit : Nat := Nat.pow 2 63

def whole? : Value → Option Int
  | .text s => wholeOfText? s
  | .float x => (Decimal.wholeNumber? x).filter (·.natAbs < floatLimit)
  | v => v.whole?

def text? : Value → Option String
  | .text s => some s
  | _ => none

def trueWords : List String := ["1", "t", "true", "y", "yes", "on"]

def falseWords : List String := ["0", "f", "false", "n", "no", "off"]

def truth? : Value → Option Bool
  | .text s =>
      let word := Text.lower s
      if trueWords.contains word then some true
      else if falseWords.contains word then some false
      else none
  | .bool b => some b
  | v =>
      match v.whole? with
      | some 0 => some false
      | some 1 => some true
      | _ => none

def moment? : Value → Option Calendar.Moment
  | .text s => Calendar.Moment.read? s
  | .int n => Calendar.Moment.ofStamp? n 0
  | .float x => Calendar.Moment.ofFloat? x
  | .moment m => some m
  | .date d => some ⟨d, ⟨0, 0, 0, 0⟩, none⟩
  | _ => none

end VisualNovel.Data.Lenient
