import VisualNovel.Data.Json.Basic

/-!
Reading JSON. The words `NaN`, `Infinity` and `-Infinity` are numbers; of a repeated key the last
value counts, at the place of the first. Every reader returns what follows the value it has read.

A reader may give up on a text that is no worse than long: whole numbers have a limit of digits, and
collections can be opened one inside the other only as long as there is room on the stack.
-/
namespace VisualNovel.Data.Json

open Text (CodePoint RawText)

inductive Kind where
  | list
  | object
deriving DecidableEq, Repr, Inhabited

inductive ReadLimit where
  | digits (count : Nat)
  | depth (kind : Kind)
deriving DecidableEq, Repr, Inhabited

inductive ReadFailure where
  | malformed
  | beyond (limit : ReadLimit)
deriving DecidableEq, Repr, Inhabited

def isTooLong (n : Int) : Bool := Nat.pow 10 Text.digitLimit ≤ n.natAbs

def Kind.name : Kind → String
  | list => "array"
  | object => "object"

def ReadLimit.message : ReadLimit → String
  | digits count => Text.excessMessage count
  | depth kind =>
      "maximum recursion depth exceeded while decoding a JSON " ++ kind.name ++
        " from a unicode string"

def isSpace (c : Char) : Bool := c == ' ' || c == '\t' || c == '\n' || c == '\r'

def skipSpace (t : RawText) : RawText := t.dropWhile fun p : CodePoint => p.char?.any isSpace

/-- Reads from the characters in front of the first half of a surrogate pair. -/
def onCharacters {α : Type} (take : List Char → Option (α × List Char)) (t : RawText) :
    Option (α × RawText) :=
  (take t.characters).map fun (a, rest) => (a, .ofChars rest ++ t.drop t.characters.length)

def takeUnit (t : RawText) : Option (Nat × RawText) :=
  let digits := t.take 4
  if digits.length == 4 then
    (digits.mapM fun p : CodePoint => p.char?.bind Text.hexDigit?).map fun ds =>
      (ds.foldl (fun n d => n * 16 + d) 0, t.drop 4)
  else none

def takeLowHalf : RawText → Option (Nat × RawText)
  | .char '\\' :: .char 'u' :: rest =>
      (takeUnit rest).filter fun (unit, _) => 0xDC00 ≤ unit && unit < 0xE000
  | _ => none

/-- A code point written as one unit, or as the two halves of a pair. A half that has lost the other
one stands for itself. -/
def takeEscaped (t : RawText) : Option (CodePoint × RawText) := do
  let (unit, rest) ← takeUnit t
  if 0xD800 ≤ unit ∧ unit < 0xDC00 then
    match takeLowHalf rest with
    | some (low, rest') =>
        some (.char (Char.ofNat (0x10000 + (unit - 0xD800) * 0x400 + (low - 0xDC00))), rest')
    | none => some (.ofUnit unit, rest)
  else some (.ofUnit unit, rest)

def simpleEscape? (c : Char) : Option Char :=
  if c == '"' || c == '\\' || c == '/' then some c
  else if c == 'b' then some '\x08'
  else if c == 'f' then some '\x0c'
  else if c == 'n' then some '\n'
  else if c == 'r' then some '\r'
  else if c == 't' then some '\t'
  else none

/-- The text up to the closing quote; `read` holds what came before, the last code point first. -/
def takeText (read : RawText) : Nat → RawText → Option (RawText × RawText)
  | 0, _ => none
  | _ + 1, [] => none
  | fuel + 1, .surrogate offset :: rest => takeText (.surrogate offset :: read) fuel rest
  | fuel + 1, .char c :: rest =>
      if c == '"' then some (read.reverse, rest)
      else if c.toNat < 32 then none
      else if c == '\\' then
        match rest with
        | .char 'u' :: more =>
            match takeEscaped more with
            | some (p, rest') => takeText (p :: read) fuel rest'
            | none => none
        | .char d :: more =>
            match simpleEscape? d with
            | some e => takeText (.char e :: read) fuel more
            | none => none
        | _ => none
      else takeText (.char c :: read) fuel rest

/-- The digits before the point: a lone zero, or digits that start with another one. -/
def takeWhole : List Char → Option (List Char × List Char)
  | '0' :: rest => some (['0'], rest)
  | c :: rest =>
      if Text.isAsciiDigit c then
        some (c :: rest.takeWhile Text.isAsciiDigit, rest.dropWhile Text.isAsciiDigit)
      else none
  | [] => none

def takeFraction : List Char → List Char × List Char
  | '.' :: rest =>
      let digits := rest.takeWhile Text.isAsciiDigit
      if digits.isEmpty then ([], '.' :: rest) else (digits, rest.dropWhile Text.isAsciiDigit)
  | cs => ([], cs)

def takeExponent (cs : List Char) : Option (Int × List Char) :=
  match cs with
  | e :: rest =>
      if e == 'e' || e == 'E' then
        let (negative, digits) := match rest with
          | '-' :: more => (true, more)
          | '+' :: more => (false, more)
          | _ => (false, rest)
        let power := digits.takeWhile Text.isAsciiDigit
        if power.isEmpty then none
        else
          let n : Int := Text.digitsToNat power
          some (if negative then -n else n, digits.dropWhile Text.isAsciiDigit)
      else none
  | [] => none

/-- A number is a float as soon as it has a fraction or an exponent. -/
def takeNumber (cs : List Char) : Option (Json × List Char) := do
  let (negative, cs) := match cs with
    | '-' :: rest => (true, rest)
    | _ => (false, cs)
  let (whole, cs) ← takeWhole cs
  let (fraction, cs) := takeFraction cs
  match takeExponent cs with
  | some (exponent, cs) =>
      some (.float (Decimal.toFloat negative (Text.digitsToNat (whole ++ fraction))
        (exponent - fraction.length)), cs)
  | none =>
      if fraction.isEmpty then
        let n : Int := Text.digitsToNat whole
        some (.int (if negative then -n else n), cs)
      else
        some (.float (Decimal.toFloat negative (Text.digitsToNat (whole ++ fraction))
          (-fraction.length)), cs)

def skipWord (word : String) (cs : List Char) : Option (List Char) :=
  let letters := word.toList
  if letters.isPrefixOf cs then some (cs.drop letters.length) else none

def words : List (String × Json) :=
  [("null", .null), ("true", .bool true), ("false", .bool false),
    ("NaN", .float (0.0 / 0.0)), ("Infinity", .float Decimal.infinity),
    ("-Infinity", .float (-Decimal.infinity))]

def takeWord (cs : List Char) : Option (Json × List Char) :=
  words.findSome? fun (word, value) => (skipWord word cs).map fun rest => (value, rest)

def takeScalar (cs : List Char) : Option (Json × List Char) :=
  (takeWord cs).orElse fun _ => takeNumber cs

def checkDigits : Json → Except ReadFailure Json
  | .int n =>
      if isTooLong n then .error (.beyond (.digits (toString n.natAbs).length)) else .ok (.int n)
  | v => .ok v

def orMalformed {α : Type} : Option α → Except ReadFailure α
  | some a => .ok a
  | none => .error .malformed

-- In the readers below `fuel` is never smaller than the number of code points left, and `room` is
-- how many collections can still be opened.
mutual

def takeValue (fuel room : Nat) (t : RawText) : Except ReadFailure (Json × RawText) :=
  match fuel with
  | 0 => .error .malformed
  | fuel + 1 =>
      match t with
      | .char '"' :: rest => do
          let (s, rest) ← orMalformed (takeText [] fuel rest)
          return (.text s, rest)
      | .char '[' :: rest =>
          match room with
          | 0 => .error (.beyond (.depth .list))
          | room + 1 =>
              match skipSpace rest with
              | .char ']' :: rest' => .ok (.list [], rest')
              | rest' => takeItems fuel room [] rest'
      | .char '\x7b' :: rest =>
          match room with
          | 0 => .error (.beyond (.depth .object))
          | room + 1 =>
              match skipSpace rest with
              | .char '\x7d' :: rest' => .ok (.object [], rest')
              | rest' => takeFields fuel room [] rest'
      | _ => do
          let (v, rest) ← orMalformed (onCharacters takeScalar t)
          return (← checkDigits v, rest)

/-- The items of a list, from one that has to stand there. -/
def takeItems (fuel room : Nat) (read : List Json) (t : RawText) :
    Except ReadFailure (Json × RawText) :=
  match fuel with
  | 0 => .error .malformed
  | fuel + 1 => do
      let (item, rest) ← takeValue fuel room t
      match skipSpace rest with
      | .char ',' :: rest' => takeItems fuel room (item :: read) (skipSpace rest')
      | .char ']' :: rest' => return (.list (item :: read).reverse, rest')
      | _ => throw .malformed

def takeFields (fuel room : Nat) (read : List (RawText × Json)) (t : RawText) :
    Except ReadFailure (Json × RawText) :=
  match fuel, t with
  | fuel + 1, .char '"' :: rest => do
      let (key, rest) ← orMalformed (takeText [] fuel rest)
      let .char ':' :: rest := skipSpace rest | throw .malformed
      let (v, rest) ← takeValue fuel room (skipSpace rest)
      let fields := Entries.put key v read
      match skipSpace rest with
      | .char ',' :: rest' => takeFields fuel room fields (skipSpace rest')
      | .char '\x7d' :: rest' => return (.object fields, rest')
      | _ => throw .malformed
  | _, _ => throw .malformed

end

def read (room : Nat) (t : RawText) : Except ReadFailure Json := do
  let (v, rest) ← takeValue (2 * t.length + 2) room (skipSpace t)
  if (skipSpace rest).isEmpty then return v else throw .malformed

/-- Reads a document where a malformed one counts as none. -/
def read? (room : Nat) (t : RawText) : Except ReadLimit (Option Json) :=
  match read room t with
  | .ok v => .ok (some v)
  | .error .malformed => .ok none
  | .error (.beyond limit) => .error limit

end VisualNovel.Data.Json
