import VisualNovel.Data.Json.Reader

/-!
Writing JSON, on one line or indented. Only quotes, backslashes and control characters are escaped;
every other code point stands for itself.
-/
namespace VisualNovel.Data.Json

open Text (CodePoint RawText)

def escapeChar (c : Char) : List Char :=
  if c == '"' then ['\\', '"']
  else if c == '\\' then ['\\', '\\']
  else if c == '\n' then ['\\', 'n']
  else if c == '\r' then ['\\', 'r']
  else if c == '\t' then ['\\', 't']
  else if c.toNat == 8 then ['\\', 'b']
  else if c.toNat == 12 then ['\\', 'f']
  else if c.toNat < 32 then ("\\u" ++ Text.paddedHex 4 c.toNat).toList
  else [c]

def escape : CodePoint → RawText
  | .char c => .ofChars (escapeChar c)
  | p => [p]

def quote (s : RawText) : RawText := .char '"' :: (s.flatMap escape ++ [.char '"'])

/-- Where the items of a collection stand: on one line, or each on its own line. -/
structure Layout where
  /-- Spaces per level, or none to stay on one line. -/
  indent : Option Nat

def compact : Layout := ⟨none⟩

def indented : Layout := ⟨some 2⟩

def Layout.lineBreak (layout : Layout) (level : Nat) : RawText :=
  match layout.indent with
  | none => []
  | some width => .char '\n' :: List.replicate (width * level) (.char ' ')

def Layout.separator (layout : Layout) (level : Nat) : RawText :=
  .char ',' :: if layout.indent.isSome then layout.lineBreak level else [.char ' ']

def Layout.separated (layout : Layout) (level : Nat) : List RawText → RawText
  | [] => []
  | [item] => item
  | item :: rest => item ++ (layout.separator level ++ layout.separated level rest)

def Layout.collection (layout : Layout) (level : Nat) (opening closing : Char)
    (items : List RawText) : RawText :=
  if items.isEmpty then [.char opening, .char closing]
  else
    .char opening :: (layout.lineBreak (level + 1) ++ (layout.separated (level + 1) items ++
      (layout.lineBreak level ++ [.char closing])))

mutual

def writeAt (layout : Layout) (level : Nat) : Json → RawText
  | .null => "null"
  | .bool b => if b then "true" else "false"
  | .int n => toString n
  | .float x => Decimal.floatText floatStyle x
  | .text s => quote s
  | .list items => layout.collection level '[' ']' (writeItems layout (level + 1) items)
  | .object fields =>
      layout.collection level '\x7b' '\x7d' (writeFields layout (level + 1) fields)

def writeItems (layout : Layout) (level : Nat) : List Json → List RawText
  | [] => []
  | item :: rest => writeAt layout level item :: writeItems layout level rest

def writeFields (layout : Layout) (level : Nat) : List (RawText × Json) → List RawText
  | [] => []
  | (key, v) :: rest =>
      (quote key ++ .char ':' :: .char ' ' :: writeAt layout level v) ::
        writeFields layout level rest

end

def write (layout : Layout) (v : Json) : RawText := writeAt layout 0 v

inductive WriteLimit where
  | digits
  | depth
deriving DecidableEq, Repr, Inhabited

def WriteLimit.message : WriteLimit → String
  | digits =>
      s!"Exceeds the limit ({Text.digitLimit} digits) for integer string conversion; " ++
        "use sys.set_int_max_str_digits() to increase the limit"
  | depth => "maximum recursion depth exceeded while encoding a JSON object"

mutual

/-- What keeps a document from being written, where so many collections can be opened one inside the
other: the first obstacle in its order. -/
def obstacle? (room : Nat) : Json → Option WriteLimit
  | .int n => if isTooLong n then some .digits else none
  | .list items =>
      match room with
      | 0 => some .depth
      | room + 1 => itemsObstacle? room items
  | .object fields =>
      match room with
      | 0 => some .depth
      | room + 1 => fieldsObstacle? room fields
  | _ => none

def itemsObstacle? (room : Nat) : List Json → Option WriteLimit
  | [] => none
  | item :: rest => (obstacle? room item).or (itemsObstacle? room rest)

def fieldsObstacle? (room : Nat) : List (RawText × Json) → Option WriteLimit
  | [] => none
  | (_, v) :: rest => (obstacle? room v).or (fieldsObstacle? room rest)

end

/-- Writes a document on one line, unless it goes beyond a limit. -/
def dump (room : Nat) (v : Json) : Except WriteLimit RawText :=
  match obstacle? room v with
  | none => .ok (write compact v)
  | some limit => .error limit

end VisualNovel.Data.Json
