import VisualNovel.Text.Digits

/-!
Texts as bytes. A sequence of bytes is a text or has a first fault, which is described by its place
and its nature.
-/
namespace VisualNovel.Text.Utf8

inductive FaultKind where
  | startByte
  | continuationByte
  | endOfData
deriving DecidableEq, Repr, Inhabited

def FaultKind.text : FaultKind → String
  | startByte => "invalid start byte"
  | continuationByte => "invalid continuation byte"
  | endOfData => "unexpected end of data"

/-- `length` bytes from `position` on cannot be decoded; the first of them is `byte`. -/
structure Fault where
  position : Nat
  length : Nat
  byte : Nat
  kind : FaultKind
deriving DecidableEq, Repr, Inhabited

def Fault.message (f : Fault) : String :=
  if f.length == 1 then
    s!"'utf-8' codec can't decode byte 0x{paddedHex 2 f.byte} in position {f.position}: " ++
      f.kind.text
  else
    s!"'utf-8' codec can't decode bytes in position {f.position}-{f.position + f.length - 1}: " ++
      f.kind.text

/-- How many bytes follow a first byte, and the bounds of the first of them. -/
def shape? (b : Nat) : Option (Nat × Nat × Nat) :=
  if b < 0x80 then some (0, 0, 0)
  else if 0xC2 ≤ b && b < 0xE0 then some (1, 0x80, 0xBF)
  else if b == 0xE0 then some (2, 0xA0, 0xBF)
  else if b == 0xED then some (2, 0x80, 0x9F)
  else if 0xE1 ≤ b && b < 0xF0 then some (2, 0x80, 0xBF)
  else if b == 0xF0 then some (3, 0x90, 0xBF)
  else if 0xF1 ≤ b && b < 0xF4 then some (3, 0x80, 0xBF)
  else if b == 0xF4 then some (3, 0x80, 0x8F)
  else none

/-- How many of `count` further bytes are good; `low` and `high` bound the first of them. -/
def goodTail (low high : Nat) : Nat → List Nat → Nat
  | 0, _ => 0
  | _, [] => 0
  | count + 1, b :: rest =>
      if low ≤ b && b ≤ high then 1 + goodTail 0x80 0xBF count rest else 0

def firstFault (position : Nat) : Nat → List Nat → Option Fault
  | 0, _ => none
  | _, [] => none
  | fuel + 1, b :: rest =>
      match shape? b with
      | none => some ⟨position, 1, b, .startByte⟩
      | some (count, low, high) =>
          let good := goodTail low high count rest
          if good == count then firstFault (position + 1 + count) fuel (rest.drop count)
          else if good == rest.length then some ⟨position, 1 + good, b, .endOfData⟩
          else some ⟨position, 1 + good, b, .continuationByte⟩

def decode (bytes : ByteArray) : Except Fault String :=
  match String.fromUTF8? bytes with
  | some s => .ok s
  | none =>
      let values := bytes.toList.map (·.toNat)
      .error ((firstFault 0 values.length values).getD default)

/-- Every kind of line end becomes a line feed. -/
def normaliseLineEnds : List Char → List Char
  | [] => []
  | '\r' :: '\n' :: rest => '\n' :: normaliseLineEnds rest
  | '\r' :: rest => '\n' :: normaliseLineEnds rest
  | c :: rest => c :: normaliseLineEnds rest

/-- The text of a text file. -/
def decodeLines (bytes : ByteArray) : Except Fault String :=
  (decode bytes).map fun s => String.ofList (normaliseLineEnds s.toList)

end VisualNovel.Text.Utf8
