import VisualNovel.Text.Digits

/-!
Texts as they come out of escapes: characters, and halves of surrogate pairs that stand alone. Such
a half is no character and has no bytes, so a text that contains one cannot be written to a file.
-/
namespace VisualNovel.Text

inductive CodePoint where
  | char (c : Char)
  /-- Half of a surrogate pair, counted from the first one. -/
  | surrogate (offset : Fin 0x800)
deriving DecidableEq, Repr

instance : Inhabited CodePoint := ⟨.char default⟩

def CodePoint.char? : CodePoint → Option Char
  | char c => some c
  | surrogate _ => none

/-- The first of the code points that are reserved for halves of pairs. -/
def firstSurrogate : Nat := 0xD800

/-- What a number below the end of the basic plane stands for. -/
def CodePoint.ofUnit (unit : Nat) : CodePoint :=
  if h : firstSurrogate ≤ unit ∧ unit - firstSurrogate < 0x800 then
    surrogate ⟨unit - firstSurrogate, h.2⟩
  else char (Char.ofNat unit)

abbrev RawText := List CodePoint

/-- Why a text has no bytes: the first run of halves in it, from one index to another. -/
structure Unencodable where
  first : Nat
  last : Nat
  offset : Fin 0x800
deriving DecidableEq, Repr, Inhabited

def Unencodable.message (u : Unencodable) : String :=
  if u.first == u.last then
    s!"'utf-8' codec can't encode character '\\u{paddedHex 4 (firstSurrogate + u.offset)}' " ++
      s!"in position {u.first}: surrogates not allowed"
  else
    s!"'utf-8' codec can't encode characters in position {u.first}-{u.last}: " ++
      "surrogates not allowed"

namespace RawText

def ofChars (cs : List Char) : RawText := cs.map .char

def ofString (s : String) : RawText := ofChars s.toList

instance : Coe String RawText := ⟨ofString⟩

/-- The characters up to the first half of a pair. -/
def characters (t : RawText) : List Char :=
  (t.takeWhile fun p => p.char?.isSome).filterMap CodePoint.char?

def surrogates? (t : RawText) : Option Unencodable :=
  let first := t.characters.length
  match t.drop first with
  | .surrogate offset :: rest =>
      some ⟨first, first + (rest.takeWhile fun p => p.char?.isNone).length, offset⟩
  | _ => none

/-- The text as a string, if all of it is characters. -/
def strict (t : RawText) : Except Unencodable String :=
  match t.surrogates? with
  | none => .ok (String.ofList t.characters)
  | some u => .error u

/-- The text with the replacement character for every half that stands alone. -/
def mended (t : RawText) : String := String.ofList (t.map fun p => p.char?.getD '\ufffd')

end RawText

end VisualNovel.Text
