/-!
A place in a YAML document, and the classes of characters that divide it. The column decides how
deep a line is nested, and the line whether a key is still on one line with its colon.
-/
namespace VisualNovel.Data.Yaml

def isBreak (c : Char) : Bool :=
  c == '\n' || c == '\r' || c == '\x85' || c == '\u2028' || c == '\u2029'

def isSpaceOrTab (c : Char) : Bool := c == ' ' || c == '\t'

/-- Stands for the end of the document, which no document contains. -/
def endMark : Char := '\x00'

def isGap (c : Char) : Bool := isSpaceOrTab c || isBreak c || c == endMark

def endsLine (c : Char) : Bool := isBreak c || c == endMark

def isAllowed (c : Char) : Bool :=
  let n := c.toNat
  n == 9 || n == 10 || n == 13 || (0x20 ≤ n && n ≤ 0x7E) || n == 0x85 ||
    (0xA0 ≤ n && n ≤ 0xFFFD) || 0x10000 ≤ n

def isNameChar (c : Char) : Bool := c.isAlphanum || c == '-' || c == '_'

structure Cursor where
  rest : List Char
  line : Nat := 0
  column : Nat := 0
  index : Nat := 0
deriving Inhabited

namespace Cursor

def peek (c : Cursor) : Char := c.rest.headD endMark

def peekAt (c : Cursor) (n : Nat) : Char := (c.rest.drop n).headD endMark

def atEnd (c : Cursor) : Bool := c.rest.isEmpty

/-- A carriage return before a line feed does not end the line by itself. -/
def advance (c : Cursor) : Cursor :=
  match c.rest with
  | [] => c
  | ch :: rest =>
      let c := { c with rest, index := c.index + 1 }
      if isBreak ch && !(ch == '\r' && rest.head? == some '\n') then
        { c with line := c.line + 1, column := 0 }
      else if ch == '\ufeff' then c
      else { c with column := c.column + 1 }

def skip (c : Cursor) : Nat → Cursor
  | 0 => c
  | n + 1 => c.advance.skip n

def takeWhile (c : Cursor) (p : Char → Bool) : List Char × Cursor :=
  let run := c.rest.takeWhile p
  (run, c.skip run.length)

def skipWhile (c : Cursor) (p : Char → Bool) : Cursor := (c.takeWhile p).2

def takeBreak? (c : Cursor) : Option (Char × Cursor) :=
  match c.rest with
  | '\r' :: '\n' :: _ => some ('\n', c.skip 2)
  | ch :: _ =>
      if ch == '\u2028' || ch == '\u2029' then some (ch, c.advance)
      else if isBreak ch then some ('\n', c.advance)
      else none
  | [] => none

def atMarker (c : Cursor) : Bool :=
  (['-', '-', '-'].isPrefixOf c.rest || ['.', '.', '.'].isPrefixOf c.rest) && isGap (c.peekAt 3)

def skipComment (c : Cursor) : Cursor :=
  let c := c.skipWhile (· == ' ')
  if c.peek == '#' then c.skipWhile (!isBreak ·) else c

/-- Nothing but spaces and a comment may stand before the end of the line. -/
def finishLine? (c : Cursor) : Option Cursor :=
  let c := c.skipComment
  if c.atEnd then some c else c.takeBreak?.map (·.2)

end Cursor

end VisualNovel.Data.Yaml
