import VisualNovel.Data.Yaml.ScalarText

/-!
Tokens of YAML documents. Nesting by indentation becomes explicit here: a collection gets a token
where it starts and one where it ends. A key without a mark of its own is only known by the colon
after it, so its token goes in front of a token that has been read already.
-/
namespace VisualNovel.Data.Yaml

inductive Directive where
  | version (major : Nat)
  | tagHandle (handle expansion : String)
  | other
deriving DecidableEq, Repr

inductive Token where
  | directive (d : Directive)
  | documentStart
  | documentEnd
  | blockSequenceStart
  | blockMappingStart
  | blockEnd
  | flowSequenceStart
  | flowSequenceEnd
  | flowMappingStart
  | flowMappingEnd
  | blockEntry
  | flowEntry
  | key
  | value
  | alias (name : String)
  | anchor (name : String)
  | tag (handle : Option String) (suffix : String)
  | scalar (text : String) (isPlain : Bool)
deriving DecidableEq, Repr, Inhabited

def takeName? (c : Cursor) : Option (String × Cursor) :=
  let (name, c) := c.takeWhile isNameChar
  if name.isEmpty then none else some (String.ofList name, c)

def takeNumber? (c : Cursor) : Option (Nat × Cursor) := do
  let (digits, c) := c.takeWhile fun d => (Text.asciiDigit? d).isSome
  let n ← Text.digitsNat? Text.asciiDigit? 10 digits
  return (n, c)

def isAddressChar (c : Char) : Bool :=
  isNameChar c || (";/?:@&=+$,.!~*'()[]".toList.contains c)

/-- The bytes of characters written as `%` and two digits each. -/
def takeEncodedBytes? : Nat → Cursor → Option (List UInt8 × Cursor)
  | 0, c => some ([], c)
  | fuel + 1, c =>
      match c.rest with
      | '%' :: high :: low :: _ => do
          let high ← Text.hexDigit? high
          let low ← Text.hexDigit? low
          let (bytes, c) ← takeEncodedBytes? fuel (c.skip 3)
          return (UInt8.ofNat (high * 16 + low) :: bytes, c)
      | '%' :: _ => none
      | _ => some ([], c)

def takeAddress? : Nat → List Char → Cursor → Option (String × Cursor)
  | 0, _, _ => none
  | fuel + 1, read, c =>
      if isAddressChar c.peek then takeAddress? fuel (read ++ [c.peek]) c.advance
      else if c.peek == '%' then do
        let (bytes, c) ← takeEncodedBytes? fuel c
        let text ← String.fromUTF8? ⟨bytes.toArray⟩
        takeAddress? fuel (read ++ text.toList) c
      else if read.isEmpty then none
      else some (String.ofList read, c)

def Cursor.takeAddress? (c : Cursor) : Option (String × Cursor) :=
  Yaml.takeAddress? (c.rest.length + 1) [] c

/-- A handle: an exclamation mark, or a name between two of them. -/
def takeHandle? (c : Cursor) : Option (String × Cursor) :=
  if c.peek != '!' then none
  else if c.peekAt 1 == ' ' then some ("!", c.advance)
  else
    let (name, c) := c.advance.takeWhile isNameChar
    if c.peek == '!' then some ("!" ++ String.ofList name ++ "!", c.advance) else none

def takeTag? (c : Cursor) : Option (Token × Cursor) := do
  let next := c.peekAt 1
  let (token, c) ←
    if next == '<' then do
      let (suffix, c) ← (c.skip 2).takeAddress?
      if c.peek == '>' then some (Token.tag none suffix, c.advance) else none
    else if isGap next then some (Token.tag none "!", c.advance)
    else if (c.advance.rest.takeWhile fun d => d != ' ' && !isBreak d).contains '!' then do
      let (handle, c) ← takeHandle? c
      let (suffix, c) ← c.takeAddress?
      some (Token.tag (some handle) suffix, c)
    else do
      let (suffix, c) ← c.advance.takeAddress?
      some (Token.tag (some "!") suffix, c)
  if c.peek == ' ' || endsLine c.peek then some (token, c) else none

def takeAnchor? (c : Cursor) : Option (String × Cursor) := do
  let (name, c) ← takeName? c.advance
  if isGap c.peek || "?:,]\x7d%@`".toList.contains c.peek then some (name, c) else none

def takeDirective? (c : Cursor) : Option (Token × Cursor) := do
  let (name, c) ← takeName? c.advance
  if !(c.peek == ' ' || endsLine c.peek) then none
  else
    let (directive, c) ←
      if name == "YAML" then do
        let (major, c) ← takeNumber? (c.skipWhile (· == ' '))
        if c.peek != '.' then none
        else
          let (_, c) ← takeNumber? c.advance
          if c.peek == ' ' || endsLine c.peek then some (Directive.version major, c) else none
      else if name == "TAG" then do
        let (handle, c) ← takeHandle? (c.skipWhile (· == ' '))
        if c.peek != ' ' then none
        else
          let (expansion, c) ← (c.skipWhile (· == ' ')).takeAddress?
          if c.peek == ' ' || endsLine c.peek then
            some (Directive.tagHandle handle expansion, c)
          else none
      else some (Directive.other, c.skipWhile (!isBreak ·))
    return (Token.directive directive, ← c.finishLine?)

/-- A token that turns out to be a key if a colon follows it on its line. -/
structure PossibleKey where
  /-- Number of tokens in front of it. -/
  position : Nat
  /-- Whether it stands where only a key can. -/
  isRequired : Bool
  index : Nat
  line : Nat
  column : Nat

structure Lexer where
  cursor : Cursor
  tokens : Array Token := #[]
  /-- Column of the innermost block collection, below zero outside of all. -/
  indent : Int := -1
  outerIndents : List Int := []
  /-- The possible key of the innermost flow collection, and of those around it. -/
  possible : Option PossibleKey := none
  outer : List (Option PossibleKey) := []
  /-- Whether a key may start here without a mark. -/
  keyAllowed : Bool := true

namespace Lexer

def inFlow (l : Lexer) : Bool := !l.outer.isEmpty

def push (l : Lexer) (t : Token) : Lexer := { l with tokens := l.tokens.push t }

def column (l : Lexer) : Int := l.cursor.column

/-- Moves past blanks, comments and line ends. After a line end outside of flow collections a key
may start. -/
def skipGaps : Nat → Lexer → Lexer
  | 0, l => l
  | fuel + 1, l =>
      match l.cursor.skipComment.takeBreak? with
      | some (_, c) => skipGaps fuel { l with cursor := c, keyAllowed := l.keyAllowed || !l.inFlow }
      | none => { l with cursor := l.cursor.skipComment }

def isStale (c : Cursor) (k : PossibleKey) : Bool := k.line != c.line || 1024 < c.index - k.index

/-- A key ends on the line where it starts, and soon. -/
def dropStale? (c : Cursor) : Option PossibleKey → Option (Option PossibleKey)
  | some k => if isStale c k then if k.isRequired then none else some none else some (some k)
  | none => some none

def forgetStaleKeys? (l : Lexer) : Option Lexer := do
  let possible ← dropStale? l.cursor l.possible
  let outer ← l.outer.mapM (dropStale? l.cursor)
  return { l with possible, outer }

/-- Ends the block collections that are deeper than a column. -/
def unwind (column : Int) : List Int → Lexer → Lexer
  | [], l => l
  | outside :: rest, l =>
      if column < l.indent then
        unwind column rest { l.push .blockEnd with indent := outside, outerIndents := rest }
      else l

def unwindTo (l : Lexer) (column : Int) : Lexer :=
  if l.inFlow then l else unwind column l.outerIndents l

/-- Starts a block collection at a column that is deeper than the innermost one, with its token at
the given place. -/
def indentAt (l : Lexer) (column : Int) (start : Token) (position : Nat) : Lexer :=
  if l.indent < column then
    { l with
      indent := column
      outerIndents := l.indent :: l.outerIndents
      tokens := l.tokens.insertIdxIfInBounds position start }
  else l

def indentHere (l : Lexer) (start : Token) : Lexer := l.indentAt l.column start l.tokens.size

def forgetKey? (l : Lexer) : Option Lexer :=
  if l.possible.any (·.isRequired) then none else some { l with possible := none }

/-- Notes that the token about to be read may be a key. -/
def noteKey? (l : Lexer) : Option Lexer := do
  if !l.keyAllowed then return l
  else
    let l ← l.forgetKey?
    return { l with
      possible := some
        { position := l.tokens.size
          isRequired := !l.inFlow && l.indent == l.column
          index := l.cursor.index
          line := l.cursor.line
          column := l.cursor.column } }

def moved (l : Lexer) (n : Nat) : Lexer := { l with cursor := l.cursor.skip n }

def marker? (l : Lexer) (t : Token) : Option Lexer := do
  let l ← (l.unwindTo (-1)).forgetKey?
  return ({ l with keyAllowed := false }.push t).moved 3

def directive? (l : Lexer) : Option Lexer := do
  let l ← (l.unwindTo (-1)).forgetKey?
  let (t, c) ← takeDirective? l.cursor
  return { l with keyAllowed := false, cursor := c }.push t

def flowStart? (l : Lexer) (t : Token) : Option Lexer := do
  let l ← l.noteKey?
  return ({ l with keyAllowed := true, outer := l.possible :: l.outer, possible := none }.push
    t).moved 1

def flowEnd? (l : Lexer) (t : Token) : Option Lexer := do
  let l ← l.forgetKey?
  match l.outer with
  | possible :: outer => return ({ l with keyAllowed := false, possible, outer }.push t).moved 1
  | [] => none

def flowEntry? (l : Lexer) : Option Lexer := do
  let l ← l.forgetKey?
  return ({ l with keyAllowed := true }.push .flowEntry).moved 1

def blockEntry? (l : Lexer) : Option Lexer := do
  if !l.inFlow && !l.keyAllowed then none
  else
    let l := if l.inFlow then l else l.indentHere .blockSequenceStart
    let l ← l.forgetKey?
    return ({ l with keyAllowed := true }.push .blockEntry).moved 1

def key? (l : Lexer) : Option Lexer := do
  if !l.inFlow && !l.keyAllowed then none
  else
    let l := if l.inFlow then l else l.indentHere .blockMappingStart
    let l ← l.forgetKey?
    return ({ l with keyAllowed := !l.inFlow }.push .key).moved 1

/-- A colon turns the possible key in front of it into a key. -/
def value? (l : Lexer) : Option Lexer :=
  match l.possible with
  | some k =>
      let l := { l with
        possible := none
        keyAllowed := false
        tokens := l.tokens.insertIdxIfInBounds k.position .key }
      let l := if l.inFlow then l else l.indentAt k.column .blockMappingStart k.position
      some ((l.push .value).moved 1)
  | none =>
      if l.inFlow then some (({ l with keyAllowed := false }.push .value).moved 1)
      else if l.keyAllowed then
        some (((l.indentHere .blockMappingStart).push .value).moved 1)
      else none

/-- A token that may be a key, read by `take?`. -/
def content? (l : Lexer) (take? : Cursor → Option (Token × Cursor)) : Option Lexer := do
  let l ← l.noteKey?
  let (t, c) ← take? l.cursor
  return { l with keyAllowed := false, cursor := c }.push t

def block? (l : Lexer) : Option Lexer := do
  let l ← l.forgetKey?
  let (text, c) ← takeBlock? l.indent l.cursor
  return { l with keyAllowed := true, cursor := c }.push (.scalar text false)

def quoted? (l : Lexer) (double : Bool) : Option Lexer :=
  l.content? fun c =>
    (takeQuoted? double (c.rest.length + 1) [] c.advance).map fun (text, c) =>
      (.scalar text false, c)

def plain? (l : Lexer) : Option Lexer := do
  let l ← l.noteKey?
  let (text, crossed, c) :=
    takePlain l.inFlow l.indent (l.cursor.rest.length + 1) [] [] false l.cursor
  return { l with keyAllowed := crossed, cursor := c }.push (.scalar text true)

def startsPlain (l : Lexer) : Bool :=
  let c := l.cursor.peek
  let next := l.cursor.peekAt 1
  if isGap c then false
  else if "-?:,[]\x7b\x7d#&*!|>'\"%@`".toList.contains c then
    !isGap next && (c == '-' || (!l.inFlow && (c == '?' || c == ':')))
  else true

def step? (l : Lexer) : Option Lexer :=
  let c := l.cursor
  let ch := c.peek
  let beforeGap := isGap (c.peekAt 1)
  if ch == '%' && c.column == 0 then l.directive?
  else if c.column == 0 && c.atMarker then
    l.marker? (if ch == '-' then .documentStart else .documentEnd)
  else if ch == '[' then l.flowStart? .flowSequenceStart
  else if ch == '\x7b' then l.flowStart? .flowMappingStart
  else if ch == ']' then l.flowEnd? .flowSequenceEnd
  else if ch == '\x7d' then l.flowEnd? .flowMappingEnd
  else if ch == ',' then l.flowEntry?
  else if ch == '-' && beforeGap then l.blockEntry?
  else if ch == '?' && (l.inFlow || beforeGap) then l.key?
  else if ch == ':' && (l.inFlow || beforeGap) then l.value?
  else if ch == '*' then l.content? fun c => (takeAnchor? c).map fun (name, c) => (.alias name, c)
  else if ch == '&' then l.content? fun c => (takeAnchor? c).map fun (name, c) => (.anchor name, c)
  else if ch == '!' then l.content? takeTag?
  else if ch == '|' && !l.inFlow then l.block?
  else if ch == '>' && !l.inFlow then l.block?
  else if ch == '\'' then l.quoted? false
  else if ch == '"' then l.quoted? true
  else if l.startsPlain then l.plain?
  else none

/-- Reads all tokens. Every one takes up a character at least. -/
def run? : Nat → Lexer → Option (Array Token)
  | 0, _ => none
  | fuel + 1, l => do
      let l ← (l.skipGaps (l.cursor.rest.length + 1)).forgetStaleKeys?
      let l := l.unwindTo l.column
      if l.cursor.atEnd then
        let l ← (l.unwindTo (-1)).forgetKey?
        return l.tokens
      else run? fuel (← l.step?)

end Lexer

/-- The tokens of a document. A mark of the byte order is skipped at the very start. -/
def tokens? (text : List Char) : Option (List Token) :=
  if text.all isAllowed then
    let start : Cursor := ⟨text, 0, 0, 0⟩
    let start := if start.peek == '\ufeff' then start.advance else start
    (Lexer.run? (text.length + 1) { cursor := start }).map Array.toList
  else none

end VisualNovel.Data.Yaml
