import VisualNovel.Data.Yaml.Cursor
import VisualNovel.Text.Digits

/-!
The texts of scalars: plain ones, ones in quotes, and blocks of lines. Every reader starts at the
first character of the scalar and returns the place after it. `fuel` is never smaller than the
number of characters left.
-/
namespace VisualNovel.Data.Yaml

inductive Chomping where
  | clip
  | strip
  | keep
deriving DecidableEq, Repr

def Chomping.ofChar? (c : Char) : Option Chomping :=
  if c == '+' then some keep else if c == '-' then some strip else none

structure BlockHeader where
  chomping : Chomping := .clip
  /-- How much deeper than its parent the block is, where it says so. -/
  indent : Option Nat := none

def takeIndent? (c : Cursor) : Option (Option Nat × Cursor) :=
  match Text.asciiDigit? c.peek with
  | none => some (none, c)
  | some 0 => none
  | some n => some (some n, c.advance)

/-- Chomping and depth in either order, each at most once. -/
def takeBlockHeader? (c : Cursor) : Option (BlockHeader × Cursor) := do
  let (header, c) ← match Chomping.ofChar? c.peek with
    | some chomping => do
        let (indent, c) ← takeIndent? c.advance
        some (({ chomping, indent } : BlockHeader), c)
    | none => do
        let (indent, c) ← takeIndent? c
        match indent, Chomping.ofChar? c.peek with
        | some _, some chomping => some ({ chomping, indent }, c.advance)
        | _, _ => some ({ indent }, c)
  if c.peek == ' ' || endsLine c.peek then some (header, ← c.finishLine?) else none

def Cursor.indentTo (c : Cursor) (column : Nat) : Cursor :=
  c.skip (min (column - c.column) (c.rest.takeWhile (· == ' ')).length)

/-- The ends of empty lines, up to the first line that reaches the column. -/
def takeBlockBreaks (column : Nat) : Nat → Cursor → List Char × Cursor
  | 0, c => ([], c)
  | fuel + 1, c =>
      let c := c.indentTo column
      match c.takeBreak? with
      | some (b, c) =>
          let (bs, c) := takeBlockBreaks column fuel c
          (b :: bs, c)
      | none => ([], c)

/-- The ends of empty lines at the start of a block, and the deepest column reached. -/
def takeLeadingBreaks (deepest : Nat) : Nat → Cursor → List Char × Nat × Cursor
  | 0, c => ([], deepest, c)
  | fuel + 1, c =>
      if c.peek == ' ' then
        let c := c.advance
        takeLeadingBreaks (max deepest c.column) fuel c
      else
        match c.takeBreak? with
        | some (b, c) =>
            let (bs, deepest, c) := takeLeadingBreaks deepest fuel c
            (b :: bs, deepest, c)
        | none => ([], deepest, c)

def Chomping.ending (lineEnd breaks : List Char) : Chomping → List Char
  | clip => lineEnd
  | strip => []
  | keep => lineEnd ++ breaks

/-- The lines of a block from one that starts at its column; `breaks` are the empty lines before
it. Folding joins two lines by a space, unless one of them starts with a space. -/
def takeBlockLines (folded : Bool) (column : Nat) (chomping : Chomping) :
    Nat → List Char → List Char → Cursor → List Char × Cursor
  | 0, read, _, c => (read, c)
  | fuel + 1, read, breaks, c =>
      let startsWithText := !isSpaceOrTab c.peek
      let (line, c) := c.takeWhile (!isBreak ·)
      let (lineEnd, c) : List Char × Cursor := match c.takeBreak? with
        | some (b, c) => ([b], c)
        | none => ([], c)
      let read := read ++ breaks ++ line
      let (breaks, c) := takeBlockBreaks column fuel c
      if c.column == column && !c.atEnd then
        let joint :=
          if folded && lineEnd == ['\n'] && startsWithText && !isSpaceOrTab c.peek then
            if breaks.isEmpty then [' '] else []
          else lineEnd
        takeBlockLines folded column chomping fuel (read ++ joint) breaks c
      else (read ++ chomping.ending lineEnd breaks, c)

/-- A block scalar from its `|` or `>` on; `parent` is the column of the collection around it. -/
def takeBlock? (parent : Int) (c : Cursor) : Option (String × Cursor) := do
  let folded := c.peek == '>'
  let (header, c) ← takeBlockHeader? c.advance
  let least := (parent + 1).toNat.max 1
  let fuel := c.rest.length + 1
  let (breaks, column, c) := match header.indent with
    | some deeper =>
        let column := least + deeper - 1
        let (breaks, c) := takeBlockBreaks column fuel c
        (breaks, column, c)
    | none =>
        let (breaks, deepest, c) := takeLeadingBreaks 0 fuel c
        (breaks, max least deepest, c)
  let (text, c) :=
    if c.column == column && !c.atEnd then
      takeBlockLines folded column header.chomping fuel [] breaks c
    else (header.chomping.ending [] breaks, c)
  return (String.ofList text, c)

/-- The line ends in the middle of a quoted text, with the blanks around them dropped. No document
marker may stand there. -/
def takeQuotedBreaks? : Nat → Cursor → Option (List Char × Cursor)
  | 0, _ => none
  | fuel + 1, c =>
      if c.atMarker then none
      else
        let c := c.skipWhile isSpaceOrTab
        match c.takeBreak? with
        | some (b, c) => (takeQuotedBreaks? fuel c).map fun (bs, c) => (b :: bs, c)
        | none => some ([], c)

/-- A first line end turns into a space, unless more follow it. -/
def foldBreaks (first : Char) (more : List Char) : List Char :=
  if first != '\n' then first :: more else if more.isEmpty then [' '] else more

def takeQuotedGap? (c : Cursor) : Option (List Char × Cursor) :=
  let (blanks, c) := c.takeWhile isSpaceOrTab
  match c.takeBreak? with
  | some (b, c) =>
      (takeQuotedBreaks? (c.rest.length + 1) c).map fun (bs, c) => (foldBreaks b bs, c)
  | none => some (blanks, c)

def escapes : List (Char × Char) :=
  [('0', '\x00'), ('a', '\x07'), ('b', '\x08'), ('t', '\t'), ('\t', '\t'), ('n', '\n'),
    ('v', '\x0b'), ('f', '\x0c'), ('r', '\r'), ('e', '\x1b'), (' ', ' '), ('"', '"'),
    ('\\', '\\'), ('/', '/'), ('N', '\x85'), ('_', '\xa0'), ('L', '\u2028'), ('P', '\u2029')]

def escapeWidth? (c : Char) : Option Nat :=
  if c == 'x' then some 2 else if c == 'u' then some 4 else if c == 'U' then some 8 else none

def takeEscape? (c : Cursor) : Option (List Char × Cursor) :=
  match escapes.lookup c.peek, escapeWidth? c.peek, c.takeBreak? with
  | some e, _, _ => some ([e], c.advance)
  | _, some width, _ => do
      let c := c.advance
      let digits := c.rest.take width
      if digits.length != width then none
      else
        let values ← digits.mapM Text.hexDigit?
        let code := values.foldl (fun n d => n * 16 + d) 0
        if code < 0x110000 then some ([Char.ofNat code], c.skip width) else none
  | _, _, some (_, c) => takeQuotedBreaks? (c.rest.length + 1) c
  | _, _, _ => none

def takeQuoted? (double : Bool) : Nat → List Char → Cursor → Option (String × Cursor)
  | 0, _, _ => none
  | fuel + 1, read, c =>
      let ch := c.peek
      if c.atEnd then none
      else if double && ch == '\\' then do
        let (cs, c) ← takeEscape? c.advance
        takeQuoted? double fuel (read ++ cs) c
      else if !double && ch == '\'' && c.peekAt 1 == '\'' then
        takeQuoted? double fuel (read ++ ['\'']) (c.skip 2)
      else if ch == (if double then '"' else '\'') then some (String.ofList read, c.advance)
      else if isGap ch then do
        let (cs, c) ← takeQuotedGap? c
        takeQuoted? double fuel (read ++ cs) c
      else takeQuoted? double fuel (read ++ [ch]) c.advance

def isFlowMark (c : Char) : Bool := c == ',' || c == '[' || c == ']' || c == '\x7b' || c == '\x7d'

/-- A run without blanks. A colon ends it only before a gap. -/
def plainRun (inFlow : Bool) : List Char → List Char
  | [] => []
  | c :: rest =>
      let next := rest.headD endMark
      if isGap c || (c == ':' && (isGap next || (inFlow && isFlowMark next))) ||
          (inFlow && (isFlowMark c || c == '?')) then []
      else c :: plainRun inFlow rest

/-- Line ends between two lines of a plain text, or nothing where a marker ends the document. -/
def takePlainBreaks : Nat → Cursor → Option (List Char) × Cursor
  | 0, c => (none, c)
  | fuel + 1, c =>
      if c.atMarker then (none, c)
      else
        let c := c.skipWhile (· == ' ')
        match c.takeBreak? with
        | some (b, c) =>
            let (bs, c) := takePlainBreaks fuel c
            (bs.map (b :: ·), c)
        | none => (some [], c)

structure PlainGap where
  /-- What joins the runs around the gap, if anything can follow it. -/
  joint : List Char
  crossesLine : Bool
  cursor : Cursor

def takePlainGap (c : Cursor) : PlainGap :=
  let (blanks, c) := c.takeWhile (· == ' ')
  match c.takeBreak? with
  | none => ⟨blanks, false, c⟩
  | some (b, c) =>
      match takePlainBreaks (c.rest.length + 1) c with
      | (some bs, c) => ⟨foldBreaks b bs, true, c⟩
      | (none, c) => ⟨[], true, c⟩

/-- Plain text, and whether a line end was crossed after its last run. Lines have to be deeper than
`parent`. -/
def takePlain (inFlow : Bool) (parent : Int) :
    Nat → List Char → List Char → Bool → Cursor → String × Bool × Cursor
  | 0, read, _, crossed, c => (String.ofList read, crossed, c)
  | fuel + 1, read, joint, crossed, c =>
      let run := if c.peek == '#' then [] else plainRun inFlow c.rest
      if run.isEmpty then (String.ofList read, crossed, c)
      else
        let gap := takePlainGap (c.skip run.length)
        let read := read ++ joint ++ run
        if gap.joint.isEmpty || gap.cursor.peek == '#' ||
            (!inFlow && (gap.cursor.column : Int) < parent + 1) then
          (String.ofList read, gap.crossesLine, gap.cursor)
        else takePlain inFlow parent fuel read gap.joint gap.crossesLine gap.cursor

end VisualNovel.Data.Yaml
