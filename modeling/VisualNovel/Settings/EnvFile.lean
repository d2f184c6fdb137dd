import VisualNovel.Text.Blank
import VisualNovel.Text.Search

/-!
Files of environment variables: a name and a value on each line, with comments, quotes and
references to other variables. A line that cannot be read is passed over.
-/
namespace VisualNovel.Settings.EnvFile

open Text

def isLineEnd (c : Char) : Bool := c == '\n' || c == '\r'

/-- Blanks inside of a line. -/
def isInnerBlank (c : Char) : Bool := isBlank c && !isLineEnd c

def skipInner (cs : List Char) : List Char := cs.dropWhile isInnerBlank

def skipLine (cs : List Char) : List Char :=
  match cs.dropWhile (!isLineEnd ·) with
  | '\r' :: '\n' :: rest => rest
  | _ :: rest => rest
  | [] => []

def skipExport (cs : List Char) : List Char :=
  match cs with
  | 'e' :: 'x' :: 'p' :: 'o' :: 'r' :: 't' :: rest =>
      if (rest.head?.any isInnerBlank) then skipInner rest else cs
  | _ => cs

/-- The name at the start of a line, in single quotes or bare; a comment has none. A line without a
name is given back from where its reading failed. -/
def takeName : List Char → Except (List Char) (Option String × List Char)
  | '#' :: rest => .ok (none, '#' :: rest)
  | '\'' :: rest =>
      let name := rest.takeWhile (· != '\'')
      match rest.dropWhile (· != '\'') with
      | _ :: after =>
          if name.isEmpty then .error ('\'' :: rest) else .ok (some (String.ofList name), after)
      | [] => .error ('\'' :: rest)
  | cs =>
      let name := cs.takeWhile fun c => c != '=' && c != '#' && !isBlank c
      if name.isEmpty then .error cs else .ok (some (String.ofList name), cs.drop name.length)

/-- Splits at the closing quote. A quote after a backslash is part of the text, unless no other one
closes it. -/
def splitAtQuote (quote : Char) : List Char → Option (List Char × List Char)
  | '\\' :: c :: rest =>
      if c == quote then
        match splitAtQuote quote rest with
        | some (text, after) => some ('\\' :: c :: text, after)
        | none => some (['\\'], rest)
      else (splitAtQuote quote (c :: rest)).map fun (text, after) => ('\\' :: text, after)
  | c :: rest =>
      if c == quote then some ([], rest)
      else (splitAtQuote quote rest).map fun (text, after) => (c :: text, after)
  | [] => none

def escapes (quote : Char) : List (Char × Char) :=
  if quote == '\'' then [('\\', '\\'), ('\'', '\'')]
  else [('\\', '\\'), ('\'', '\''), ('"', '"'), ('a', '\x07'), ('b', '\x08'), ('f', '\x0c'),
    ('n', '\n'), ('r', '\r'), ('t', '\t'), ('v', '\x0b')]

def unescape (quote : Char) : List Char → List Char
  | '\\' :: c :: rest =>
      match (escapes quote).lookup c with
      | some e => e :: unescape quote rest
      | none => '\\' :: unescape quote (c :: rest)
  | c :: rest => c :: unescape quote rest
  | [] => []

/-- Drops a comment with the blanks in front of it. -/
def dropComment : List Char → List Char
  | [] => []
  | c :: rest =>
      if isBlank c && (rest.dropWhile isBlank).head? == some '#' then []
      else c :: dropComment rest

def dropTrailing (cs : List Char) : List Char := (cs.reverse.dropWhile isBlank).reverse

def takeValue (cs : List Char) : Except (List Char) (List Char × List Char) :=
  match cs with
  | [] => .ok ([], [])
  | c :: rest =>
      if c == '\'' || c == '"' then
        match splitAtQuote c rest with
        | some (text, after) => .ok (unescape c text, after)
        | none => .error cs
      else if isLineEnd c then .ok ([], cs)
      else
        .ok (dropTrailing (dropComment (cs.takeWhile (!isLineEnd ·))), cs.dropWhile (!isLineEnd ·))

def finishLine (cs : List Char) : Except (List Char) (List Char) :=
  let afterComment := match skipInner cs with
    | '#' :: rest => rest.dropWhile (!isLineEnd ·)
    | _ => cs
  match skipInner afterComment with
  | [] => .ok []
  | '\r' :: '\n' :: rest => .ok rest
  | c :: rest => if isLineEnd c then .ok rest else .error afterComment

/-- A name, if the line has one, and its value, if it has an equals sign. -/
abbrev Binding := Option String × Option (List Char)

def takeBinding (cs : List Char) : Except (List Char) (Binding × List Char) := do
  let (name, rest) ← takeName (skipExport cs)
  match skipInner rest with
  | '=' :: rest => do
      let (value, rest) ← takeValue (skipInner rest)
      return ((name, some value), ← finishLine rest)
  | rest => return ((name, none), ← finishLine rest)

/-- The lines with a name. Each one takes up a character at least. -/
def bindings : Nat → List Char → List (String × Option (List Char))
  | 0, _ => []
  | fuel + 1, cs =>
      match cs.dropWhile isBlank with
      | [] => []
      | cs =>
          match takeBinding cs with
          | .ok ((some name, value), rest) => (name, value) :: bindings fuel rest
          | .ok ((none, _), rest) => bindings fuel rest
          | .error rest => bindings fuel (skipLine rest)

/-- The inside of a reference to a variable up to its closing brace: a name, and what stands in for
the variable when it is not set. -/
def takeReference? (cs : List Char) : Option (String × String × List Char) :=
  let name := cs.takeWhile fun c => c != '\x7d' && c != ':'
  match cs.drop name.length with
  | '\x7d' :: rest => some (String.ofList name, "", rest)
  | ':' :: '-' :: rest =>
      let standIn := rest.takeWhile (· != '\x7d')
      match rest.drop standIn.length with
      | _ :: rest => some (String.ofList name, String.ofList standIn, rest)
      | [] => none
  | _ => none

/-- A text with its references replaced. `fuel` is never smaller than its length. -/
def expand (find? : String → Option String) : Nat → List Char → List Char
  | 0, cs => cs
  | _, [] => []
  | fuel + 1, c :: rest =>
      match c, rest with
      | '$', '\x7b' :: inside =>
          match takeReference? inside with
          | some (name, standIn, after) =>
              ((find? name).getD standIn).toList ++ expand find? fuel after
          | none => c :: expand find? fuel rest
      | _, _ => c :: expand find? fuel rest

/-- The variables of a file in order. A reference finds variables further up in the file, and those
around it otherwise; a name without a value hides them. -/
def entries (outer? : String → Option String) (text : String) :
    List (String × Option String) :=
  let found := bindings (text.length + 1) text.toList
  found.foldl (fun read (name, value) =>
    let find? (n : String) : Option String :=
      match (read.reverse.lookup n : Option (Option String)) with
      | some value => some (value.getD "")
      | none => outer? n
    read ++ [(name, value.map fun cs => String.ofList (expand find? cs.length cs))]) []

end VisualNovel.Settings.EnvFile
