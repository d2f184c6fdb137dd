import VisualNovel.Text.Digits

/-!
Quoted texts and keys of TOML. Every reader returns what follows; `fuel` is never smaller than the
number of characters left.
-/
namespace VisualNovel.Data.Toml

def isSpace (c : Char) : Bool := c == ' ' || c == '\t'

def isSpaceOrNewline (c : Char) : Bool := isSpace c || c == '\n'

def skipSpace (cs : List Char) : List Char := cs.dropWhile isSpace

def isForbidden (multiline : Bool) (c : Char) : Bool :=
  (c.toNat < 32 && c != '\t' && !(multiline && c == '\n')) || c.toNat == 127

def simpleEscape? (c : Char) : Option Char :=
  [('b', '\x08'), ('t', '\t'), ('n', '\n'), ('f', '\x0c'), ('r', '\r'), ('"', '"'),
    ('\\', '\\')].lookup c

/-- A character given by its number. Surrogates are none. -/
def takeCode? (width : Nat) (cs : List Char) : Option (Char × List Char) := do
  let digits := cs.take width
  if digits.length != width then none
  else
    let values ← digits.mapM Text.hexDigit?
    let code := values.foldl (fun n d => n * 16 + d) 0
    if code < 0xD800 || (0xE000 ≤ code && code < 0x110000) then
      some (Char.ofNat code, cs.drop width)
    else none

/-- What stands after a backslash. In a text over several lines it also removes a line end and the
blanks after it. -/
def takeEscape? (multiline : Bool) : List Char → Option (List Char × List Char)
  | [] => none
  | 'u' :: rest => (takeCode? 4 rest).map fun (c, rest) => ([c], rest)
  | 'U' :: rest => (takeCode? 8 rest).map fun (c, rest) => ([c], rest)
  | c :: rest =>
      if multiline && isSpaceOrNewline c then
        match skipSpace (c :: rest) with
        | [] => some ([], [])
        | '\n' :: rest => some ([], rest.dropWhile isSpaceOrNewline)
        | _ => none
      else (simpleEscape? c).map fun e => ([e], rest)

def takeBasic? (multiline : Bool) : Nat → List Char → List Char → Option (String × List Char)
  | 0, _, _ => none
  | _, _, [] => none
  | fuel + 1, read, c :: rest =>
      if c == '"' then
        if !multiline then some (String.ofList read.reverse, rest)
        else
          match rest with
          | '"' :: '"' :: rest => some (String.ofList read.reverse, rest)
          | _ => takeBasic? multiline fuel (c :: read) rest
      else if c == '\\' then do
        let (cs, rest) ← takeEscape? multiline rest
        takeBasic? multiline fuel (cs.reverse ++ read) rest
      else if isForbidden multiline c then none
      else takeBasic? multiline fuel (c :: read) rest

def takeLiteral? (cs : List Char) : Option (String × List Char) :=
  let text := cs.takeWhile (· != '\'')
  match cs.dropWhile (· != '\'') with
  | _ :: rest => if text.any (isForbidden false) then none else some (String.ofList text, rest)
  | [] => none

/-- A literal over several lines; `read` holds what came before, the last character first. -/
def takeLongLiteral? (read : List Char) : List Char → Option (String × List Char)
  | '\'' :: '\'' :: '\'' :: rest => some (String.ofList read.reverse, rest)
  | c :: rest => if isForbidden true c then none else takeLongLiteral? (c :: read) rest
  | [] => none

/-- Up to two quotes right after the closing ones belong to the text. -/
def takeExtraQuotes (quote : Char) (text : String) : List Char → String × List Char
  | a :: b :: rest =>
      if a == quote then
        if b == quote then (text ++ String.ofList [a, b], rest)
        else (text ++ a.toString, b :: rest)
      else (text, a :: b :: rest)
  | [a] => if a == quote then (text ++ a.toString, []) else (text, [a])
  | [] => (text, [])

/-- A line end right after the opening quotes is no part of the text. -/
def skipFirstNewline : List Char → List Char
  | '\n' :: rest => rest
  | cs => cs

def takeText? : List Char → Option (String × List Char)
  | '"' :: '"' :: '"' :: rest =>
      let rest := skipFirstNewline rest
      (takeBasic? true (rest.length + 1) [] rest).map fun (text, rest) =>
        takeExtraQuotes '"' text rest
  | '"' :: rest => takeBasic? false (rest.length + 1) [] rest
  | '\'' :: '\'' :: '\'' :: rest =>
      (takeLongLiteral? [] (skipFirstNewline rest)).map fun (text, rest) =>
        takeExtraQuotes '\'' text rest
  | '\'' :: rest => takeLiteral? rest
  | _ => none

def isBareKeyChar (c : Char) : Bool := c.isAlphanum || c == '-' || c == '_'

def startsKey (c : Char) : Bool := isBareKeyChar c || c == '"' || c == '\''

def takeKeyPart? : List Char → Option (String × List Char)
  | '"' :: rest => takeBasic? false (rest.length + 1) [] rest
  | '\'' :: rest => takeLiteral? rest
  | cs =>
      let part := cs.takeWhile isBareKeyChar
      if part.isEmpty then none else some (String.ofList part, cs.dropWhile isBareKeyChar)

def takeKey? : Nat → List Char → Option (List String × List Char)
  | 0, _ => none
  | fuel + 1, cs => do
      let (part, rest) ← takeKeyPart? cs
      match skipSpace rest with
      | '.' :: rest => do
          let (parts, rest) ← takeKey? fuel (skipSpace rest)
          some (part :: parts, rest)
      | rest => some ([part], rest)

end VisualNovel.Data.Toml
