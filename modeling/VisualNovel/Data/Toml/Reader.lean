import VisualNovel.Data.Toml.Quoted
import VisualNovel.Data.Toml.Scalar
import VisualNovel.Data.Toml.Table

/-!
Reading TOML documents: sections of assignments, each under its header.
-/
namespace VisualNovel.Data.Toml

def skipComment? : List Char → Option (List Char)
  | '#' :: rest =>
      if (rest.takeWhile (· != '\n')).any (isForbidden false) then none
      else some (rest.dropWhile (· != '\n'))
  | cs => some cs

def skipGaps? : Nat → List Char → Option (List Char)
  | 0, cs => some cs
  | fuel + 1, cs =>
      match cs.dropWhile isSpaceOrNewline with
      | '#' :: rest => (skipComment? ('#' :: rest)).bind (skipGaps? fuel)
      | cs => some cs

-- In the readers below `fuel` is never smaller than the number of characters left.
mutual

def takeValue? : Nat → List Char → Option (Value × List Char)
  | 0, _ => none
  | fuel + 1, cs =>
      match cs with
      | '"' :: _ => (takeText? cs).map fun (s, rest) => (.text s, rest)
      | '\'' :: _ => (takeText? cs).map fun (s, rest) => (.text s, rest)
      | 't' :: 'r' :: 'u' :: 'e' :: rest => some (.bool true, rest)
      | 'f' :: 'a' :: 'l' :: 's' :: 'e' :: rest => some (.bool false, rest)
      | '[' :: rest => do
          let (items, rest) ← takeItems? fuel (← skipGaps? fuel rest)
          some (.list items, rest)
      | '\x7b' :: rest =>
          match skipSpace rest with
          | '\x7d' :: rest => some (.map [], rest)
          | rest => do
              let (entries, rest) ← takeInline? fuel [] rest
              some (.map (entryValues entries), rest)
      | _ => takeScalar? cs

/-- The items of a list; a comma may follow the last one. -/
def takeItems? : Nat → List Char → Option (List Value × List Char)
  | 0, _ => none
  | fuel + 1, cs =>
      match cs with
      | ']' :: rest => some ([], rest)
      | _ => do
          let (item, rest) ← takeValue? fuel cs
          match ← skipGaps? fuel rest with
          | ']' :: rest => some ([item], rest)
          | ',' :: rest => do
              let (items, rest) ← takeItems? fuel (← skipGaps? fuel rest)
              some (item :: items, rest)
          | _ => none

/-- The entries of a table on one line; no comma follows the last one. -/
def takeInline? : Nat → Table → List Char → Option (Table × List Char)
  | 0, _, _ => none
  | fuel + 1, entries, cs => do
      let (key, v, rest) ← takeAssignment? fuel cs
      let entries ← Table.assign? 0 v key entries
      match skipSpace rest with
      | '\x7d' :: rest => some (entries, rest)
      | ',' :: rest => takeInline? fuel entries (skipSpace rest)
      | _ => none

def takeAssignment? : Nat → List Char → Option (List String × Value × List Char)
  | 0, _ => none
  | fuel + 1, cs => do
      let (key, rest) ← takeKey? fuel cs
      match rest with
      | '=' :: rest => do
          let (v, rest) ← takeValue? fuel (skipSpace rest)
          some (key, v, rest)
      | _ => none

end

/-- A document up to some line: the root table, the section that is open, and its path. -/
structure Draft where
  root : Table := []
  number : Nat := 0
  path : List String := []

def Draft.startSection? (d : Draft) (path : List String)
    (change : String → Table → Option Table) : Option Draft := do
  let root ← Table.openAt? (change (path.getLastD "")) path.dropLast d.root
  return { root, number := d.number + 1, path }

def Draft.statement? (d : Draft) (fuel : Nat) (cs : List Char) : Option (Draft × List Char) :=
  match cs with
  | '[' :: '[' :: rest => do
      let (key, rest) ← takeKey? fuel (skipSpace rest)
      match rest with
      | ']' :: ']' :: rest => return (← d.startSection? key Table.append?, rest)
      | _ => none
  | '[' :: rest => do
      let (key, rest) ← takeKey? fuel (skipSpace rest)
      match rest with
      | ']' :: rest => return (← d.startSection? key (Table.declare? (d.number + 1)), rest)
      | _ => none
  | c :: _ =>
      if startsKey c then do
        let (key, v, rest) ← takeAssignment? fuel cs
        let root ← Table.openAt? (Table.assign? d.number v key) d.path d.root
        return ({ d with root }, rest)
      else some (d, cs)
  | [] => some (d, [])

/-- The lines of a document. `fuel` is never smaller than the number of characters left. -/
def Draft.lines? : Nat → Draft → List Char → Option Draft
  | 0, d, cs => if cs.isEmpty then some d else none
  | fuel + 1, d, cs => do
      let (d, rest) ← d.statement? (fuel + 1) (skipSpace cs)
      match ← skipComment? (skipSpace rest) with
      | [] => some d
      | '\n' :: rest => Draft.lines? fuel d rest
      | _ => none

/-- A carriage return counts only as part of a line end. -/
def joinLineEnds : List Char → List Char
  | '\r' :: '\n' :: rest => '\n' :: joinLineEnds rest
  | c :: rest => c :: joinLineEnds rest
  | [] => []

def read? (s : String) : Option (List (Value × Value)) :=
  let cs := joinLineEnds s.toList
  (Draft.lines? (2 * cs.length + 4) {} cs).map fun d => entryValues d.root

end VisualNovel.Data.Toml
