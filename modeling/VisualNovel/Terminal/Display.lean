import VisualNovel.Terminal.Console

/-!
What is shown, as plain text for a terminal without styles: tags are dropped, escaped brackets are
themselves again, and the columns of a table are lined up.
-/
namespace VisualNovel.Terminal

/-- Reads markup with `slashes` backslashes waiting. In front of a tag two of them stand for one,
and an odd one keeps the tag as text. -/
def plainFrom (slashes : Nat) : Nat → List Char → List Char
  | 0, cs => List.replicate slashes '\\' ++ cs
  | _ + 1, [] => List.replicate slashes '\\'
  | fuel + 1, c :: rest =>
      if c == '\\' then plainFrom (slashes + 1) fuel rest
      else
        match Text.leadingTag (c :: rest) with
        | some (tag, after) =>
            List.replicate (slashes / 2) '\\' ++ (if slashes % 2 == 1 then tag else []) ++
              plainFrom 0 fuel after
        | none => List.replicate slashes '\\' ++ c :: plainFrom 0 fuel rest

def plainText (markup : String) : String :=
  String.ofList (plainFrom 0 markup.length markup.toList)

def padTo (width : Nat) (cell : String) : String :=
  cell ++ String.ofList (List.replicate (width - cell.length) ' ')

/-- A cell's lines, one for each line of its row. -/
def cellLines (height : Nat) (cell : String) : List String :=
  let lines := cell.splitOn "\n"
  lines ++ List.replicate (height - lines.length) ""

def rowLines (widths : List Nat) (cells : List String) : List String :=
  let height := (cells.map fun c => (c.splitOn "\n").length).foldl max 1
  let columns := (cells.map (cellLines height)).zip widths
  (List.range height).map fun i =>
    String.intercalate "  " (columns.map fun (lines, width) => padTo width (lines.getD i ""))

def Table.plainLines (t : Table) : List String :=
  let rows := (t.columns :: t.rows).map (·.map plainText)
  let cellWidth (cell : String) : Nat := ((cell.splitOn "\n").map String.length).foldl max 0
  let widths := (List.range t.columns.length).map fun i =>
    (rows.map fun row => cellWidth (row.getD i "")).foldl max 0
  t.title :: rows.flatMap (rowLines widths)

/-- The text of what is shown. A prompt leaves the line open. -/
def Printed.plain : Printed → String
  | .line markup => plainText markup ++ "\n"
  | .table t => String.join (t.plainLines.map (· ++ "\n"))
  | .prompt markup => plainText markup

end VisualNovel.Terminal
