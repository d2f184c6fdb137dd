import VisualNovel.Text.Markup

/-!
What a terminal shows: lines of marked-up text, tables, and prompts. Text that is not markup itself
is escaped where it is put into a line or a cell.
-/
namespace VisualNovel.Terminal

structure Table where
  title : String
  columns : List String
  rows : List (List String)
deriving DecidableEq, Repr, Inhabited

inductive Printed where
  | line (markup : String)
  | table (t : Table)
  /-- Stands in front of the place where input is typed. -/
  | prompt (markup : String)
deriving DecidableEq, Repr, Inhabited

def styled (style markup : String) : String :=
  "[" ++ style ++ "]" ++ markup ++ "[/" ++ style ++ "]"

def styledLine (style markup : String) : Printed := .line (styled style markup)

def complaint (text : String) : Printed := styledLine "red" (Text.escape text)

/-- The first line of a report about failed fields. What would follow is left out, so the style
stays open. -/
def heading (text : String) : Printed := .line ("[red]" ++ Text.escape text)

end VisualNovel.Terminal
