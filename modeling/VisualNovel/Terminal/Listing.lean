import VisualNovel.Save.Repository
import VisualNovel.Script.Compile
import VisualNovel.Script.Graph
import VisualNovel.Terminal.Console

/-!
Compiled scripts, findings about them, and saves as they are listed on a terminal.
-/
namespace VisualNovel.Terminal

/-- A dash stands for a name that is missing or empty. -/
def orDash (s : Option String) : String := (s.filter (!·.isEmpty)).getD "-"

/-- How many characters of a text fit into a cell. -/
def cellWidth : Nat := 40

/-- A text that is too long loses its end to an ellipsis. -/
def shortened (text : String) : String :=
  if text.length ≤ cellWidth then text
  else String.ofList (text.toList.take (cellWidth - 1)) ++ "…"

def successorText (n : Node) : String :=
  if n.choices.isEmpty then orDash n.next
  else String.intercalate "\n" (n.choices.map fun c => c.text ++ " → " ++ c.target)

def nodeRow (n : Node) : List String :=
  [n.id, orDash n.speaker, shortened n.text, orDash n.background, successorText n].map Text.escape

def scriptTable (s : Script) : Table where
  title := "Compiled Script"
  columns := ["Id", "Speaker", "Text", "Background", "Next"]
  rows := s.nodes.values.map nodeRow

def scriptListing (s : Script) : List Printed :=
  if s.nodes.values.isEmpty then [.line "No nodes compiled"] else [.table (scriptTable s)]

def diagnosticLines (ds : List Diagnostic) : List Printed :=
  ds.map fun d => styledLine "yellow" (Text.escape d.text)

def counted (n : Nat) (thing : String) : String :=
  toString n ++ " " ++ thing ++ if n = 1 then "" else "s"

def compilationSummary (c : Compilation) : Printed :=
  .line ("\n" ++ styled "green" ("Compiled " ++ counted c.script.size "node") ++ " with " ++
    counted c.diagnostics.length "diagnostic")

def compilationListing (c : Compilation) : List Printed :=
  scriptListing c.script ++ diagnosticLines c.diagnostics ++ [compilationSummary c]

/-- The findings of the compiler come before those about the graph. -/
def allWarnings (c : Compilation) (r : Graph.Report) : List String :=
  c.diagnostics.map (·.text) ++ r.warnings

def validityLine (name : String) (s : Script) (r : Graph.Report) : Printed :=
  .line (styled "green" ("✓ " ++ Text.escape name ++ " is valid") ++
    s!" ({r.reachable.length}/{s.size} nodes reachable)")

def validationListing (name : String) (c : Compilation) (r : Graph.Report) : List Printed :=
  r.errors.map (fun e => styledLine "red" ("✗ " ++ Text.escape e)) ++
    (allWarnings c r).map (fun w => styledLine "yellow" ("⚠ " ++ Text.escape w)) ++
    if r.isValid then [validityLine name c.script r] else []

/-- The year without leading zeros, and the time down to the second. -/
def stampText (m : Calendar.Moment) : String :=
  toString m.date.year ++ String.ofList (m.toSecondsText.toList.drop 4)

def slotRow (number : Int) (slot : Option Save.Slot) : List String :=
  match slot with
  | none => [toString number, styled "dim" "empty", "", "", ""]
  | some s =>
      [toString number, Text.escape s.nodeId, Text.escape s.preview.mended, stampText s.stamp,
        Text.escape (orDash (s.background.map (·.mended)))]

/-- One row for each slot there is, used or not. -/
def savesTable (slotIds : List Int) (slots : List Save.Slot) : Table where
  title := "Save Slots"
  columns := ["Slot", "Node", "Preview", "Saved", "Background"]
  rows := slotIds.map fun number => slotRow number (slots.find? (·.id == number))

end VisualNovel.Terminal
