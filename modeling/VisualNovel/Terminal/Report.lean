import VisualNovel.Data.Json.Writer
import VisualNovel.Save.Repository
import VisualNovel.Script.Document
import VisualNovel.Terminal.Listing

/-!
The same results for other programs to read: indented JSON.
-/
namespace VisualNovel.Terminal

open Data

/-- A document that is no collection is put into an object of its own. -/
def jsonText (v : Json) : Text.RawText :=
  Json.write Json.indented (match v with
    | .list items => .list items
    | .object fields => .object fields
    | v => .object [("value", v)])

/-- A failure as a value; an empty hint and empty details are left out. -/
def Report.failure (code : Int) (p : Problem) : Value :=
  fields ([("success", .bool false), ("code", .int code), ("error", .text p.message)] ++
    (p.hint?.map fun h => ("hint", Value.text h)).toList ++
    (p.details?.map fun ds => ("details", fields ds)).toList)

def texts (xs : List String) : Value := .list (xs.map .text)

def Report.validation (c : Compilation) (r : Graph.Report) : Value :=
  fields [("valid", .bool r.isValid), ("nodes", .int c.script.size),
    ("reachable", texts r.reachable), ("errors", texts r.errors),
    ("warnings", texts (allWarnings c r))]

def Report.saves (form : Save.SlotForm) (slots : List Save.Slot) : Json :=
  .list (slots.map form.write)

def programName : String := "vnscript"

def programVersion : String := "0.1.0"

def Report.version : Value :=
  fields [("name", .text programName), ("version", .text programVersion),
    ("description", .text "Visual novel script compiler and playback engine")]

end VisualNovel.Terminal
