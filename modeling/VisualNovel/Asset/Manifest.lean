import VisualNovel.Asset.Catalog
import VisualNovel.Data.File
import VisualNovel.Fault
import VisualNovel.Text.Search

/-!
Manifests: mappings whose sections list the media of one category each.
-/
namespace VisualNovel.Asset

open Data

def sectionNames : List (String × Category) := [
  ("bg", .background), ("background", .background), ("backgrounds", .background),
  ("lh", .sprite), ("sprite", .sprite), ("sprites", .sprite),
  ("cg", .cg),
  ("video", .video), ("videos", .video)]

def sectionCategory? (key : Value) : Option Category :=
  sectionNames.lookup (foldedName key.display)

/-- Turns the address of a file's page on the hosting site into the address of the file itself. -/
def rawAddress (url : String) : String :=
  if Text.contains url "github.com" && Text.contains url "/blob/" then
    Text.replaceFirst (Text.replaceFirst url "github.com" "raw.githubusercontent.com") "/blob/" "/"
  else url

def rawFlag : String := "raw_github"

def isRawFlag : Value → Bool
  | .text s => s == rawFlag
  | _ => false

/-- The entries gathered for each category, in the order in which the categories came up. -/
abbrev Sections := KeyedList Category (KeyedList String String)

def Sections.add (sections : Sections) (direct : Bool) (category : Category)
    (entries : List (Value × Value)) : Sections :=
  let old := (sections.get? category).getD ∅
  let new := entries.foldl (fun (d : KeyedList String String) (name, identifier) =>
    let address := identifier.display
    d.insert name.display (if direct then rawAddress address else address)) old
  sections.insert category new

/-- Sections of unknown categories are passed over; those of known ones have to be mappings. -/
def gatherSections (direct : Bool) : Sections → List (Value × Value) → Except Fault Sections
  | sections, [] => .ok sections
  | sections, (key, value) :: rest =>
      if isRawFlag key then gatherSections direct sections rest
      else
        match sectionCategory? key, value with
        | none, _ => gatherSections direct sections rest
        | some category, .map entries =>
            gatherSections direct (sections.add direct category entries) rest
        | some _, v => .error (.badSection key v.kind)

def Catalog.ofSections (sections : Sections) : Catalog :=
  sections.entries.foldl (fun c (category, d) => c.addAll category d.entries) ∅

/-- The catalogue of a manifest. The flag counts wherever it stands among the sections. -/
def Catalog.ofManifest (manifest : List (Value × Value)) : Except Fault Catalog := do
  let direct := (Value.lookup? rawFlag manifest).any Value.isTruthy
  let sections ← gatherSections direct ∅ manifest
  return Catalog.ofSections sections

def Catalog.ofFile (tree : Disk.Tree) (path : Disk.Path) : Except FileFault Catalog :=
  if !tree.isFile path then .error (.content (.missingManifest path.text))
  else
    match readMapping tree path with
    | .ok manifest =>
        match Catalog.ofManifest manifest with
        | .ok catalog => .ok catalog
        | .error f => .error (.content f)
    | .error (.content f) => .error (.content (.badManifest f))
    | .error (.badScalar reason) => .error (.badScalar reason)
    | .error (.tooDeep reason) => .error (.tooDeep reason)
    | .error e => .error (.content (.unreadableManifest path.text e.message))

end VisualNovel.Asset
