import VisualNovel.Data.Json.Reader
import VisualNovel.Data.Toml.Reader
import VisualNovel.Data.Yaml.Reader
import VisualNovel.Disk.Tree
import VisualNovel.Fault
import VisualNovel.Text.Casing

/-!
Files that hold a mapping, in one of three formats. The end of a file's name tells its format.
-/
namespace VisualNovel.Data

inductive Format where
  | yaml
  | toml
  | json
deriving DecidableEq, Repr

def Format.ofSuffix? (suffix : String) : Option Format :=
  if suffix == ".yml" || suffix == ".yaml" then some .yaml
  else if suffix == ".toml" then some .toml
  else if suffix == ".json" then some .json
  else none

inductive FileFault where
  | disk (e : Disk.Error)
  | notText (f : Text.Utf8.Fault)
  | malformed (format : Format)
  /-- A scalar whose form promises a value it does not have. -/
  | badScalar (reason : String)
  /-- Collections one inside the other, beyond what the stack holds. -/
  | tooDeep (reason : String)
  | content (f : Fault)
deriving Inhabited

def Format.complaint : Format → String
  | yaml => "malformed YAML"
  | toml => "malformed TOML"
  | json => "malformed JSON"

def FileFault.message : FileFault → String
  | disk e => e.message
  | notText f => f.message
  | malformed format => format.complaint
  | badScalar reason => reason
  | tooDeep reason => reason
  | content f => f.text

/-- How many collections can be opened one inside the other in a file that a program reads. -/
def fileRoom : Nat := 980

def FileFault.ofJson : Json.ReadFailure → FileFault
  | .malformed => .malformed .json
  | .beyond (.digits count) => .badScalar (Json.ReadLimit.digits count).message
  | .beyond (.depth kind) => .tooDeep (Json.ReadLimit.depth kind).message

def decodeFile {α : Type} (decode : ByteArray → Except Text.Utf8.Fault α) (bytes : ByteArray) :
    Except FileFault α :=
  match decode bytes with
  | .ok a => .ok a
  | .error f => .error (.notText f)

/-- The value in a file. An empty YAML value counts as an empty mapping. -/
def Format.read (bytes : ByteArray) : Format → Except FileFault Value
  | yaml => do
      match Yaml.read (← decodeFile Text.Utf8.decodeLines bytes) with
      | .ok v => return if v.isTruthy then v else .map []
      | .error .malformed => .error (.malformed yaml)
      | .error (.badScalar reason) => .error (.badScalar reason)
  | toml => do
      match Toml.read? (← decodeFile Text.Utf8.decode bytes) with
      | some entries => return .map entries
      | none => .error (.malformed toml)
  | json => do
      match Json.read fileRoom (← decodeFile Text.Utf8.decodeLines bytes) with
      | .ok v => return v.toValue
      | .error f => .error (.ofJson f)

/-- The entries of the mapping in a file. The name is looked at before the file is opened. -/
def readMapping (tree : Disk.Tree) (path : Disk.Path) :
    Except FileFault (List (Value × Value)) := do
  let suffix := Text.lower path.suffix
  match Format.ofSuffix? suffix with
  | none => .error (.content (.unsupportedFormat path.text suffix))
  | some format =>
      match tree.read path with
      | .error e => .error (.disk e)
      | .ok bytes =>
          match ← format.read bytes with
          | .map entries => return entries
          | v => .error (.content (.notAMapping path.text v.kind))

end VisualNovel.Data
