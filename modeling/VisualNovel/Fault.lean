import VisualNovel.Data.Value

/-!
What can go wrong, by cause. Each cause has one message, and may come with a hint at what to do
and with details; this module is the only place that words them. Its lemmas tell when a computation
that may fail succeeds.
-/
namespace VisualNovel

open Data

inductive Fault where
  /-- A data file whose format its name does not tell. -/
  | unsupportedFormat (path suffix : String)
  /-- A data file that holds something else than a mapping. -/
  | notAMapping (path kind : String)
  /-- A configuration that uses a key under a common wrong name. -/
  | wrongKey (found : List Value) (wrong correct : String)
  | unreadableScript (path reason : String)
  | missingManifest (path : String)
  | unreadableManifest (path reason : String)
  /-- A manifest file that fails as a data file. -/
  | badManifest (cause : Fault)
  | badSection (key : Value) (kind : String)
  | noStart (startId : String)
  | noChoiceOffered (node : Option String)
  | choicesHidden (node : String)
  | noSuchChoice (index : Int) (node : String) (count : Nat)
  | noSession
  | noSaveStorage
  | nothingToSave
  | emptySlot (slot : Int)
  | incompatibleSave (slot : Int) (node : String)
  | invalidSlot (slot count : Int)
  | unwritableSaves (path reason : String)
deriving Inhabited

namespace Fault

def message : Fault → String
  | unsupportedFormat _ suffix => s!"Unsupported file format: {suffix}"
  | notAMapping path _ => s!"Expected a mapping at the top of {path}"
  | wrongKey _ wrong _ => s!"Invalid configuration key '{wrong}'"
  | unreadableScript path _ => s!"Failed to read script file: {path}"
  | missingManifest path => s!"Asset manifest not found: {path}"
  | unreadableManifest path _ => s!"Failed to read asset manifest: {path}"
  | badManifest cause => cause.message
  | badSection key _ => s!"Asset category '{key.display}' must map names to identifiers"
  | noStart startId => s!"Script has no '{startId}' node"
  | noChoiceOffered _ => "No choice is on offer"
  | choicesHidden _ => "Choices are not shown until the text is revealed"
  | noSuchChoice index _ _ => s!"Choice {index} does not exist"
  | noSession => "No session in progress"
  | noSaveStorage => "No save storage configured"
  | nothingToSave => "Nothing to save on the title screen"
  | emptySlot slot => s!"Save slot {slot} is empty"
  | incompatibleSave _ _ => "Save data is corrupt or incompatible with this script"
  | invalidSlot slot _ => s!"Invalid save slot {slot}"
  | unwritableSaves path _ => s!"Failed to write save file: {path}"

def supportedFormats : List String := [".yml", ".yaml", ".toml", ".json"]

def hint : Fault → Option String
  | unsupportedFormat _ _ => some "Use one of the supported formats: .yml, .yaml, .toml, or .json"
  | wrongKey _ wrong correct => some s!"Use '{correct}' instead of '{wrong}'"
  | unreadableScript _ _ => some "Check the path and that the file is UTF-8 text."
  | missingManifest _ => some "Set VNSCRIPT_ASSET_MANIFEST or pass --assets"
  | badManifest cause => cause.hint
  | noStart _ => some "Add a dialogue line before any label, or a '# start' label"
  | choicesHidden _ => some "Advance once to finish the text first"
  | noSuchChoice _ _ count =>
      let last : Int := count - 1
      some s!"Pick a choice between 0 and {last}"
  | noSaveStorage => some "Pass a SaveRepository to the engine"
  | nothingToSave => some "Start or load a game first"
  | incompatibleSave _ _ => some "The script may have changed since the save was made"
  | invalidSlot _ count => some s!"Use a slot between 1 and {count}"
  | unwritableSaves _ _ => some "Check that the directory is writable"
  | _ => none

abbrev Details := List (String × Value)

def details : Fault → Details
  | unsupportedFormat path suffix =>
      [("file", .text path), ("detected_format", .text suffix),
        ("supported_formats", .list (supportedFormats.map .text))]
  | notAMapping path kind => [("file", .text path), ("found", .text kind)]
  | wrongKey found wrong correct =>
      [("found_keys", .list found), ("invalid_key", .text wrong), ("correct_key", .text correct)]
  | unreadableScript path reason => [("file", .text path), ("error", .text reason)]
  | unreadableManifest path reason => [("file", .text path), ("error", .text reason)]
  | badManifest cause => cause.details
  | badSection key kind => [("category", key), ("found", .text kind)]
  | noStart startId => [("start_id", .text startId)]
  | noChoiceOffered node => [("node_id", node.elim .null .text)]
  | choicesHidden node => [("node_id", .text node)]
  | noSuchChoice _ node count => [("node_id", .text node), ("choices", .int count)]
  | incompatibleSave slot node => [("slot", .int slot), ("node_id", .text node)]
  | unwritableSaves path reason => [("file", .text path), ("error", .text reason)]
  | _ => []

end Fault

structure Problem where
  message : String
  hint : Option String := none
  details : Option Fault.Details := none
deriving Inhabited

namespace Problem

def ofFault (f : Fault) : Problem where
  message := f.message
  hint := f.hint
  details := if f.details.isEmpty then none else some f.details

def hint? (p : Problem) : Option String := p.hint.filter (!·.isEmpty)

def details? (p : Problem) : Option Fault.Details := p.details.filter (!·.isEmpty)

def text (p : Problem) : String :=
  let hint := (p.hint?.map fun h => s!"\nHint: {h}").getD ""
  let details := (p.details?.map fun ds =>
    "\nDetails:\n" ++ String.intercalate "\n" (ds.map fun (k, v) => s!"  {k}: {v.display}")).getD ""
  s!"Error: {p.message}{hint}{details}"

end Problem

def Fault.text (f : Fault) : String := (Problem.ofFault f).text

theorem bind_eq_ok_iff {ε α β : Type} {x : Except ε α} {f : α → Except ε β} {b : β} :
    x >>= f = .ok b ↔ ∃ a, x = .ok a ∧ f a = .ok b := by
  cases x with
  | error e => exact ⟨nofun, fun ⟨_, h, _⟩ => nomatch h⟩
  | ok a => simp [bind, Except.bind]

@[simp] theorem mapError_ok {ε ε' α : Type} (f : ε → ε') (a : α) :
    (Except.ok a).mapError f = .ok a := rfl

@[simp] theorem mapError_error {ε ε' α : Type} (f : ε → ε') (e : ε) :
    (Except.error e : Except ε α).mapError f = .error (f e) := rfl

theorem mapError_eq_ok_iff {ε ε' α : Type} {x : Except ε α} {f : ε → ε'} {a : α} :
    x.mapError f = .ok a ↔ x = .ok a := by
  cases x <;> simp

end VisualNovel
