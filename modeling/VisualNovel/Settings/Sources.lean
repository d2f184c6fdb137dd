import VisualNovel.Data.File
import VisualNovel.Settings.Basic
import VisualNovel.Settings.EnvFile

/-!
Where settings come from. For each field the first source that gives it wins: arguments of the
command line, configuration files from the last to the first, environment variables, the file of
environment variables, and the default. What a configuration file yields includes the variables
that were set when it was read, so they also win over the files before it.
-/
namespace VisualNovel.Settings

open Data

/-- The files and variables around a program. -/
structure Environment where
  tree : Disk.Tree := {}
  vars : List (String × String) := []
deriving Inhabited

def Environment.surroundings (e : Environment) : Surroundings := ⟨e.tree.cwd, e.vars⟩

inductive Fault where
  | file (f : FileFault)
  /-- A configuration file with entries whose keys are no texts. -/
  | oddKeys
  | failure (f : Failure)
  | missingFile (path : String)
  | missingCommandFile (path : String)
deriving Inhabited

/-- The names of the fields that failed; the empty name stands for all of them together. -/
def Failure.names : Failure → List String
  | .invalid fields => fields.map Field.name
  | .inconsistent => [""]
  | .unknownHome => []

def unknownHomeMessage : String := "Could not determine home directory."

/-- The first line of a report about failed fields. -/
def Failure.message (f : Failure) : String :=
  match f with
  | .unknownHome => unknownHomeMessage
  | _ =>
      let count := f.names.length
      let plural := if count == 1 then "" else "s"
      s!"{count} validation error{plural} for VNScriptSettings"

def Fault.message : Fault → String
  | file f => f.message
  | oddKeys => "keywords must be strings"
  | failure f => f.message
  | missingFile path => s!"Configuration file not found: {path}"
  | missingCommandFile path => s!"Config file not found: {path}"

/-- A field by its exact name, or else by its name in other letters. -/
def entry? (name : String) (entries : List (String × Given)) : Option Given :=
  (entries.lookup name).orElse fun _ =>
    (entries.find? fun entry => Text.lower entry.1 == name).map (·.2)

/-- Entries by name; names of no field are passed over. -/
def Layer.ofEntries (entries : List (String × Given)) : Layer := fun f => entry? f.name entries

def variableStem : String := "vnscript_"

/-- Variables by name, in any letters. Of two with one name the last counts. -/
def Layer.ofVariables (vars : List (String × String)) : Layer := fun f =>
  (vars.reverse.find? fun v => Text.lower v.1 == variableStem ++ f.name).map fun v =>
    .plain (.text v.2)

def envFileName : Disk.Path := .ofText ".env"

/-- What a file of variables gives, if there is one. Names without a value give nothing, and hide
what the name was given before. -/
def Layer.ofEnvFile (e : Environment) (path : Disk.Path) : Except Fault Layer :=
  let path := e.surroundings.fillHome path
  if !e.tree.isFile path then .ok .empty
  else
    match e.tree.read path with
    | .error failure => .error (.file (.disk failure))
    | .ok bytes =>
        match decodeFile Text.Utf8.decodeLines bytes with
        | .error f => .error (.file f)
        | .ok text =>
            let found := EnvFile.entries e.surroundings.lookup text
            .ok fun f =>
              ((found.reverse.find? fun v => Text.lower v.1 == variableStem ++ f.name).bind
                (·.2)).map fun value => .plain (.text value)

/-- Settings, and the layer of all that was given for them. -/
structure Made where
  settings : Settings
  given : Layer

/-- What was given, in the form in which it was settled. -/
def Made.settled (m : Made) : Layer := fun f =>
  if (m.given f).isSome then some (m.settings.content f) else none

def make (e : Environment) (envFile : Disk.Path) (given : Layer) : Except Fault Made := do
  let file ← Layer.ofEnvFile e envFile
  let given := given.above ((Layer.ofVariables e.vars).above file)
  match ofLayer e.surroundings given with
  | .ok settings => .ok ⟨settings, given⟩
  | .error f => .error (.failure f)

def fromGiven (e : Environment) (given : Layer) : Except Fault Settings :=
  (make e envFileName given).map (·.settings)

def fromEnvironment (e : Environment) : Except Fault Settings := fromGiven e .empty

/-- Keys of configuration files that are often taken for others. -/
def wrongKeys : List (String × String) :=
  [("assets", "asset_manifest"), ("start", "start_node_id"), ("save_path", "save_file"),
    ("slots", "save_slot_count")]

def checkKeys (config : List (Value × Value)) : Except VisualNovel.Fault Unit :=
  match wrongKeys.find? fun (wrong, _) => (Value.lookup? wrong config).isSome with
  | some (wrong, correct) => .error (.wrongKey (config.map (·.1)) wrong correct)
  | none => .ok ()

def textEntry? : Value × Value → Option (String × Given)
  | (.text name, v) => some (name, .plain v)
  | _ => none

def madeFromFile (e : Environment) (path : Disk.Path) : Except Fault Made :=
  if !e.tree.pathExists path then .error (.missingFile path.text)
  else
    match readMapping e.tree path with
    | .error f => .error (.file f)
    | .ok config =>
        match checkKeys config, config.mapM textEntry? with
        | .error f, _ => .error (.file (.content f))
        | .ok _, none => .error .oddKeys
        | .ok _, some entries => make e envFileName (.ofEntries entries)

def fromFile (e : Environment) (path : Disk.Path) : Except Fault Settings :=
  (madeFromFile e path).map (·.settings)

/-- What the configuration files give, the last one first; files that are missing are passed
over. -/
def fileLayer (e : Environment) : Layer → List Disk.Path → Except Fault Layer
  | given, [] => .ok given
  | given, path :: rest =>
      match madeFromFile e path with
      | .ok made => fileLayer e (made.settled.above given) rest
      | .error (.missingFile _) => fileLayer e given rest
      | .error f => .error f

/-- Arguments that are given, over settings that are complete. -/
def override (e : Environment) (s : Settings) (arguments : List (String × Given)) :
    Except Fault Settings :=
  let isGiven : String × Given → Bool
    | (_, .plain .null) => false
    | _ => true
  match arguments.filter isGiven with
  | [] => .ok s
  | arguments => fromGiven e ((Layer.ofEntries arguments).above s.toLayer)

/-- Settings from configuration files, a file of variables and arguments. An empty name stands for
the usual file of variables. -/
def fromSources (e : Environment) (files : List Disk.Path) (envFile : Option String)
    (arguments : List (String × Given)) : Except Fault Settings := do
  let given ← fileLayer e .empty files
  let envFile := ((envFile.filter (!·.isEmpty)).map Disk.Path.ofText).getD envFileName
  let made ← make e envFile given
  override e made.settings arguments

def configNames : List String := ["yaml", "toml", "json"]

/-- The places of configuration files, the least important one first. -/
def configPlaces (e : Environment) : List Disk.Path :=
  let shared := e.surroundings.home.child ".config" |>.child "vnscript"
  configNames.map (fun n => shared.child ("config." ++ n)) ++
    configNames.map (fun n => e.tree.cwd.child ("vnscript." ++ n))

/-- The settings that hold when nothing else is said. -/
def standing (e : Environment) : Except Fault Settings :=
  match (configPlaces e).filter e.tree.isFile with
  | [] => fromEnvironment e
  | files => fromSources e files none []

/-- The settings for one command: from the file it names, or from the ones that hold anyway. -/
def forCommand (e : Environment) (held : Option Settings) (file : Option Disk.Path)
    (arguments : List (String × Given)) : Except Fault Settings :=
  match file with
  | some path =>
      if e.tree.pathExists path then fromSources e [path] none arguments
      else .error (.missingCommandFile path.text)
  | none => do
      let settings ← match held with
        | some settings => .ok settings
        | none => standing e
      override e settings arguments

end VisualNovel.Settings
