import VisualNovel.Asset.Manifest
import VisualNovel.Script.Source
import VisualNovel.Settings.Logging
import VisualNovel.Settings.Sources
import VisualNovel.Terminal.Arguments
import VisualNovel.Terminal.Player
import VisualNovel.Terminal.Report

/-!
The command line: options for every command, then a command with its own options and words. Running
it is a function on the files and variables around the program; what it shows and writes is part of
the result.
-/
namespace VisualNovel.Terminal

open Data

structure Shell where
  environment : Settings.Environment
  /-- The settings that hold for the command, once the common options ask for any. -/
  settings : Option Settings := none
  printed : Array Printed := #[]
  /-- Plain text for other programs. -/
  written : String := ""

inductive Ended where
  | exit (code : Nat)
  | helped
  /-- The command line is none that can be run. -/
  | misused
  /-- A failure that no command makes a report of. -/
  | failed (f : Settings.Fault)
  | broken (f : Save.Failure)
deriving Inhabited

/-- A piece of work on a shell that may end the command line early. -/
abbrev Job := ExceptT Ended (StateM Shell)

namespace Shell

variable {α : Type}

def print (lines : List Printed) : Job Unit :=
  modify fun s => { s with printed := s.printed ++ lines.toArray }

def write (text : Text.RawText) : Job Unit :=
  match text.strict with
  | .ok text => modify fun s => { s with written := s.written ++ text ++ "\n" }
  | .error u => throw (.broken (.unencodable u))

def writeValue (v : Value) : Job Unit := write (jsonText (.ofValue v))

def orMisused : Option α → Job α
  | some a => pure a
  | none => throw .misused

def report (json : Bool) (f : Fault) : Job α := do
  if json then writeValue (Report.failure 1 (Problem.ofFault f))
  else print [complaint f.text]
  throw (.exit 1)

def orFileReport (json : Bool) : Except FileFault α → Job α
  | .ok a => pure a
  | .error (.content f) => report json f
  | .error f => throw (.failed (.file f))

def orReport (json : Bool) : Except Settings.Fault α → Job α
  | .ok a => pure a
  | .error (.file f) => orFileReport json (.error f)
  | .error f => throw (.failed f)

def orSavesReport (json : Bool) : Except Save.Failure α → Job α
  | .ok a => pure a
  | .error (.fault f) => report json f
  | .error f => throw (.broken f)

def orFailed : Except Settings.Fault α → Job α
  | .ok a => pure a
  | .error f => throw (.failed f)

def complainAndExit (line : Printed) : Job α := do
  print [line]
  throw (.exit 1)

def errorText (message : String) : String := "Error: " ++ message

/-- Failures of the common options. -/
def orOptionReport : Except Settings.Fault α → Job α
  | .ok a => pure a
  | .error f =>
      match f with
      | .missingFile _ | .missingCommandFile _ => complainAndExit (complaint (errorText f.message))
      | .file (.disk ⟨.notFound, _⟩) => complainAndExit (complaint (errorText f.message))
      | .failure .unknownHome => throw (.failed f)
      | .failure _ => complainAndExit (heading (errorText f.message))
      | .file (.content g) => report false g
      | f => throw (.failed f)

def commonFlags : List Flag := [.config, .verbose, .debug, .help]

def configVariable : String := "VNSCRIPT_CONFIG"

/-- The configuration file that is asked for: by an option, or by a variable that is not empty. -/
def configFile? (e : Settings.Environment) (a : Arguments) : Option Disk.Path :=
  ((a.value? .config).or ((e.surroundings.lookup configVariable).filter (!·.isEmpty))).map .ofText

/-- What the common options say about single settings. -/
def settingsGiven (a : Arguments) : List (String × Settings.Given) :=
  if a.has .debug then
    [("log_level", .plain (.text "DEBUG")), ("debug", .plain (.bool true))]
  else if a.has .verbose then [("log_level", .plain (.text "INFO"))]
  else []

def openLog (s : Settings) : Job Unit := do
  match s.logFile with
  | none => return
  | some path =>
      let shell ← get
      match Settings.Logging.openFile shell.environment.tree path with
      | .ok tree => set { shell with environment := { shell.environment with tree } }
      | .error e => throw (.failed (.file (.disk e)))

/-- Takes up the settings that the common options ask for, if they ask for any. -/
def applyCommon (a : Arguments) : Job Unit := do
  let shell ← get
  let file := configFile? shell.environment a
  let given := settingsGiven a
  if file.isNone && given.isEmpty then return
  let settings ← orOptionReport (Settings.forCommand shell.environment shell.settings file given)
  modify fun shell => { shell with settings := some settings }
  openLog settings

def currentSettings (s : Shell) : Except Settings.Fault Settings :=
  match s.settings with
  | some settings => .ok settings
  | none => Settings.standing s.environment

/-- The compiler that settings describe, with the manifest of the command line in place of their
own. -/
def compilerFor (tree : Disk.Tree) (s : Settings) (manifest : Option Disk.Path) :
    Except FileFault Compiler := do
  let catalog ← match manifest.or s.assetManifest with
    | some path => Asset.Catalog.ofFile tree path
    | none => .ok ∅
  return { catalog, startId := s.startNode.val, defaultBackground := s.defaultBackground }

def compileScript (tree : Disk.Tree) (s : Settings) (manifest : Option Disk.Path)
    (script : Disk.Path) : Except FileFault Compilation := do
  let compiler ← compilerFor tree s manifest
  (compiler.compileFile tree script).mapError .content

def savesAt (tree : Disk.Tree) (s : Settings) (file : Option Disk.Path) :
    Save.Repository Save.FileStore where
  store := ⟨tree, file.getD s.saveFile⟩
  key := s.saveKey.val
  slotCount := s.saveSlotCount.val

/-- The script a command is about; it has to be a file. -/
def scriptFile (a : Arguments) : Job Disk.Path := do
  match a.words with
  | [word] =>
      let path := Disk.Path.ofText word
      let shell ← get
      if Disk.Path.namesDirectory word || !shell.environment.tree.isFile path then throw .misused
      return path
  | _ => throw .misused

def noWords (a : Arguments) : Job Unit := if a.words.isEmpty then pure () else throw .misused

def path? (a : Arguments) (f : Flag) : Option Disk.Path := (a.value? f).map .ofText

/-- The compilation that `compile` and `validate` report on. -/
def compilation (a : Arguments) (script : Disk.Path) : Job Compilation := do
  let json := a.has .json
  let shell ← get
  let settings ← orReport json shell.currentSettings
  orFileReport json (compileScript shell.environment.tree settings (path? a .assets) script)

def compile (a : Arguments) : Job Unit := do
  let c ← compilation a (← scriptFile a)
  if a.has .json then writeValue c.toValue else print (compilationListing c)

def validate (a : Arguments) : Job Unit := do
  let script ← scriptFile a
  let c ← compilation a script
  let r := Graph.validate c.script
  if a.has .json then writeValue (Report.validation c r)
  else print (validationListing script.name c r)
  if !r.isValid then throw (.exit 1)

def saves (a : Arguments) : Job Unit := do
  noWords a
  let json := a.has .json
  let shell ← get
  let settings ← orReport json shell.currentSettings
  let repository := savesAt shell.environment.tree settings (path? a .saveFile)
  let slots ← orSavesReport json (repository.listSlots Playback.usualRoom)
  if json then write (jsonText (Report.saves repository.form slots))
  else print [.table (savesTable repository.slotIds slots)]

def version (a : Arguments) : Job Unit := do
  noWords a
  if a.has .json then writeValue Report.version
  else print [.line (programName ++ " v" ++ programVersion)]

/-- The number of the slot to start from, if one is asked for. -/
def slot? (a : Arguments) : Job (Option Int) :=
  match a.value? .load with
  | none => pure none
  | some text => (orMisused (Text.integer? text)).map some

abbrev FilePlayer := Player Float Save.FileStore

def playerFor (tree : Disk.Tree) (s : Settings) (saveFile : Option Disk.Path) (script : Script)
    (stamps : Playback.Stamps) : FilePlayer where
  engine := {
    script
    timing := s.timing Settings.seconds
    saves := some (savesAt tree s saveFile)
    agenda := { now := 0 } }
  stamps

/-- Begins to play, up to the first prompt. -/
def play (fuel : Nat) (stamps : Playback.Stamps) (a : Arguments) : Job FilePlayer := do
  let script ← scriptFile a
  let slot ← slot? a
  let shell ← get
  let tree := shell.environment.tree
  let settings ← orFailed shell.currentSettings
  let c ← orFileReport false (compileScript tree settings (path? a .assets) script)
  let player := playerFor tree settings (path? a .saveFile) c.script stamps
  let player ← orSavesReport false (player.begin slot)
  return (player.print [styledLine "dim" "? for help"]).pump fuel

inductive CommandName where
  | compile
  | validate
  | play
  | saves
  | version
deriving DecidableEq, Repr

namespace CommandName

def ofName? : String → Option CommandName
  | "compile" => some compile
  | "validate" => some validate
  | "play" => some play
  | "saves" => some saves
  | "version" => some version
  | _ => none

def flags : CommandName → List Flag
  | compile | validate => [.assets, .json, .help]
  | play => [.assets, .saveFile, .load, .help]
  | saves => [.saveFile, .json, .help]
  | version => [.json, .help]

end CommandName

def run (fuel : Nat) (stamps : Playback.Stamps) (words : List String) :
    Job (Option FilePlayer) := do
  let common ← orMisused (Arguments.readLeading commonFlags words)
  if common.has .help then throw .helped
  match common.words with
  | [] => throw .misused
  | name :: rest =>
      let command ← orMisused (CommandName.ofName? name)
      applyCommon common
      let a ← orMisused (Arguments.read command.flags rest)
      if a.has .help then throw .helped
      match command with
      | .compile => compile a; return none
      | .validate => validate a; return none
      | .saves => saves a; return none
      | .version => version a; return none
      | .play => some <$> play fuel stamps a

def treeAfter (s : Shell) (p : FilePlayer) : Disk.Tree :=
  (p.engine.saves.map (·.store.tree)).getD s.environment.tree

/-- Takes over what a player has shown and changed. -/
def afterPlay (s : Shell) (p : FilePlayer) : Shell :=
  { s with
    printed := s.printed ++ p.printed
    environment := { s.environment with tree := s.treeAfter p } }

def runWith (fuel : Nat) (stamps : Playback.Stamps) (words input : List String) (s : Shell) :
    Ended × Shell :=
  match (run fuel stamps words).run.run s with
  | (.error ended, s) => (ended, s)
  | (.ok none, s) => (.exit 0, s)
  | (.ok (some player), s) =>
      let (breakdown, player) := player.playLines fuel input
      (breakdown.elim (.exit 0) .broken, s.afterPlay player)

end Shell

end VisualNovel.Terminal
