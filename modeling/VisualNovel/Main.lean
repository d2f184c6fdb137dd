import Std.Time.DateTime.Timestamp
import VisualNovel.Terminal.Display
import VisualNovel.Terminal.Shell

/-!
The program. The files that a command line may need are read first; the command line then runs on
them as plain data, and what it shows, writes and changes is passed on.
-/
namespace VisualNovel.Terminal

open Settings

/-- More steps than any game between two prompts takes. -/
def stepLimit : Nat := 1000000000000

/-- Reads what is at a place, and at the places that lead there. -/
def readPlace (tree : Disk.Tree) (p : Disk.Path) : IO Disk.Tree := do
  let parts := (Disk.Path.resolve tree.cwd p).parts
  let mut tree := tree
  for n in List.range parts.length do
    let place := parts.take (n + 1)
    if (tree.items.get? place).isNone then
      try
        let bytes ← IO.FS.readBinFile (Disk.Path.mk true place).text
        tree := { tree with items := tree.items.insert place (.file bytes) }
      catch
        | .noFileOrDirectory .. => break
        | _ => tree := { tree with items := tree.items.insert place .directory }
  return tree

def readPlaces (e : Environment) (places : List Disk.Path) : IO Environment := do
  let mut tree := e.tree
  for place in places do
    tree ← readPlace tree place
  return { e with tree }

/-- The places that words may name: the words themselves, and values attached to options. -/
def placesOf (words : List String) : List Disk.Path :=
  (words.flatMap fun word => word :: (Arguments.splitValue word).2.toList).map .ofText

def placesOfSettings (s : Settings) : List Disk.Path :=
  [s.saveFile] ++ s.assetManifest.toList ++ s.logFile.toList

def knownVariables : List String :=
  ["HOME", Shell.configVariable] ++ Field.all.map fun f => Text.upper (variableStem ++ f.name)

def readVariables : IO (List (String × String)) := do
  let mut found := []
  for name in knownVariables do
    if let some value ← IO.getEnv name then found := found ++ [(name, value)]
  return found

def readEnvironment (words : List String) : IO Environment := do
  let here ← IO.FS.realPath "."
  let vars ← readVariables
  let e : Environment := { tree := { cwd := .ofText here.toString }, vars }
  let e ← readPlaces e ([e.tree.cwd, envFileName] ++ configPlaces e ++
    placesOf (words ++ vars.map (·.2)))
  let file := (vars.lookup Shell.configVariable).toList ++ words
  let settings := (standing e).toOption.toList ++
    file.filterMap fun word => (fromFile e (.ofText word)).toOption
  readPlaces e (settings.flatMap placesOfSettings)

def writeChanges (old new : Disk.Tree) : IO Unit := do
  for (place, item) in new.items.entries do
    let name := (Disk.Path.mk true place).text
    match item, old.items.get? place with
    | .directory, none => IO.FS.createDirAll name
    | .file bytes, some (.file before) =>
        if bytes.data != before.data then IO.FS.writeBinFile name bytes
    | .file bytes, _ => IO.FS.writeBinFile name bytes
    | _, _ => pure ()

def showAll (lines : Array Printed) : IO Unit := do
  for line in lines do
    IO.print line.plain
  (← IO.getStdout).flush

def currentStamps : IO Playback.Stamps := do
  let now ← Std.Time.Timestamp.now
  return { moments := [.ofSeconds now.toSecondsSinceUnixEpoch.val 0] }

/-- Plays on until the input ends or a line ends the game. -/
partial def playOn (shell : Shell) (p : Shell.FilePlayer) : IO UInt32 := do
  showAll (p.printed.push p.prompt)
  let line ← (← IO.getStdin).getLine
  if line.isEmpty then return 0
  let p := { p with printed := #[], stamps := ← currentStamps }
  match p.handle stepLimit (Text.trim line) with
  | none =>
      match p.breakdown? (Command.ofLine (Text.trim line)) with
      | some f => IO.eprintln f.message; return 1
      | none => return 0
  | some p =>
      let after := { shell with environment.tree := shell.treeAfter p }
      writeChanges shell.environment.tree after.environment.tree
      playOn after p

def usage : String :=
  "usage: vnscript [--config FILE] [--verbose] [--debug] COMMAND\n" ++
  "  compile SCRIPT [--assets FILE] [--json]\n" ++
  "  validate SCRIPT [--assets FILE] [--json]\n" ++
  "  play SCRIPT [--assets FILE] [--save-file FILE] [--load SLOT]\n" ++
  "  saves [--save-file FILE] [--json]\n" ++
  "  version [--json]\n"

def runProgram (words : List String) : IO UInt32 := do
  let e ← readEnvironment words
  let stamps ← currentStamps
  let (result, shell) := (Shell.run stepLimit stamps words).run.run { environment := e }
  writeChanges e.tree shell.environment.tree
  showAll shell.printed
  IO.print shell.written
  match result with
  | .ok none => return 0
  | .ok (some player) => playOn shell player
  | .error (.exit code) => return code.toUInt32
  | .error .helped => IO.print usage; return 0
  | .error .misused => IO.eprint usage; return 2
  | .error (.failed f) => IO.eprintln f.message; return 1
  | .error (.broken f) => IO.eprintln f.message; return 1

end VisualNovel.Terminal

def main (words : List String) : IO UInt32 := VisualNovel.Terminal.runProgram words
