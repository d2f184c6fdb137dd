import VisualNovel.Disk.Tree
import VisualNovel.Text.Casing

/-!
Levels of the log, by name, and the file that the log goes to.
-/
namespace VisualNovel.Settings.Logging

/-- The names in order; some levels have two. -/
def levels : List (String × Nat) :=
  [("CRITICAL", 50), ("DEBUG", 10), ("ERROR", 40), ("FATAL", 50), ("INFO", 20), ("NOTSET", 0),
    ("WARN", 30), ("WARNING", 30)]

def level (name : String) : Except String Nat :=
  match levels.lookup (Text.upper name) with
  | some n => .ok n
  | none =>
      let known := String.intercalate ", " (levels.map (·.1))
      .error s!"Invalid log level '{name}'. Valid levels are: {known}"

def openFile (tree : Disk.Tree) (path : Disk.Path) : Except Disk.Error Disk.Tree := do
  let tree ← tree.makeDirectory path.parent
  match tree.lookup path with
  | some (.file _) => return tree
  | _ => tree.write path ByteArray.empty

end VisualNovel.Settings.Logging
