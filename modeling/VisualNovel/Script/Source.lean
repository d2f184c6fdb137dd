import VisualNovel.Disk.Tree
import VisualNovel.Fault
import VisualNovel.Script.Compile

/-!
Compiling script files.
-/
namespace VisualNovel

/-- The text of a script file, with every kind of line end read as a line feed. -/
def readSource (tree : Disk.Tree) (path : Disk.Path) : Except Fault String :=
  match tree.read path with
  | .error e => .error (.unreadableScript path.text e.message)
  | .ok bytes =>
      match Text.Utf8.decodeLines bytes with
      | .error f => .error (.unreadableScript path.text f.message)
      | .ok text => .ok text

def Compiler.compileFile (c : Compiler) (tree : Disk.Tree) (path : Disk.Path) :
    Except Fault Compilation :=
  (readSource tree path).map c.compile

end VisualNovel
