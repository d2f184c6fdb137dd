import VisualNovel.KeyedList
import VisualNovel.Disk.Path
import VisualNovel.Text.Quoted
import VisualNovel.Text.Utf8

/-!
A tree of files and directories, with the operations programs perform on it and the ways in which
those fail.
-/
namespace VisualNovel.Disk

inductive Item where
  | file (bytes : ByteArray)
  | directory
deriving Inhabited

def Item.isFile : Item → Bool
  | file _ => true
  | directory => false

/-- Files and directories under the parts of their absolute paths. Every item's parent is a
directory of the tree, or the root. -/
structure Tree where
  items : KeyedList (List String) Item := ∅
  cwd : Path := ⟨true, []⟩
deriving Inhabited

inductive Failure where
  | notFound
  | alreadyExists
  | notADirectory
  | isADirectory
deriving DecidableEq, Repr, Inhabited

def Failure.number : Failure → Nat
  | notFound => 2
  | alreadyExists => 17
  | notADirectory => 20
  | isADirectory => 21

def Failure.reason : Failure → String
  | notFound => "No such file or directory"
  | alreadyExists => "File exists"
  | notADirectory => "Not a directory"
  | isADirectory => "Is a directory"

structure Error where
  failure : Failure
  path : Path
deriving DecidableEq, Repr, Inhabited

def Error.message (e : Error) : String :=
  s!"[Errno {e.failure.number}] {e.failure.reason}: {Text.quoted e.path.text}"

/-- The same for a file that cannot be moved from a source to the path. A path that does not end in
a name is busy. -/
def Error.messageFrom (source : Path) (e : Error) : String :=
  let reason :=
    if e.path.name == "" || e.path.name == ".." then "[Errno 16] Device or resource busy"
    else s!"[Errno {e.failure.number}] {e.failure.reason}"
  s!"{reason}: {Text.quoted source.text} -> {Text.quoted e.path.text}"

namespace Tree

def itemAt (t : Tree) (parts : List String) : Option Item :=
  if parts.isEmpty then some .directory else t.items.get? parts

/-- Follows parts from a place, whose own parts come in reverse. Whatever is gone through, up or
down, has to be a directory; the last part need not exist. -/
def walk (t : Tree) (place : List String) : List String → Except Failure (List String)
  | [] => .ok place.reverse
  | part :: rest =>
      match t.itemAt place.reverse with
      | some .directory => t.walk (if part == ".." then place.tail else part :: place) rest
      | some (.file _) => .error .notADirectory
      | none => .error .notFound

def place (t : Tree) (p : Path) : Except Failure (List String) := t.walk [] (t.cwd.join p).parts

def lookup (t : Tree) (p : Path) : Option Item :=
  match t.place p with
  | .ok parts => t.itemAt parts
  | .error _ => none

def pathExists (t : Tree) (p : Path) : Bool := (t.lookup p).isSome

def isFile (t : Tree) (p : Path) : Bool := (t.lookup p).any Item.isFile

def read (t : Tree) (p : Path) : Except Error ByteArray :=
  match t.place p with
  | .error f => .error ⟨f, p⟩
  | .ok parts =>
      match t.itemAt parts with
      | some (.file bytes) => .ok bytes
      | some .directory => .error ⟨.isADirectory, p⟩
      | none => .error ⟨.notFound, p⟩

/-- The failure to make the directory `p` at a file on the way, with `rest` to come behind it. The
path is tried as a whole first; if directories had to be made, the file is met on its own path. -/
def obstacle (p : Path) (made : Bool) (rest : List String) : Error :=
  if made then ⟨.alreadyExists, { p with parts := p.parts.take (p.parts.length - rest.length) }⟩
  else ⟨if rest.isEmpty then .alreadyExists else .notADirectory, p⟩

/-- Follows parts to the directory `p` from a place, whose own parts come in reverse, and makes the
directories that are missing. They stay when the way ends at a file. -/
def makeAlong (p : Path) (t : Tree) (made : Bool) (place : List String) :
    List String → Option Error × Tree
  | [] => (none, t)
  | part :: rest =>
      if part == ".." then makeAlong p t made place.tail rest
      else
        match t.itemAt (part :: place).reverse with
        | some .directory => makeAlong p t made (part :: place) rest
        | some (.file _) => (some (obstacle p made rest), t)
        | none =>
            let t := { t with items := t.items.insert (part :: place).reverse .directory }
            makeAlong p t true (part :: place) rest

def makeDirectories (t : Tree) (p : Path) : Option Error × Tree :=
  makeAlong p t false [] (t.cwd.join p).parts

def makeDirectory (t : Tree) (p : Path) : Except Error Tree :=
  match t.makeDirectories p with
  | (none, t) => .ok t
  | (some e, _) => .error e

/-- Puts a file in place of whatever file is there. -/
def write (t : Tree) (p : Path) (bytes : ByteArray) : Except Error Tree :=
  match t.place p with
  | .error f => .error ⟨f, p⟩
  | .ok parts =>
      match t.itemAt parts with
      | some .directory => .error ⟨.isADirectory, p⟩
      | _ => .ok { t with items := t.items.insert parts (.file bytes) }

def create (t : Tree) (p : Path) (bytes : ByteArray) : Tree :=
  match t.place p with
  | .error _ => t
  | .ok parts =>
      match t.itemAt parts with
      | some _ => t
      | none => { t with items := t.items.insert parts (.file bytes) }

/-- A tree with a file in it, and the directories that lead there. -/
def withFile (t : Tree) (p : Path) (bytes : ByteArray) : Tree :=
  match t.makeDirectory (Path.resolve t.cwd p).parent with
  | .ok t => (t.write p bytes).toOption.getD t
  | .error _ => t

end Tree

end VisualNovel.Disk
