import VisualNovel.Text.Search

/-!
Paths of files. Reading a path drops empty parts and single points; double points stay until the
path is made absolute.
-/
namespace VisualNovel.Disk

structure Path where
  isAbsolute : Bool
  parts : List String
deriving DecidableEq, Repr, Inhabited

namespace Path

def ofText (s : String) : Path where
  isAbsolute := s.toList.head? == some '/'
  parts := ((Text.splitWhere (· == '/') s.toList).map String.ofList).filter fun part =>
    part != "" && part != "."

/-- Whether a written path can only name a directory. Reading it as a path forgets that. -/
def namesDirectory (s : String) : Bool :=
  s.endsWith "/" || s.endsWith "/." || s.endsWith "/.."

def text (p : Path) : String :=
  let joined := String.intercalate "/" p.parts
  if p.isAbsolute then "/" ++ joined
  else if p.parts.isEmpty then "."
  else joined

/-- The second path as seen from the first. -/
def join (p q : Path) : Path := if q.isAbsolute then q else { p with parts := p.parts ++ q.parts }

def child (p : Path) (name : String) : Path := { p with parts := p.parts ++ [name] }

def parent (p : Path) : Path := { p with parts := p.parts.dropLast }

def name (p : Path) : String := p.parts.getLastD ""

/-- Goes up once per double point; above the root there is only the root. -/
def goUp (kept : List String) : List String → List String
  | [] => kept.reverse
  | part :: rest => if part == ".." then goUp kept.tail rest else goUp (part :: kept) rest

def resolve (cwd p : Path) : Path := { isAbsolute := true, parts := goUp [] (cwd.join p).parts }

/-- The last point of a name and what follows it; a point at either end does not count. -/
def suffix (p : Path) : String :=
  let reversed := p.name.toList.reverse
  let extension := reversed.takeWhile (· != '.')
  match reversed.dropWhile (· != '.') with
  | _ :: _ :: _ => if extension.isEmpty then "" else String.ofList ('.' :: extension.reverse)
  | _ => ""

end Path

end VisualNovel.Disk
