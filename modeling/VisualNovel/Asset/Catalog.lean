import VisualNovel.KeyedList
import VisualNovel.Text.Blank
import VisualNovel.Text.Casing

/-!
Catalogues of media. A script refers to media by symbolic names, which are compared without regard
to letter case and to blanks around them.
-/
namespace VisualNovel

namespace Asset

inductive Category where
  | background
  | sprite
  | cg
  | video
deriving DecidableEq, Repr, Inhabited

def Category.name : Category → String
  | background => "BG"
  | sprite => "LH"
  | cg => "CG"
  | video => "VIDEO"

def Category.all : List Category := [background, sprite, cg, video]

def Category.ofName? (s : String) : Option Category := all.find? (·.name == s)

def foldedName (name : String) : String := Text.fold (Text.trim name)

/-- A name as it was first written, and the media identifier it stands for now. -/
structure Listing where
  name : String
  identifier : String
deriving DecidableEq, Repr, Inhabited

structure Catalog where
  shelf : Category → KeyedList String Listing

namespace Catalog

def empty : Catalog := ⟨fun _ => ∅⟩

instance : EmptyCollection Catalog := ⟨empty⟩

instance : Inhabited Catalog := ⟨empty⟩

/-- Adds a listing. A name that is already there keeps its first spelling and takes the new
identifier. -/
def add (c : Catalog) (category : Category) (name identifier : String) : Catalog where
  shelf k :=
    if k = category then
      let key := foldedName name
      let first := ((c.shelf k).get? key).elim name (·.name)
      (c.shelf k).insert key ⟨first, identifier⟩
    else c.shelf k

def addAll (c : Catalog) (category : Category) (entries : List (String × String)) : Catalog :=
  entries.foldl (fun c (name, identifier) => c.add category name identifier) c

/-- The identifier of a name; a blank name has none. -/
def resolve (c : Catalog) (category : Category) (name : Option String) : Option String :=
  match name with
  | none => none
  | some name =>
      if (Text.trim name).isEmpty then none
      else ((c.shelf category).get? (foldedName name)).map (·.identifier)

def names (c : Catalog) (category : Category) : List String :=
  (c.shelf category).values.map (·.name)

def size (c : Catalog) : Nat := Category.all.foldl (fun n k => n + (c.shelf k).size) 0

end Catalog

end Asset

end VisualNovel
