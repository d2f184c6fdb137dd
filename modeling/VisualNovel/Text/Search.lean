/-!
Finding one text inside another: the first place it occurs, replacing that place, and cutting a
text at every occurrence of a character.
-/
namespace VisualNovel.Text

/-- The characters before the first occurrence of `pattern` and those after it. -/
def splitAtFirst (pattern : List Char) : List Char → Option (List Char × List Char)
  | [] => if pattern.isEmpty then some ([], []) else none
  | c :: rest =>
      if pattern.isPrefixOf (c :: rest) then some ([], (c :: rest).drop pattern.length)
      else (splitAtFirst pattern rest).map fun (before, after) => (c :: before, after)

def contains (s pattern : String) : Bool := (splitAtFirst pattern.toList s.toList).isSome

def replaceFirst (s pattern replacement : String) : String :=
  match splitAtFirst pattern.toList s.toList with
  | some (before, after) =>
      String.ofList before ++ replacement ++ String.ofList after
  | none => s

/-- The pieces between the characters that satisfy `cut`, empty pieces included. -/
def splitWhere (cut : Char → Bool) : List Char → List (List Char)
  | [] => [[]]
  | c :: rest =>
      if cut c then [] :: splitWhere cut rest
      else
        match splitWhere cut rest with
        | piece :: pieces => (c :: piece) :: pieces
        | [] => [[c]]

def lines (s : String) : List String :=
  (splitWhere (· == '\n') s.toList).map String.ofList

end VisualNovel.Text
