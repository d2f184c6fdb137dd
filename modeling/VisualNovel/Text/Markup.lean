/-!
Escaping for console markup. Square brackets that would be read as a tag get a backslash in
front, and backslashes that already stand there are doubled so that they stay visible.
-/
namespace VisualNovel.Text

def opensTag (c : Char) : Bool := ('a' ≤ c && c ≤ 'z') || c == '#' || c == '/' || c == '@'

/-- The inside of a tag up to its closing bracket, and what follows; a tag holds no `[`. -/
def tagBody : List Char → Option (List Char × List Char)
  | [] => none
  | ']' :: rest => some ([']'], rest)
  | '[' :: _ => none
  | c :: rest => (tagBody rest).map fun (body, after) => (c :: body, after)

/-- The tag at the front of a text, if one stands there. -/
def leadingTag : List Char → Option (List Char × List Char)
  | '[' :: c :: rest =>
      if opensTag c then (tagBody rest).map fun (body, after) => ('[' :: c :: body, after)
      else none
  | _ => none

/-- Reads the text with `slashes` backslashes waiting to be written. -/
def escapeFrom (slashes : Nat) : Nat → List Char → List Char
  | 0, cs => List.replicate slashes '\\' ++ cs
  | _ + 1, [] => List.replicate slashes '\\'
  | fuel + 1, c :: rest =>
      if c == '\\' then escapeFrom (slashes + 1) fuel rest
      else
        match leadingTag (c :: rest) with
        | some (tag, after) =>
            List.replicate (2 * slashes + 1) '\\' ++ tag ++ escapeFrom 0 fuel after
        | none => List.replicate slashes '\\' ++ c :: escapeFrom 0 fuel rest

/-- A lone backslash at the end would escape whatever is appended, so it is doubled too. -/
def escape (s : String) : String :=
  let body := escapeFrom 0 s.length s.toList
  match body.reverse with
  | '\\' :: '\\' :: _ => String.ofList body
  | '\\' :: _ => String.ofList (body ++ ['\\'])
  | _ => String.ofList body

end VisualNovel.Text
