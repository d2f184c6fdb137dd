import VisualNovel.Playback.Session
import VisualNovel.Terminal.Console

/-!
What a player sees of a frame. A node is shown once its text is complete, and once per visit: the
frame before tells whether it has been shown already.
-/
namespace VisualNovel.Terminal

open Playback

def nonempty (s : Option String) : Option String := s.filter (!·.isEmpty)

def spriteText (s : Sprite) : String := s.image ++ "@" ++ s.position.name

/-- The pictures of a frame, as labelled markup. -/
def pictures (f : Frame) : List String :=
  ((nonempty f.background).map fun b => "bg: " ++ Text.escape b).toList ++
    ((nonempty f.cg).map fun c => "cg: " ++ Text.escape c).toList ++
    if f.sprites.isEmpty then []
    else ["sprites: " ++ Text.escape (String.intercalate ", " (f.sprites.map spriteText))]

def pictureLine (f : Frame) : List Printed :=
  match pictures f with
  | [] => []
  | shown => [styledLine "dim" ("\\[" ++ String.intercalate " | " shown ++ "]")]

def effectLine (f : Frame) : List Printed :=
  (f.effect.map fun e => styledLine "magenta" ("*" ++ e.name ++ "*")).toList

def videoLine (f : Frame) : List Printed :=
  ((nonempty f.video).map fun v =>
    Printed.line (styled "blue" ("▶ " ++ Text.escape v) ++ " " ++
      styled "dim" "(Enter to continue)")).toList

/-- Spoken lines name the speaker; narration without words shows nothing. -/
def textLine (f : Frame) : List Printed :=
  match nonempty f.speaker with
  | some speaker => [.line (styled "bold" (Text.escape speaker) ++ ": " ++ Text.escape f.text)]
  | none => if f.text.isEmpty then [] else [styledLine "italic" (Text.escape f.text)]

def choiceColour : ChoiceStyle → String
  | .normal => "cyan"
  | .danger => "red"
  | .special => "yellow"

def choiceLine (number : Nat) (c : Choice) : Printed :=
  .line ("  " ++ styled (choiceColour c.style) (toString number ++ ". " ++ Text.escape c.text))

def choiceLines (f : Frame) : List Printed :=
  (f.choices.zipIdx 1).map fun (c, number) => choiceLine number c

def scene (f : Frame) : List Printed :=
  pictureLine f ++ effectLine f ++ videoLine f ++ textLine f ++ choiceLines f

def titleLine : Printed := .line (styled "dim" "~ Title screen ~" ++ "  (n: new game, q: quit)")

def endingLine : Printed := styledLine "dim" "~ The End ~"

def isPlaying (f : Frame) : Bool := f.view == .playing

/-- Whether a frame shows the node of the next one in full. -/
def hasShown (last next : Frame) : Bool :=
  isPlaying last && last.isRevealed && last.nodeId == next.nodeId

/-- What a frame adds to the screen after the one before it. -/
def additions (last : Option Frame) (f : Frame) : List Printed :=
  match f.view with
  | .title => if last.any isPlaying then [titleLine] else []
  | .playing =>
      if f.ending && !last.any (·.ending) then [endingLine]
      else if !f.isRevealed || last.any (hasShown · f) then []
      else scene f

end VisualNovel.Terminal
