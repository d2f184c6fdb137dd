import VisualNovel.Proofs.Script.Places

/-!
What a dialogue line is read in front of, told without compiling the text. A command that can be
followed is a cue: it puts something on stage, or takes it off. Of the cues that set a thing or end
it, the latest one counts. Commands that cannot be followed are no cues.
-/
namespace VisualNovel

inductive Cue where
  | background (image : String)
  | cg (image : String)
  | video (file : String)
  | sprite (sprite : Sprite)
  | clear
  | effect (effect : Effect)
deriving DecidableEq

namespace Cue

def background? : Cue → Option String
  | .background image => some image
  | _ => none

def cg? : Cue → Option String
  | .cg image => some image
  | _ => none

def video? : Cue → Option String
  | .video file => some file
  | _ => none

def sprite? : Cue → Option Sprite
  | .sprite shown => some shown
  | _ => none

def effect? : Cue → Option Effect
  | .effect played => some played
  | _ => none

/-- A new place or a character takes a full-screen picture off. -/
def endsCg : Cue → Bool
  | .background _ => true
  | .sprite _ => true
  | _ => false

def endsVideo : Cue → Bool
  | .background _ => true
  | _ => false

def endsSprite : Cue → Bool
  | .clear => true
  | _ => false

/-- What counts is the latest cue that sets a thing or ends it. -/
def standing {α : Type} (sets : Cue → Option α) (ends : Cue → Bool) (cues : List Cue) :
    Option α :=
  (cues.reverse.find? fun cue => (sets cue).isSome || ends cue).bind sets

/-- What the latest cue that sets a thing has set it to. -/
def latest {α : Type} (sets : Cue → Option α) (cues : List Cue) : Option α :=
  standing sets (fun _ => false) cues

theorem standing_concat {α : Type} (sets : Cue → Option α) (ends : Cue → Bool) (cues : List Cue)
    (cue : Cue) :
    standing sets ends (cues ++ [cue]) =
      if (sets cue).isSome || ends cue then sets cue else standing sets ends cues := by
  unfold standing
  rw [List.reverse_append, List.reverse_singleton, List.singleton_append, List.find?_cons]
  cases (sets cue).isSome || ends cue <;> rfl

theorem latest_concat {α : Type} (sets : Cue → Option α) (cues : List Cue) (cue : Cue) :
    latest sets (cues ++ [cue]) = (sets cue).or (latest sets cues) := by
  unfold latest
  rw [standing_concat, Bool.or_false]
  cases sets cue <;> rfl

end Cue

namespace Line

variable (catalog : Asset.Catalog)

/-- A position that does not exist is taken for the center. -/
def spriteCue? (value : String) : Option Cue :=
  match spriteArgument value with
  | .clear => some .clear
  | .show name position =>
      (catalog.resolve .sprite (some name)).map fun image =>
        .sprite { image, position := position.getD .center }

/-- A command can be followed if it names something that is known, or clears the sprites. -/
def Command.cue? (command : Line.Command) : Option Cue :=
  match command.kind with
  | .background => (catalog.resolve .background (some command.value)).map .background
  | .cg => (catalog.resolve .cg (some command.value)).map .cg
  | .video => (catalog.resolve .video (some command.value)).map .video
  | .sprite => spriteCue? catalog command.value
  | .effect => (Line.effect? command.value).map .effect
  | .returnTitle => none

def cue? : Line → Option Cue
  | .command c => c.cue? catalog
  | _ => none

/-- A command that is meant to change the stage, but cannot be followed. -/
def isIdle : Line → Bool
  | .command c => c.kind != .returnTitle && (c.cue? catalog).isNone
  | _ => false

end Line

/-- What is to be seen while a line of dialogue is read. -/
structure Scene where
  background : Option String
  cg : Option String
  video : Option String
  sprites : List Sprite
  effect : Option Effect
deriving DecidableEq

def Node.scene (node : Node) : Scene where
  background := node.background
  cg := node.cg
  video := node.video
  sprites := node.sprites
  effect := node.effect

namespace Place

def cues (catalog : Asset.Catalog) (lines : List Line) : List Cue :=
  lines.filterMap (Line.cue? catalog)

theorem cues_concat (catalog : Asset.Catalog) (lines : List Line) (line : Line) :
    cues catalog (lines ++ [line]) = cues catalog lines ++ (line.cue? catalog).toList := by
  unfold cues
  rw [List.filterMap_append]
  cases hcue : line.cue? catalog <;> simp [hcue]

/-- The scene of a dialogue line. Place, picture and sprites last until something else takes over;
videos and effects serve the next dialogue line only. A picture hides the sprites. -/
def scene (catalog : Asset.Catalog) (backdrop : Option String) (p : Place) : Scene :=
  let soFar := cues catalog p.before
  let sinceLast := cues catalog (sinceDialogue p.before)
  let cg := Cue.standing Cue.cg? Cue.endsCg soFar
  { background := (Cue.latest Cue.background? soFar).or (catalog.resolve .background backdrop)
    cg
    video := Cue.standing Cue.video? Cue.endsVideo sinceLast
    sprites :=
      if cg.any (!·.isEmpty) then [] else (Cue.standing Cue.sprite? Cue.endsSprite soFar).toList
    effect := Cue.latest Cue.effect? sinceLast }

end Place

end VisualNovel
