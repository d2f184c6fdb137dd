import VisualNovel.Script.Node

/-!
The state of a play session, and the frames in which it is shown.
-/
namespace VisualNovel.Playback

inductive View where
  | title
  | playing
deriving DecidableEq, Repr, Inhabited

def View.name : View → String
  | title => "title"
  | playing => "playing"

/-- How a session goes on without input. Auto play and fast forward exclude each other. -/
inductive Pacing where
  | manual
  | auto
  | fastForward
deriving DecidableEq, Repr, Inhabited

def Pacing.name : Pacing → String
  | manual => "manual"
  | auto => "auto"
  | fastForward => "fast_forward"

inductive Reveal where
  | revealing
  | revealed
deriving DecidableEq, Repr, Inhabited

def Reveal.name : Reveal → String
  | revealing => "revealing"
  | revealed => "revealed"

/-- The defaults are the state of the title screen. -/
structure Session where
  view : View := .title
  /-- The node on screen. -/
  current : Option String := none
  /-- The nodes visited before, the oldest first. -/
  history : List String := []
  /-- How many characters of the current text are shown. -/
  progress : Nat := 0
  reveal : Reveal := .revealed
  pacing : Pacing := .manual
  historyOpen : Bool := false
  /-- The session is about to return to the title. -/
  ending : Bool := false
  /-- The effect of the current node, until it has been played. -/
  effect : Option Effect := none
deriving DecidableEq, Inhabited

/-- Everything that is needed to draw the screen. -/
structure Frame where
  view : View
  nodeId : Option String := none
  speaker : Option String := none
  text : String := ""
  fullText : String := ""
  background : Option String := none
  cg : Option String := none
  video : Option String := none
  sprites : List Sprite := []
  choices : List Choice := []
  effect : Option Effect := none
  autoPlay : Bool := false
  fastForward : Bool := false
  historyOpen : Bool := false
  reveal : Reveal := .revealed
  ending : Bool := false
deriving DecidableEq, Inhabited

def Frame.isRevealed (f : Frame) : Bool := f.reveal == .revealed

def prefixOf (text : String) (count : Nat) : String := String.ofList (text.toList.take count)

def Session.frameAt (s : Session) (n : Node) : Frame where
  view := s.view
  nodeId := some n.id
  speaker := n.speaker
  text := prefixOf n.text s.progress
  fullText := n.text
  background := n.background
  cg := n.cg
  video := n.video
  sprites := n.sprites
  choices := if s.reveal = .revealed then n.choices else []
  effect := s.effect
  autoPlay := s.pacing == .auto
  fastForward := s.pacing == .fastForward
  historyOpen := s.historyOpen
  reveal := s.reveal
  ending := s.ending

/-- One line of the history browser. -/
structure BacklogEntry where
  index : Nat
  nodeId : String
  speaker : Option String
  text : String
deriving DecidableEq, Inhabited

end VisualNovel.Playback
