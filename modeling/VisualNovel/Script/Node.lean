import VisualNovel.KeyedList
import VisualNovel.Number

/-!
Compiled scripts: nodes, each a full picture of one beat of the story, and the links between them.
-/
namespace VisualNovel

/-- Where a character sprite stands. -/
inductive Position where
  | left
  | center
  | right
  | centerClose
deriving DecidableEq, Repr, Inhabited

def Position.name : Position → String
  | left => "left"
  | center => "center"
  | right => "right"
  | centerClose => "center-close"

def Position.all : List Position := [left, center, right, centerClose]

def Position.ofName? (s : String) : Option Position := all.find? (·.name == s)

/-- Visual emphasis of a choice. -/
inductive ChoiceStyle where
  | normal
  | danger
  | special
deriving DecidableEq, Repr, Inhabited

def ChoiceStyle.name : ChoiceStyle → String
  | normal => "normal"
  | danger => "danger"
  | special => "special"

def ChoiceStyle.all : List ChoiceStyle := [normal, danger, special]

def ChoiceStyle.ofName? (s : String) : Option ChoiceStyle := all.find? (·.name == s)

/-- A cue that is played once, when a node is entered. -/
inductive Effect where
  | shake
  | flash
  | fadeToBlack
deriving DecidableEq, Repr, Inhabited

def Effect.name : Effect → String
  | shake => "shake"
  | flash => "flash"
  | fadeToBlack => "fade-to-black"

def Effect.all : List Effect := [shake, flash, fadeToBlack]

def Effect.ofName? (s : String) : Option Effect := all.find? (·.name == s)

def fullOpacity : Number := .ofFloat 1.0

/-- A character image in front of the background. Its opacity lies between zero and one. -/
structure Sprite where
  image : String
  position : Position := .center
  opacity : Number := fullOpacity
deriving DecidableEq, Inhabited

structure Choice where
  text : String
  target : String
  style : ChoiceStyle := .normal
deriving DecidableEq, Inhabited

/-- The target that ends a session instead of naming a node. -/
def endTarget : String := "END"

structure Node where
  id : String
  text : String := ""
  speaker : Option String := none
  background : Option String := none
  cg : Option String := none
  video : Option String := none
  sprites : List Sprite := []
  next : Option String := none
  choices : List Choice := []
  effect : Option Effect := none
deriving DecidableEq, Inhabited

namespace Node

/-- Going on needs a choice of the player. -/
def isDecision (n : Node) : Bool := !n.choices.isEmpty

def isTerminal (n : Node) : Bool := n.choices.isEmpty && n.next.isNone

/-- Going on returns to the title. -/
def endsSession (n : Node) : Bool := n.choices.isEmpty && n.next == some endTarget

/-- An empty identifier shows no video. -/
def hasVideo (n : Node) : Bool :=
  match n.video with
  | some v => !v.isEmpty
  | none => false

/-- The targets a player can move to. Choices take precedence over the next node. -/
def successors (n : Node) : List String :=
  if n.choices.isEmpty then n.next.toList else n.choices.map (·.target)

/-- Equality of everything that is shown; opacities are compared as numbers. -/
def same (a b : Node) : Bool :=
  decide ({ a with sprites := [] } = { b with sprites := [] }) &&
    a.sprites.length == b.sprites.length &&
    (a.sprites.zip b.sprites).all fun (s, t) =>
      s.image == t.image && s.position == t.position && s.opacity.same t.opacity

end Node

/-- Nodes under their keys, in the order in which the keys first came up. -/
structure Script where
  nodes : KeyedList String Node := ∅
  startId : String := "start"
deriving Inhabited

namespace Script

def get? (s : Script) (id : String) : Option Node := s.nodes.get? id

def contains (s : Script) (id : String) : Bool := s.nodes.contains id

def size (s : Script) : Nat := s.nodes.size

def start? (s : Script) : Option Node := s.get? s.startId

/-- The node a target stands for. What is not a node falls back to the start, and the end target
never is one. -/
def resolve (s : Script) (target : Option String) : Option Node :=
  match target with
  | none => s.start?
  | some id => if id = endTarget then s.start? else (s.get? id).orElse fun _ => s.start?

/-- Equality of scripts, whatever the order of their nodes. -/
def same (a b : Script) : Bool :=
  a.startId == b.startId && a.size == b.size &&
    a.nodes.entries.all fun (id, node) =>
      match b.get? id with
      | some other => node.same other
      | none => false

end Script

end VisualNovel
