import VisualNovel.Asset.Catalog
import VisualNovel.Script.Diagnostic
import VisualNovel.Script.Line

/-!
From script markup to nodes, in one pass over the lines. Dialogue makes nodes. Labels, commands
and choices change what the next node will look like, or where the latest node leads. No text is
refused: a line that cannot be followed is reported and otherwise ignored.
-/
namespace VisualNovel

structure Compiler where
  catalog : Asset.Catalog := ∅
  /-- The identifier of the first node, unless a label comes first. -/
  startId : String := "start"
  /-- The name of the background before any background command. -/
  defaultBackground : Option String := none

namespace Compile

/-- What one line leaves behind for the lines after it. -/
structure Carry where
  background : Option String := none
  sprites : List Sprite := []
  cg : Option String := none
  video : Option String := none
  effect : Option Effect := none
  /-- The identifier that the next dialogue line will take. -/
  pendingLabel : Option String := none
  /-- The node of the latest dialogue line. -/
  previous : Option String := none
  /-- The next number for a generated identifier. -/
  counter : Nat := 0
deriving DecidableEq, Inhabited

namespace Carry

/-- A new place ends whatever was shown in front of the old one. -/
def withBackground (c : Carry) (image : String) : Carry :=
  { c with background := some image, cg := none, video := none }

/-- A sprite takes the stage alone and dismisses the full-screen picture. -/
def withSprite (c : Carry) (sprite : Sprite) : Carry :=
  { c with sprites := [sprite], cg := none }

/-- A full-screen picture hides the sprites without dismissing them. -/
def visibleSprites (c : Carry) : List Sprite :=
  match c.cg with
  | some cg => if cg.isEmpty then c.sprites else []
  | none => c.sprites

/-- Video, effect and label serve one node only. -/
def afterNode (c : Carry) (id : String) : Carry :=
  { c with video := none, effect := none, pendingLabel := none, previous := some id }

end Carry

/-- The state of a compilation between two lines. -/
structure Progress where
  carry : Carry
  drafts : KeyedList String Node := ∅
  found : List Diagnostic := []
deriving Inhabited

/-- A line with its number, counted from one. -/
structure Located where
  number : Nat
  text : String
deriving DecidableEq, Inhabited

def warning (here : Located) (code message : String) : Diagnostic :=
  ⟨.warning, code, message, some here.number, some here.text⟩

namespace Progress

def report (p : Progress) (here : Located) (code message : String) : Progress :=
  { p with found := p.found ++ [warning here code message] }

/-- Changes the node of the latest dialogue line, if there is one. -/
def updatePrevious (p : Progress) (f : Node → Node) : Progress :=
  match p.carry.previous with
  | some id => { p with drafts := p.drafts.modify id f }
  | none => p

end Progress

/-- Gives a node its successor unless it has one, or choices, already. -/
def linkIfOpen (target : String) (n : Node) : Node :=
  if n.isTerminal then { n with next := some target } else n

def applyLabel (p : Progress) (here : Located) (name : String) : Progress :=
  if name.isEmpty then p.report here "empty-label" "Label has no name"
  else
    let p := p.updatePrevious (linkIfOpen name)
    { p with carry := { p.carry with pendingLabel := some name } }

def unknownAsset (p : Progress) (here : Located) (category : Asset.Category) (name : String) :
    Progress :=
  p.report here "unresolved-asset" s!"Unknown {category.name} asset '{name}' ignored"

def applySprite (catalog : Asset.Catalog) (p : Progress) (here : Located) (value : String) :
    Progress :=
  match Line.spriteArgument value with
  | .clear => { p with carry := { p.carry with sprites := [] } }
  | .show name position =>
      match catalog.resolve .sprite (some name) with
      | none => unknownAsset p here .sprite name
      | some image =>
          match position with
          | some position =>
              { p with carry := p.carry.withSprite { image, position } }
          | none =>
              let p := p.report here "unknown-sprite-position"
                "Unknown sprite position, using center"
              { p with carry := p.carry.withSprite { image } }

def applyCommand (catalog : Asset.Catalog) (p : Progress) (here : Located)
    (command : Line.Command) : Progress :=
  match command.kind with
  | .background =>
      match catalog.resolve .background (some command.value) with
      | some image => { p with carry := p.carry.withBackground image }
      | none => unknownAsset p here .background command.value
  | .sprite => applySprite catalog p here command.value
  | .cg =>
      match catalog.resolve .cg (some command.value) with
      | some image => { p with carry := { p.carry with cg := some image } }
      | none => unknownAsset p here .cg command.value
  | .video =>
      match catalog.resolve .video (some command.value) with
      | some video => { p with carry := { p.carry with video := some video } }
      | none => unknownAsset p here .video command.value
  | .effect =>
      match Line.effect? command.value with
      | some effect => { p with carry := { p.carry with effect := some effect } }
      | none => p.report here "unknown-effect" s!"Unknown effect '{command.value}' ignored"
  | .returnTitle =>
      if p.carry.previous.isSome then
        p.updatePrevious fun n => { n with next := some endTarget }
      else
        p.report here "orphan-return-title"
          "Return-to-title before any dialogue line was ignored"

def choiceTargetStem : String := "auto_choice_"

def nodeStem : String := "node_"

def addChoice (p : Progress) (text target : String) : Progress :=
  p.updatePrevious fun n =>
    { n with choices := n.choices ++ [⟨text, target, Line.choiceStyle text⟩] }

def applyChoice (p : Progress) (here : Located) (choice : Line.ChoiceLine) : Progress :=
  if p.carry.previous.isNone then
    p.report here "orphan-choice" "Choice before any dialogue line was dropped"
  else
    match choice.target with
    | some target => addChoice p choice.text target
    | none =>
        let target := choiceTargetStem ++ toString p.carry.counter
        let p := addChoice p choice.text target
        { p with carry := { p.carry with counter := p.carry.counter + 1 } }

/-- Takes the identifier of the next node: the pending label, or a generated one. -/
def takeId (c : Carry) : String × Carry :=
  match c.pendingLabel with
  | some label => (label, c)
  | none => (nodeStem ++ toString c.counter, { c with counter := c.counter + 1 })

/-- The node that shows a line of dialogue in front of everything set up so far. -/
def snapshot (c : Carry) (id : String) (dialogue : Line.Dialogue) : Node where
  id := id
  text := dialogue.text
  speaker := dialogue.speaker
  background := c.background
  cg := c.cg
  video := c.video
  sprites := c.visibleSprites
  effect := c.effect

def applyDialogue (p : Progress) (here : Located) (dialogue : Line.Dialogue) : Progress :=
  let (id, carry) := takeId p.carry
  let p := { p with carry }
  let p := p.updatePrevious (linkIfOpen id)
  let p :=
    if p.drafts.contains id then
      p.report here "duplicate-node-id" s!"Node '{id}' redefined; the later definition wins"
    else p
  { p with
    drafts := p.drafts.insert id (snapshot p.carry id dialogue)
    carry := p.carry.afterNode id }

/-- One line that is trimmed and not empty. -/
def applyLine (catalog : Asset.Catalog) (p : Progress) (here : Located) : Progress :=
  match Line.read here.text with
  | .label name => applyLabel p here name
  | .command command => applyCommand catalog p here command
  | .choice choice => applyChoice p here choice
  | .dialogue dialogue => applyDialogue p here dialogue

/-- The lines of a text that say something, trimmed, with their numbers. -/
def locatedLines (text : String) : List Located :=
  (((Text.lines text).zipIdx 1).map fun (line, number) => ⟨number, Text.trim line⟩).filter
    fun here => !here.text.isEmpty

def initial (c : Compiler) : Progress where
  carry := {
    background := c.catalog.resolve .background c.defaultBackground
    pendingLabel := Line.nonempty c.startId }

def isDangling (nodes : KeyedList String Node) (choice : Choice) : Bool :=
  choiceTargetStem.toList.isPrefixOf choice.target.toList && !nodes.contains choice.target

/-- Choices that were given a target of their own which no label ever defined. -/
def danglingChoices (nodes : KeyedList String Node) : List Diagnostic :=
  nodes.values.flatMap fun node =>
    (node.choices.filter (isDangling nodes)).map fun choice =>
      { severity := .warning
        code := "dangling-choice-target"
        message := s!"Choice '{choice.text}' in node '{node.id}' has no target label; " ++
          s!"add '# {choice.target}'" }

end Compile

structure Compilation where
  script : Script
  diagnostics : List Diagnostic
deriving Inhabited

def Compilation.warnings (c : Compilation) : List Diagnostic :=
  c.diagnostics.filter (·.severity == .warning)

def Compiler.run (c : Compiler) (text : String) : Compile.Progress :=
  (Compile.locatedLines text).foldl (Compile.applyLine c.catalog) (Compile.initial c)

def Compiler.compile (c : Compiler) (text : String) : Compilation :=
  let p := c.run text
  { script := ⟨p.drafts, c.startId⟩
    diagnostics := p.found ++ Compile.danglingChoices p.drafts }

end VisualNovel
