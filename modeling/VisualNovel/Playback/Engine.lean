import VisualNovel.Playback.Timing
import VisualNovel.Save.Repository
import VisualNovel.Script.Line
import VisualNovel.Timer.Running

/-!
The playback engine: one session over a compiled script, driven by the player's requests and by
timers. Every request is a function from one state to the next. It says whether observers are to be
told, which is always the last thing a request does; a request that is refused changes nothing.

Timers carry the generation in which they were set. Whatever makes a timer obsolete also starts a
new generation, so a timer that outlives its purpose does nothing when it runs.
-/
namespace VisualNovel.Playback

inductive AlarmKind where
  /-- One more character of the text appears. -/
  | revealTick
  /-- Automatic pacing goes on to the next node. -/
  | pacingFire
  /-- An ending returns to the title. -/
  | titleReturn
deriving DecidableEq, Repr, Inhabited

structure Alarm where
  generation : Nat
  kind : AlarmKind
deriving DecidableEq, Repr, Inhabited

structure Engine (τ ν : Type) where
  script : Script
  timing : Timing τ
  saves : Option (Save.Repository ν) := none
  agenda : Timer.Agenda τ Alarm
  session : Session := {}
  generation : Nat := 0
  revealTimer : Option Nat := none
  pacingTimer : Option Nat := none
  titleTimer : Option Nat := none

variable {τ ν : Type}

instance : Timer.HasAgenda (Engine τ ν) τ Alarm where
  agenda e := e.agenda
  withAgenda e a := { e with agenda := a }

/-- A state, and whether observers are to be told of it. -/
structure Change (τ ν : Type) where
  engine : Engine τ ν
  told : Bool

namespace Engine

def currentNode (e : Engine τ ν) : Option Node :=
  if e.session.view = .playing then e.session.current.bind e.script.get? else none

def frame (e : Engine τ ν) : Frame :=
  match e.currentNode with
  | some node => e.session.frameAt node
  | none => { view := e.session.view }

def backlog (e : Engine τ ν) : List BacklogEntry :=
  (e.session.history.zipIdx 0).map fun (id, index) =>
    match e.script.get? id with
    | some node => ⟨index, id, node.speaker, node.text⟩
    | none => ⟨index, id, none, ""⟩

def quiet (e : Engine τ ν) : Change τ ν := ⟨e, false⟩

def announced (e : Engine τ ν) : Change τ ν := ⟨e, true⟩

def cancelTimers (e : Engine τ ν) : Engine τ ν :=
  let held := e.revealTimer.toList ++ e.pacingTimer.toList ++ e.titleTimer.toList
  { e with
    generation := e.generation + 1
    agenda := held.foldl Timer.Agenda.cancel e.agenda
    revealTimer := none
    pacingTimer := none
    titleTimer := none }

variable [Zero τ] [Add τ] [Mul τ] [NatCast τ] [LT τ] [DecidableLT τ]

def schedule (e : Engine τ ν) (delay : τ) (kind : AlarmKind) : Nat × Engine τ ν :=
  let (order, agenda) := e.agenda.callLater delay ⟨e.generation, kind⟩
  (order, { e with agenda })

def armReveal (e : Engine τ ν) : Engine τ ν :=
  let (order, e) := e.schedule (e.timing.revealIntervalFor e.session.pacing) .revealTick
  { e with revealTimer := some order }

/-- How long automatic pacing stays on a node whose text is revealed. -/
def pacingDelay (e : Engine τ ν) (node : Node) : Option τ :=
  match e.session.pacing with
  | .manual => none
  | .auto => some (e.timing.autoDelay node.text.length)
  | .fastForward => some e.timing.fastForwardDelay

/-- Automatic pacing never passes a choice or a video, nor an ending under way. -/
def waitsForPlayer (e : Engine τ ν) (node : Node) : Bool :=
  e.session.ending || e.session.reveal != .revealed || node.isDecision || node.hasVideo

def armPacing (e : Engine τ ν) : Engine τ ν :=
  match e.currentNode with
  | none => e
  | some node =>
      if e.waitsForPlayer node then e
      else
        match e.pacingDelay node with
        | none => e
        | some delay =>
            let e := { e with agenda := e.pacingTimer.toList.foldl Timer.Agenda.cancel e.agenda }
            let (order, e) := e.schedule delay .pacingFire
            { e with pacingTimer := some order }

/-- Shows a node from its first character on. -/
def enter (e : Engine τ ν) (node : Node) : Change τ ν :=
  let e := e.cancelTimers
  let session := { e.session with
    current := some node.id, progress := 0, effect := node.effect, ending := false }
  if node.text.isEmpty then
    announced { e with session := { session with reveal := .revealed } }.armPacing
  else
    announced { e with session := { session with reveal := .revealing } }.armReveal

def navigate (e : Engine τ ν) (node : Node) : Change τ ν :=
  let session := { e.session with history := e.session.history ++ e.session.current.toList }
  { e with session }.enter node

def returnToTitle (e : Engine τ ν) : Change τ ν :=
  announced { e.cancelTimers with session := {} }

def beginSession (e : Engine τ ν) (node : Node) : Change τ ν :=
  { e.cancelTimers with session := { view := .playing } }.enter node

def completeReveal (e : Engine τ ν) : Change τ ν :=
  let e := e.cancelTimers
  let progress := (e.currentNode.map (·.text.length)).getD 0
  announced { e with session := { e.session with progress, reveal := .revealed } }.armPacing

def beginEnding (e : Engine τ ν) : Change τ ν :=
  let e := e.cancelTimers
  let e := { e with session := { e.session with pacing := .manual, ending := true } }
  let (order, e) := e.schedule e.timing.endGrace .titleReturn
  announced { e with titleTimer := some order }

def setPacing (e : Engine τ ν) (pacing : Pacing) : Change τ ν :=
  if e.session.view ≠ .playing ∨ e.session.ending ∨ e.session.pacing = pacing then quiet e
  else
    let e := { e with session := { e.session with pacing } }.cancelTimers
    announced (if e.session.reveal = .revealing then e.armReveal else e.armPacing)

def newGame (e : Engine τ ν) : Except Fault (Change τ ν) :=
  match e.script.start? with
  | some node => .ok (e.beginSession node)
  | none => .error (.noStart e.script.startId)

/-- Goes past a video. A video whose successor is missing stays where it is. -/
def passVideo (e : Engine τ ν) (node : Node) : Change τ ν :=
  if node.next = some endTarget then e.returnToTitle
  else
    match (node.next.bind Line.nonempty).bind e.script.get? with
    | some target => e.navigate target
    | none => quiet e

def successor (e : Engine τ ν) (node : Node) : Option Node :=
  match node.next with
  | some id => if id = endTarget then none else e.script.get? id
  | none => none

/-- The one request to go on: skips a video, completes a text, stops automatic pacing in front of
choices, moves to the next node or begins the ending. -/
def advance (e : Engine τ ν) : Change τ ν :=
  match e.currentNode with
  | none => quiet e
  | some node =>
      if e.session.ending then quiet e
      else if node.hasVideo then e.passVideo node
      else if e.session.reveal = .revealing then e.completeReveal
      else if node.isDecision then e.setPacing .manual
      else
        match e.successor node with
        | some target => e.navigate target
        | none => e.beginEnding

/-- Follows a choice; what it leads to may be missing together with the start. -/
def follow (e : Engine τ ν) (choice : Choice) : Change τ ν :=
  match e.script.resolve (some choice.target) with
  | some target => { e with session := { e.session with pacing := .manual } }.navigate target
  | none => e.returnToTitle

def selectChoice (e : Engine τ ν) (index : Int) : Except Fault (Change τ ν) :=
  match e.currentNode with
  | none => .error (.noChoiceOffered e.session.current)
  | some node =>
      if e.session.ending || !node.isDecision then .error (.noChoiceOffered e.session.current)
      else if e.session.reveal ≠ .revealed then .error (.choicesHidden node.id)
      else
        match if 0 ≤ index then node.choices[index.toNat]? else none with
        | some choice => .ok (e.follow choice)
        | none => .error (.noSuchChoice index node.id node.choices.length)

/-- Switches a mode on, or off if it is on. -/
def setMode (e : Engine τ ν) (mode : Pacing) (enabled : Bool) : Change τ ν :=
  if enabled then e.setPacing mode
  else if e.session.pacing = mode then e.setPacing .manual
  else quiet e

def setAutoPlay (e : Engine τ ν) (enabled : Bool) : Change τ ν := e.setMode .auto enabled

def setFastForward (e : Engine τ ν) (enabled : Bool) : Change τ ν := e.setMode .fastForward enabled

def toggleAutoPlay (e : Engine τ ν) : Change τ ν := e.setAutoPlay (e.session.pacing != .auto)

def toggleFastForward (e : Engine τ ν) : Change τ ν :=
  e.setFastForward (e.session.pacing != .fastForward)

def acknowledgeEffect (e : Engine τ ν) : Change τ ν :=
  if e.session.effect.isNone then quiet e
  else announced { e with session := { e.session with effect := none } }

def openHistory (e : Engine τ ν) : Change τ ν :=
  if e.session.view ≠ .playing ∨ e.session.historyOpen then quiet e
  else announced { e with session := { e.session with historyOpen := true } }

def closeHistory (e : Engine τ ν) : Change τ ν :=
  if e.session.historyOpen then
    announced { e with session := { e.session with historyOpen := false } }
  else quiet e

inductive JumpError where
  | fault (f : Fault)
  | outOfRange (index : Int)
deriving Inhabited

/-- Goes back to an entry of the history and forgets it and all that came after it. -/
def jumpToHistory (e : Engine τ ν) (index : Int) : Except JumpError (Change τ ν) :=
  if e.session.view ≠ .playing then .error (.fault .noSession)
  else
    match if 0 ≤ index then e.session.history[index.toNat]? else none with
    | none => .error (.outOfRange index)
    | some id =>
        let history := e.session.history.take index.toNat
        let e := { e with session := { e.session with history } }
        match e.script.resolve (some id) with
        | none => .ok e.returnToTitle
        | some node =>
            .ok ({ e with session :=
              { e.session with historyOpen := false, pacing := .manual } }.enter node)

def revealTick (e : Engine τ ν) : Change τ ν :=
  let e := { e with revealTimer := none }
  match e.currentNode with
  | none => quiet e
  | some node =>
      let length := node.text.length
      let progress := min (e.session.progress + 1) length
      let session := { e.session with progress }
      if length ≤ progress then
        announced { e with session := { session with reveal := .revealed } }.armPacing
      else announced { e with session }.armReveal

/-- What a timer does when it runs. Timers of an older generation do nothing. -/
def fire (e : Engine τ ν) (alarm : Alarm) : Change τ ν :=
  if alarm.generation ≠ e.generation then quiet e
  else
    match alarm.kind with
    | .revealTick => e.revealTick
    | .pacingFire => { e with pacingTimer := none }.advance
    | .titleReturn => e.returnToTitle

variable [Save.KeyValueStore ν]

inductive SaveRefusal where
  | failure (f : Save.Failure)
  /-- The node has no name that a slot could keep. -/
  | namelessNode
deriving Inhabited

def storage (e : Engine τ ν) : Except Fault (Save.Repository ν) :=
  match e.saves with
  | some r => .ok r
  | none => .error .noSaveStorage

def slotFor (e : Engine τ ν) (id : Int) (node : Node) (stamp : Calendar.Moment) : Save.Slot where
  id := id
  nodeId := node.id
  preview := Text.RawText.ofString (preview e.timing.previewLength node.text)
  stamp := stamp
  background := node.background.map .ofString

/-- The node to save, once the request itself is in order. -/
def saveTarget (e : Engine τ ν) (id : Int) : Except Fault (Save.Repository ν × Node) := do
  let repository ← e.storage
  repository.checkSlot id
  match e.currentNode with
  | some node => return (repository, node)
  | none => throw .nothingToSave

/-- Records the current position in a slot, in place of what was there. -/
def save (e : Engine τ ν) (room : Nat) (id : Int) (stamp : Calendar.Moment) :
    Except SaveRefusal (Save.Slot × Engine τ ν) := do
  let (repository, node) ← (e.saveTarget id).mapError fun f => .failure (.fault f)
  if node.id.isEmpty then throw .namelessNode
  let slot := e.slotFor id node stamp
  let repository ← (repository.put room slot).mapError .failure
  return (slot, { e with saves := some repository })

/-- Resumes the session that a slot holds, with an empty history. -/
def load (e : Engine τ ν) (room : Nat) (id : Int) : Except Save.Failure (Change τ ν) := do
  let repository ← e.storage.mapError .fault
  match ← repository.get room id with
  | none => throw (.fault (.emptySlot id))
  | some slot =>
      match e.script.get? slot.nodeId with
      | none => throw (.fault (.incompatibleSave id slot.nodeId))
      | some node => return e.beginSession node

end Engine

end VisualNovel.Playback
