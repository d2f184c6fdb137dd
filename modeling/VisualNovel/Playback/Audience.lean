import VisualNovel.Playback.Engine

/-!
An engine and those who watch it. Every change that is to be told is delivered as one frame to the
listeners subscribed at that moment, in the order of their subscriptions. A listener may make
requests of its own while it is being told; their frames are then delivered first, and the listeners
that are still to hear of the older change get the older frame.
-/
namespace VisualNovel.Playback

/-- How many collections can usually be opened one inside the other while a request is made. A
listener that makes requests of its own has less room for them. -/
def usualRoom : Nat := 900

inductive Call (τ : Type) where
  | newGame
  | title
  | advance
  | choose (index : Int)
  | auto (enabled : Bool)
  | fastForward (enabled : Bool)
  | toggleAuto
  | toggleFastForward
  | acknowledge
  | openHistory
  | closeHistory
  | jump (index : Int)
  | save (slot : Int) (room : Nat := usualRoom)
  | load (slot : Int) (room : Nat := usualRoom)
  | frame
  | backlog
  | current
  | wait (seconds : τ)
  | idle (limit : τ)
  | nextDue
  | slots (room : Nat := usualRoom)
  | storedText (room : Nat := usualRoom)
  | setStoredText (text : Text.RawText) (room : Nat := usualRoom)
  /-- Adds a listener that makes the calls of `reaction` when it is given a frame it `awaits`, as
  long as it has uses left. -/
  | subscribe (name : String) (awaits : Frame → Bool) (reaction : List (Call τ)) (uses : Nat)
  /-- Ends the latest subscription of a listener's name. -/
  | unsubscribe (name : String)

instance {τ : Type} : Inhabited (Call τ) := ⟨.advance⟩

inductive Reply (τ : Type) where
  | nothing
  | slot (s : Save.Slot)
  | frame (f : Frame)
  | backlog (entries : List BacklogEntry)
  | node (n : Option Node)
  | count (n : Nat)
  | due (time : Option τ)
  | slots (entries : List Save.Slot)
  | stored (text : Option Text.RawText)

inductive CallError where
  | fault (f : Fault)
  | saves (f : Save.Failure)
  | historyIndex (index : Int)
  | invalidSlot (fields : List String)
  | unknownListener (name : String)
  | noStorage
deriving Inhabited

structure Listener (τ : Type) where
  id : Nat
  name : String
  awaits : Frame → Bool
  reaction : List (Call τ)

/-- The moments at which saves are made: each save takes the next one, and after the last one the
first is due again. -/
structure Stamps where
  moments : List Calendar.Moment
  taken : Nat := 0
deriving Inhabited

def Stamps.next (s : Stamps) : Calendar.Moment :=
  s.moments.getD (s.taken % s.moments.length) default

def Stamps.rest (s : Stamps) : Stamps := { s with taken := s.taken + 1 }

structure House (τ ν : Type) where
  engine : Engine τ ν
  stamps : Stamps
  /-- Those who are subscribed, in order. -/
  listeners : List (Listener τ) := []
  /-- How often each listener may still react. -/
  usesLeft : KeyedList Nat Nat := ∅
  /-- The latest listener of each name. -/
  latest : KeyedList String (Listener τ) := ∅
  /-- What was delivered, and to whom. -/
  delivered : List (String × Frame) := []

variable {τ ν : Type}

instance : Timer.HasAgenda (House τ ν) τ Alarm where
  agenda h := h.engine.agenda
  withAgenda h a := { h with engine := { h.engine with agenda := a } }

abbrev HouseAction (τ ν ρ : Type) := Timer.Action CallError (House τ ν) ρ

namespace House

/-- Makes a subscription of a listener, who may have others. -/
def enroll (h : House τ ν) (listener : Listener τ) : House τ ν :=
  { h with listeners := h.listeners ++ [listener] }

def subscribe (h : House τ ν) (name : String) (awaits : Frame → Bool) (reaction : List (Call τ))
    (uses : Nat) : House τ ν :=
  let listener : Listener τ := ⟨h.usesLeft.size, name, awaits, reaction⟩
  { h.enroll listener with
    usesLeft := h.usesLeft.insert listener.id uses
    latest := h.latest.insert name listener }

/-- Removes the first subscription of a listener, if it still has one. -/
def removeListener (h : House τ ν) (id : Nat) : House τ ν :=
  { h with listeners := h.listeners.eraseP (·.id == id) }

def record (h : House τ ν) (listener : Listener τ) (f : Frame) : House τ ν :=
  { h with delivered := h.delivered ++ [(listener.name, f)] }

/-- The uses a listener has left, if a frame makes it react. -/
def reacts (h : House τ ν) (listener : Listener τ) (f : Frame) : Option Nat :=
  match h.usesLeft.get? listener.id with
  | some (n + 1) => if listener.awaits f then some n else none
  | _ => none

end House

/-- Makes calls one after the other, up to the first that fails. -/
def makeCalls (perform : Call τ → HouseAction τ ν (Reply τ)) :
    List (Call τ) → HouseAction τ ν Unit
  | [], h => (.ok (), h)
  | call :: rest, h =>
      match perform call h with
      | (.ok _, h) => makeCalls perform rest h
      | (.error halt, h) => (.error halt, h)

/-- Gives a frame to listeners, who may react at once. -/
def deliver (perform : Call τ → HouseAction τ ν (Reply τ)) (f : Frame) :
    List (Listener τ) → HouseAction τ ν Unit
  | [], h => (.ok (), h)
  | listener :: rest, h =>
      let h := h.record listener f
      match h.reacts listener f with
      | none => deliver perform f rest h
      | some left =>
          match makeCalls perform listener.reaction
              { h with usesLeft := h.usesLeft.insert listener.id left } with
          | (.ok (), h) => deliver perform f rest h
          | (.error halt, h) => (.error halt, h)

/-- Takes over a change of the engine and tells the listeners of it. -/
def publish (perform : Call τ → HouseAction τ ν (Reply τ)) (c : Change τ ν) :
    HouseAction τ ν Unit := fun h =>
  let h := { h with engine := c.engine }
  if c.told then deliver perform c.engine.frame h.listeners h else (.ok (), h)

def replying {ρ : Type} (reply : ρ → Reply τ)
    (result : Except (Timer.Halt CallError) ρ × House τ ν) :
    Except (Timer.Halt CallError) (Reply τ) × House τ ν :=
  (result.1.map reply, result.2)

def failing (h : House τ ν) (e : CallError) :
    Except (Timer.Halt CallError) (Reply τ) × House τ ν :=
  (.error (.raised e), h)

variable [Save.KeyValueStore ν]
variable [Zero τ] [Add τ] [Mul τ] [NatCast τ] [LT τ] [DecidableLT τ] [LE τ] [DecidableLE τ]

/-- A save takes a moment from the clock once the request itself is in order. -/
def House.save (h : House τ ν) (room : Nat) (slot : Int) :
    Except (Timer.Halt CallError) (Reply τ) × House τ ν :=
  match h.engine.saveTarget slot with
  | .error f => failing h (.fault f)
  | .ok _ =>
      let saved := h.engine.save room slot h.stamps.next
      let h := { h with stamps := h.stamps.rest }
      match saved with
      | .ok (s, engine) => (.ok (.slot s), { h with engine })
      | .error (.failure f) => failing h (.saves f)
      | .error .namelessNode => failing h (.invalidSlot [Save.nodeField.long])

def House.setStoredText (h : House τ ν) (room : Nat) (text : Text.RawText) :
    Except (Timer.Halt CallError) (Reply τ) × House τ ν :=
  match h.engine.saves with
  | none => failing h .noStorage
  | some r =>
      match Save.KeyValueStore.set r.store room r.key text with
      | .ok store =>
          (.ok .nothing, { h with engine := { h.engine with saves := some { r with store } } })
      | .error f => failing h (.saves f)

/-- What the saves of a house are asked for. -/
def House.askSaves (h : House τ ν) (ask : Save.Repository ν → Except Save.Failure (Reply τ)) :
    Except (Timer.Halt CallError) (Reply τ) × House τ ν :=
  match h.engine.saves with
  | none => failing h .noStorage
  | some r =>
      match ask r with
      | .ok reply => (.ok reply, h)
      | .error f => failing h (.saves f)

def perform : Nat → Call τ → HouseAction τ ν (Reply τ)
  | 0, _, h => (.error .outOfFuel, h)
  | fuel + 1, call, h =>
      let e := h.engine
      let change (c : Change τ ν) := replying (fun () => .nothing) (publish (perform fuel) c h)
      let attempt (c : Except Fault (Change τ ν)) := match c with
        | .ok c => change c
        | .error f => failing h (.fault f)
      let fire (alarm : Alarm) : HouseAction τ ν Unit := fun h =>
        publish (perform fuel) (h.engine.fire alarm) h
      match call with
      | .newGame => attempt e.newGame
      | .title => change e.returnToTitle
      | .advance => change e.advance
      | .choose index => attempt (e.selectChoice index)
      | .auto enabled => change (e.setAutoPlay enabled)
      | .fastForward enabled => change (e.setFastForward enabled)
      | .toggleAuto => change e.toggleAutoPlay
      | .toggleFastForward => change e.toggleFastForward
      | .acknowledge => change e.acknowledgeEffect
      | .openHistory => change e.openHistory
      | .closeHistory => change e.closeHistory
      | .jump index =>
          match e.jumpToHistory index with
          | .ok c => change c
          | .error (.fault f) => failing h (.fault f)
          | .error (.outOfRange i) => failing h (.historyIndex i)
      | .save slot room => h.save room slot
      | .load slot room =>
          match e.load room slot with
          | .ok c => change c
          | .error f => failing h (.saves f)
      | .frame => (.ok (.frame e.frame), h)
      | .backlog => (.ok (.backlog e.backlog), h)
      | .current => (.ok (.node e.currentNode), h)
      | .wait seconds => replying .count (Timer.advance fire seconds fuel h)
      | .idle limit => replying .count (Timer.runUntilIdle fire limit fuel h)
      | .nextDue => (.ok (.due e.agenda.nextDue?), h)
      | .slots room => h.askSaves fun r => (r.listSlots room).map .slots
      | .storedText room => h.askSaves fun r => (r.storedText room).map .stored
      | .setStoredText text room => h.setStoredText room text
      | .subscribe name awaits reaction uses =>
          (.ok .nothing, h.subscribe name awaits reaction uses)
      | .unsubscribe name =>
          match h.latest.get? name with
          | some listener => (.ok .nothing, h.removeListener listener.id)
          | none => failing h (.unknownListener name)

end VisualNovel.Playback
