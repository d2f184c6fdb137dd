import VisualNovel.Playback.Audience
import VisualNovel.Terminal.Scene

/-!
Playing in a terminal, one line of input at a time. After every line the clock runs until no timer
is due for an hour, so texts appear in full, and automatic pacing goes on to the next stop.
-/
namespace VisualNovel.Terminal

open Playback

inductive Command where
  | advance
  | quit
  | help
  | choose (index : Int)
  | toggleAuto
  | toggleFastForward
  | save (slot : Int)
  | load (slot : Int)
  | history
  | jump (index : Int)
  | newGame
  | title
  /-- A command with a text where a number is needed. -/
  | notANumber (text : String)
  | unknown (verb : String)
deriving DecidableEq, Repr, Inhabited

def Command.numbered (text : String) (command : Int → Command) : Command :=
  (Text.integer? text).elim (.notANumber text) command

/-- The first word of a line, up to a space, says what to do; the rest is its argument. -/
def Command.ofLine (line : String) : Command :=
  let verb := line.toList.takeWhile (· != ' ')
  let argument := String.ofList (Text.trimChars (line.toList.drop (verb.length + 1)))
  let verb := String.ofList verb
  match verb with
  | "" => .advance
  | "q" => .quit
  | "?" => .help
  | "a" => .toggleAuto
  | "f" => .toggleFastForward
  | "s" => .numbered argument .save
  | "l" => .numbered argument .load
  | "h" => .history
  | "j" => .numbered argument .jump
  | "n" => .newGame
  | "t" => .title
  | _ => if Text.allDigits verb then .numbered verb fun n => .choose (n - 1) else .unknown verb

def helpLines : List String := [
  "[bold]Commands[/bold]",
  "  [cyan]Enter[/cyan]  advance          [cyan]1-9[/cyan]    pick a choice",
  "  [cyan]a[/cyan]      toggle auto play [cyan]f[/cyan]      toggle fast forward",
  "  [cyan]s N[/cyan]    save to slot N   [cyan]l N[/cyan]    load slot N",
  "  [cyan]h[/cyan]      show history     [cyan]j N[/cyan]    jump to history entry N",
  "  [cyan]n[/cyan]      new game         [cyan]t[/cyan]      return to title",
  "  [cyan]?[/cyan]      this help        [cyan]q[/cyan]      quit"]

def numberMessage (text : String) : String :=
  match Text.excess? text with
  | some count => Text.excessMessage count
  | none => "invalid literal for int() with base 10: " ++ Text.quoted text

def namelessMessage : String := "1 validation error for SaveSlot"

def historyMessage (index : Int) : String := s!"history index {index} out of range"

structure Player (τ ν : Type) where
  engine : Engine τ ν
  stamps : Stamps
  /-- The frame that was delivered last. -/
  last : Option Frame := none
  printed : Array Printed := #[]
  /-- How many collections can be opened one inside the other when saves are read. -/
  room : Nat := usualRoom

namespace Player

variable {τ ν : Type}

instance : Timer.HasAgenda (Player τ ν) τ Alarm where
  agenda p := p.engine.agenda
  withAgenda p a := { p with engine := { p.engine with agenda := a } }

def print (p : Player τ ν) (lines : List Printed) : Player τ ν :=
  { p with printed := p.printed ++ lines.toArray }

/-- Takes delivery of a frame. -/
def render (p : Player τ ν) (f : Frame) : Player τ ν :=
  { p.print (additions p.last f) with last := some f }

/-- Takes over a change of the engine, and shows it if observers are told of it. -/
def take (p : Player τ ν) (c : Change τ ν) : Player τ ν :=
  let p := { p with engine := c.engine }
  if c.told then p.render c.engine.frame else p

def complain (p : Player τ ν) (text : String) : Player τ ν := p.print [complaint text]

/-- Tells why a request is refused, and what to do instead. -/
def refuse (p : Player τ ν) (f : Fault) : Player τ ν :=
  let problem := Problem.ofFault f
  p.print (complaint problem.message ::
    (problem.hint?.map fun hint => styledLine "dim" (Text.escape hint)).toList)

def attempt (p : Player τ ν) : Except Fault (Change τ ν) → Player τ ν
  | .ok c => p.take c
  | .error f => p.refuse f

def fail (p : Player τ ν) : Save.Failure → Player τ ν
  | .fault f => p.refuse f
  | f => p.complain f.message

def announce (p : Player τ ν) (mode : String) (enabled : Bool) : Player τ ν :=
  p.print [styledLine "dim" (mode ++ if enabled then " on" else " off")]

def historyLine (entry : BacklogEntry) : Printed :=
  let speaker := ((nonempty entry.speaker).map (· ++ ": ")).getD ""
  .line ("  " ++ styled "cyan" (toString entry.index) ++ " " ++ Text.escape (speaker ++ entry.text))

def showHistory (p : Player τ ν) : Player τ ν :=
  match p.engine.backlog with
  | [] => p.print [styledLine "dim" "History is empty"]
  | entries => p.print (entries.map historyLine)

/-- The prompt names the mode in which play goes on by itself. -/
def prompt (p : Player τ ν) : Printed :=
  let mode := match p.engine.session.pacing with
    | .manual => ""
    | .auto => "auto "
    | .fastForward => "ff "
  .prompt (styled "dim" (mode ++ ">") ++ " ")

variable [Zero τ] [Add τ] [Mul τ] [NatCast τ] [LT τ] [DecidableLT τ] [LE τ] [DecidableLE τ]

/-- Runs the timers of the next hour. -/
def pump (fuel : Nat) (p : Player τ ν) : Player τ ν :=
  let fire (alarm : Alarm) : Timer.Action Empty (Player τ ν) Unit := fun p =>
    (.ok (), p.take (p.engine.fire alarm))
  (Timer.runUntilIdle fire ((3600 : Nat) : τ) fuel p).2

variable [Save.KeyValueStore ν]

def save (p : Player τ ν) (slot : Int) : Player τ ν :=
  match p.engine.saveTarget slot with
  | .error f => p.refuse f
  | .ok _ =>
      let saved := p.engine.save p.room slot p.stamps.next
      let p := { p with stamps := p.stamps.rest }
      match saved with
      | .ok (s, engine) =>
          { p with engine }.print [styledLine "green" s!"Saved to slot {s.id}"]
      | .error (.failure f) => p.fail f
      | .error .namelessNode => p.print [heading namelessMessage]

def load (p : Player τ ν) (slot : Int) : Player τ ν :=
  match p.engine.load p.room slot with
  | .ok c => p.take c
  | .error f => p.fail f

def jump (p : Player τ ν) (index : Int) : Player τ ν :=
  match p.engine.jumpToHistory index with
  | .ok c => p.take c
  | .error (.fault f) => p.refuse f
  | .error (.outOfRange i) => p.complain (historyMessage i)

def perform (p : Player τ ν) : Command → Player τ ν
  | .advance =>
      let p := if p.engine.session.view = .title then
          p.print [styledLine "dim" "On the title screen (n: new game)"]
        else p
      p.take p.engine.advance
  | .quit => p
  | .help => p.print [.line (String.intercalate "\n" helpLines)]
  | .choose index => p.attempt (p.engine.selectChoice index)
  | .toggleAuto =>
      let p := p.take p.engine.toggleAutoPlay
      p.announce "auto play" (p.engine.session.pacing = .auto)
  | .toggleFastForward =>
      let p := p.take p.engine.toggleFastForward
      p.announce "fast forward" (p.engine.session.pacing = .fastForward)
  | .save slot => p.save slot
  | .load slot => p.load slot
  | .history => p.showHistory
  | .jump index => p.jump index
  | .newGame => p.attempt p.engine.newGame
  | .title => p.take p.engine.returnToTitle
  | .notANumber text => p.complain (numberMessage text)
  | .unknown verb =>
      p.print [styledLine "yellow"
        ("Unknown command " ++ Text.quoted (Text.escape verb) ++ ", ? for help")]

/-- The failure by which a command ends the game: one that is not reported, since the stack is too
small for what is stored. -/
def breakdown? (p : Player τ ν) : Command → Option Save.Failure
  | .save slot =>
      match p.engine.save p.room slot p.stamps.next with
      | .error (.failure f) => if f.isDepth then some f else none
      | _ => none
  | .load slot =>
      match p.engine.load p.room slot with
      | .error f => if f.isDepth then some f else none
      | .ok _ => none
  | _ => none

def handle (fuel : Nat) (p : Player τ ν) (line : String) : Option (Player τ ν) :=
  match Command.ofLine line with
  | .quit => none
  | command =>
      if (p.breakdown? command).isSome then none else some ((p.perform command).pump fuel)

/-- Begins with a new game, or with the game saved in a slot. -/
def begin (p : Player τ ν) (slot : Option Int) : Except Save.Failure (Player τ ν) :=
  match slot with
  | none => (p.engine.newGame.mapError .fault).map p.take
  | some slot => (p.engine.load p.room slot).map p.take

/-- Plays through lines of input, up to the one that ends the game, and tells of a breakdown. -/
def playLines (fuel : Nat) (p : Player τ ν) : List String → Option Save.Failure × Player τ ν
  | [] => (none, p.print [p.prompt])
  | line :: rest =>
      let p := p.print [p.prompt]
      match p.handle fuel (Text.trim line) with
      | none => (p.breakdown? (Command.ofLine (Text.trim line)), p)
      | some p => playLines fuel p rest

end Player

end VisualNovel.Terminal
