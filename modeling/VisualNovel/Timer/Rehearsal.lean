import VisualNovel.KeyedList
import VisualNovel.Timer.Running

/-!
Scripted callbacks on an agenda. A callback carries the list of what it does when it runs, so that
whole runs, with timers that schedule, cancel and move the clock again, are plain data.
-/
namespace VisualNovel.Timer

inductive Cue (τ : Type) where
  /-- Schedules a callback that runs `body` and then schedules itself `repeats` more times. -/
  | callLater (name : String) (delay : τ) (repeats : Nat) (body : List (Cue τ))
  | cancel (name : String)
  | handle (name : String)
  | advance (seconds : τ)
  | idle (limit : τ)
  | nextDue
  | fail (message : String)

instance {τ : Type} : Inhabited (Cue τ) := ⟨.nextDue⟩

structure Callback (τ : Type) where
  name : String
  delay : τ
  repeats : Nat
  body : List (Cue τ)

inductive CueError where
  | raised (message : String)
  | unknownTimer (name : String)
deriving DecidableEq, Repr

inductive CueReply (τ : Type) where
  | nothing
  | count (n : Nat)
  | due (time : Option τ)
  | handle (active cancelled : Bool)

/-- The latest timer of a name, and whether it was cancelled. -/
structure Ticket where
  order : Nat
  cancelled : Bool := false

/-- An agenda with the names of its timers and a record of the callbacks that ran. -/
structure Board (τ : Type) where
  agenda : Agenda τ (Callback τ)
  tickets : KeyedList String Ticket := ∅
  fired : List (String × τ) := []

instance {τ : Type} : HasAgenda (Board τ) τ (Callback τ) where
  agenda b := b.agenda
  withAgenda b a := { b with agenda := a }

variable {τ : Type} [Zero τ] [Add τ] [LT τ] [DecidableLT τ] [LE τ] [DecidableLE τ]

namespace Board

def schedule (b : Board τ) (c : Callback τ) : Board τ :=
  let (order, agenda) := b.agenda.callLater c.delay c
  { b with agenda, tickets := b.tickets.insert c.name { order } }

def cancel (b : Board τ) (name : String) (ticket : Ticket) : Board τ :=
  { b with
    agenda := b.agenda.cancel ticket.order
    tickets := b.tickets.insert name { ticket with cancelled := true } }

end Board

abbrev CueAction (τ ρ : Type) := Action CueError (Board τ) ρ

/-- Runs cues one after the other, up to the first that fails. -/
def runCues (perform : Cue τ → CueAction τ (CueReply τ)) : List (Cue τ) → CueAction τ Unit
  | [], b => (.ok (), b)
  | cue :: rest, b =>
      match perform cue b with
      | (.ok _, b) => runCues perform rest b
      | (.error halt, b) => (.error halt, b)

def runCallback (perform : Cue τ → CueAction τ (CueReply τ)) (c : Callback τ) :
    CueAction τ Unit := fun b =>
  match runCues perform c.body { b with fired := b.fired ++ [(c.name, b.agenda.now)] } with
  | (.ok (), b) =>
      (.ok (), if c.repeats = 0 then b else b.schedule { c with repeats := c.repeats - 1 })
  | (.error halt, b) => (.error halt, b)

def counted (result : Except (Halt CueError) Nat × Board τ) :
    Except (Halt CueError) (CueReply τ) × Board τ :=
  (result.1.map .count, result.2)

def perform : Nat → Cue τ → CueAction τ (CueReply τ)
  | 0, _, b => (.error .outOfFuel, b)
  | fuel + 1, cue, b =>
      match cue with
      | .callLater name delay repeats body =>
          (.ok .nothing, b.schedule ⟨name, delay, repeats, body⟩)
      | .cancel name =>
          match b.tickets.get? name with
          | some ticket => (.ok .nothing, b.cancel name ticket)
          | none => (.error (.raised (.unknownTimer name)), b)
      | .handle name =>
          match b.tickets.get? name with
          | some ticket =>
              let active := b.agenda.isWaiting ticket.order && !ticket.cancelled
              (.ok (.handle active ticket.cancelled), b)
          | none => (.error (.raised (.unknownTimer name)), b)
      | .advance seconds =>
          counted (Timer.advance (runCallback (perform fuel)) seconds fuel b)
      | .idle limit => counted (runUntilIdle (runCallback (perform fuel)) limit fuel b)
      | .nextDue => (.ok (.due b.agenda.nextDue?), b)
      | .fail message => (.error (.raised (.raised message)), b)

end VisualNovel.Timer
