import VisualNovel.KeyedList
import VisualNovel.Timer.Agenda

/-!
Timers handed to a foreign event loop. The loop alone decides when a timer fires; cancelling a
handle cancels the timer that the loop holds.
-/
namespace VisualNovel.Timer.EventLoop

inductive Cue (τ : Type) where
  | callLater (name : String) (delay : τ) (repeats : Nat) (body : List (Cue τ))
  | cancel (name : String)
  | handle (name : String)
  /-- The loop fires its timer of that number, unless the timer was cancelled. -/
  | fire (index : Nat)
  | timers
  | fail (message : String)

instance {τ : Type} : Inhabited (Cue τ) := ⟨.timers⟩

/-- A timer inside the loop: what it was asked for, and what it will do. -/
structure LoopTimer (τ : Type) where
  name : String
  asked : τ
  delay : τ
  repeats : Nat
  body : List (Cue τ)
  cancelled : Bool := false
  handle : Handle := {}

structure Loop (τ : Type) where
  timers : List (LoopTimer τ) := []
  /-- The number of the latest timer of a name. -/
  latest : KeyedList String Nat := ∅
  fired : List String := []

inductive CueError where
  | raised (message : String)
  | unknownTimer (name : String)
  | noSuchTimer
  | outOfFuel
deriving DecidableEq, Repr

inductive Reply (τ : Type) where
  | nothing
  | handle (active cancelled : Bool)
  | timers (delays : List (τ × Bool))

variable {τ : Type} [Zero τ] [LT τ] [DecidableLT τ]

namespace Loop

def schedule (l : Loop τ) (name : String) (delay : τ) (repeats : Nat) (body : List (Cue τ)) :
    Loop τ :=
  { l with
    timers := l.timers ++ [{ name, asked := delay, delay := later 0 delay, repeats, body }]
    latest := l.latest.insert name l.timers.length }

def update (l : Loop τ) (index : Nat) (f : LoopTimer τ → LoopTimer τ) : Loop τ :=
  { l with timers := l.timers.modify index f }

/-- Only the first cancellation of a handle reaches the loop. -/
def cancel (l : Loop τ) (index : Nat) : Loop τ :=
  l.update index fun t =>
    let (handle, passedOn) := t.handle.cancel
    { t with handle, cancelled := t.cancelled || passedOn }

def listing (l : Loop τ) : List (τ × Bool) := l.timers.map fun t => (t.delay, t.cancelled)

end Loop

abbrev Result (τ ρ : Type) := Except CueError ρ × Loop τ

def runCues (perform : Cue τ → Loop τ → Result τ (Reply τ)) : List (Cue τ) → Loop τ → Result τ Unit
  | [], l => (.ok (), l)
  | cue :: rest, l =>
      match perform cue l with
      | (.ok _, l) => runCues perform rest l
      | (.error e, l) => (.error e, l)

def fireTimer (perform : Cue τ → Loop τ → Result τ (Reply τ)) (index : Nat) (t : LoopTimer τ)
    (l : Loop τ) : Result τ Unit :=
  let l := l.update index fun t => { t with handle := t.handle.markFired }
  match runCues perform t.body { l with fired := l.fired ++ [t.name] } with
  | (.ok (), l) =>
      (.ok (), if t.repeats = 0 then l else l.schedule t.name t.asked (t.repeats - 1) t.body)
  | (.error e, l) => (.error e, l)

def perform : Nat → Cue τ → Loop τ → Result τ (Reply τ)
  | 0, _, l => (.error .outOfFuel, l)
  | fuel + 1, cue, l =>
      match cue with
      | .callLater name delay repeats body => (.ok .nothing, l.schedule name delay repeats body)
      | .cancel name =>
          match l.latest.get? name with
          | some index => (.ok .nothing, l.cancel index)
          | none => (.error (.unknownTimer name), l)
      | .handle name =>
          match (l.latest.get? name).bind fun index => l.timers[index]? with
          | some t => (.ok (.handle t.handle.active t.handle.cancelled), l)
          | none => (.error (.unknownTimer name), l)
      | .fire index =>
          match l.timers[index]? with
          | none => (.error .noSuchTimer, l)
          | some t =>
              if t.cancelled then (.ok (.timers l.listing), l)
              else
                match fireTimer (perform fuel) index t l with
                | (.ok (), l) => (.ok (.timers l.listing), l)
                | (.error e, l) => (.error e, l)
      | .timers => (.ok (.timers l.listing), l)
      | .fail message => (.error (.raised message), l)

end VisualNovel.Timer.EventLoop
