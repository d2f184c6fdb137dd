import VisualNovel.Timer.Agenda

/-!
Moving the clock. Tasks run one by one and may change everything, the agenda included: timers they
add run in the same move if they fall due in time. A task may fail, which ends the move at once and
leaves the clock where the task ran.
-/
namespace VisualNovel.Timer

/-- Why a move ended early. Clocks are moved with an amount of fuel, so that a move is defined even
if tasks keep adding timers without end. -/
inductive Halt (ε : Type) where
  | raised (e : ε)
  | outOfFuel
deriving DecidableEq, Repr, Inhabited

/-- Something that happens to a state. The state is kept also when it fails. -/
abbrev Action (ε σ ρ : Type) := σ → Except (Halt ε) ρ × σ

class HasAgenda (σ : Type) (τ α : outParam Type) where
  agenda : σ → Agenda τ α
  withAgenda : σ → Agenda τ α → σ

export HasAgenda (agenda withAgenda)

instance {τ α : Type} : HasAgenda (Agenda τ α) τ α where
  agenda a := a
  withAgenda _ a := a

variable {ε σ τ α : Type} [HasAgenda σ τ α]

/-- Runs every timer that is due by `target`, and sets the clock to `target`. -/
def runUntil [LT τ] [DecidableLT τ] (fire : α → Action ε σ Unit) (target : τ) :
    Nat → Nat → Action ε σ Nat
  | 0, _, s => (.error .outOfFuel, s)
  | fuel + 1, ran, s =>
      match (agenda s).pop? target with
      | none => (.ok ran, withAgenda s { agenda s with now := target })
      | some (entry, rest) =>
          match fire entry.task (withAgenda s rest) with
          | (.ok (), s) => runUntil fire target fuel (ran + 1) s
          | (.error halt, s) => (.error halt, s)

/-- Moves the clock by an amount of time and returns how many tasks ran. -/
def advance [Add τ] [LT τ] [DecidableLT τ] (fire : α → Action ε σ Unit) (seconds : τ)
    (fuel : Nat) : Action ε σ Nat := fun s =>
  runUntil fire ((agenda s).now + seconds) fuel 0 s

/-- Moves the clock from one due time to the next while they lie before the deadline. -/
def runUntilQuiet [LT τ] [DecidableLT τ] [LE τ] [DecidableLE τ] (fire : α → Action ε σ Unit)
    (deadline : τ) : Nat → Nat → Action ε σ Nat
  | 0, _, s => (.error .outOfFuel, s)
  | fuel + 1, ran, s =>
      match (agenda s).nextDue? with
      | none => (.ok ran, s)
      | some due =>
          if due ≤ deadline then
            match runUntil fire due fuel 0 s with
            | (.ok more, s) => runUntilQuiet fire deadline fuel (ran + more) s
            | (.error halt, s) => (.error halt, s)
          else (.ok ran, s)

/-- Runs timers until none waits, or until the next one lies beyond the limit. The clock stops at
the last due time. -/
def runUntilIdle [Add τ] [LT τ] [DecidableLT τ] [LE τ] [DecidableLE τ]
    (fire : α → Action ε σ Unit) (limit : τ) (fuel : Nat) : Action ε σ Nat := fun s =>
  runUntilQuiet fire ((agenda s).now + limit) fuel 0 s

end VisualNovel.Timer
