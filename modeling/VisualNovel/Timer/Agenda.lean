/-!
Timers on a clock that moves only when it is told to. An agenda keeps the waiting timers in the
order in which they will run: earlier due times first, and among equal ones the timer that was
scheduled first.
-/
namespace VisualNovel.Timer

/-- `order` tells how many timers were scheduled before this one, and so identifies it. -/
structure Entry (τ α : Type) where
  due : τ
  order : Nat
  task : α
deriving Inhabited

structure Agenda (τ α : Type) where
  now : τ
  queue : List (Entry τ α) := []
  nextOrder : Nat := 0
  /-- An agenda that ignores cancellation keeps every timer until it runs. -/
  heedsCancel : Bool := true
deriving Inhabited

variable {τ α : Type}

def later [LT τ] [DecidableLT τ] (a b : τ) : τ := if a < b then b else a

def earlier [LT τ] [DecidableLT τ] (a b : τ) : τ := if b < a then b else a

/-- Puts a timer behind all those that are due no later. -/
def place [LT τ] [DecidableLT τ] (e : Entry τ α) : List (Entry τ α) → List (Entry τ α)
  | [] => [e]
  | f :: rest => if e.due < f.due then e :: f :: rest else f :: place e rest

namespace Agenda

def starting [Zero τ] : Agenda τ α := { now := 0 }

/-- Schedules a task and returns the order number that identifies its timer. Delays below zero
count as zero. -/
def callLater [Zero τ] [Add τ] [LT τ] [DecidableLT τ] (a : Agenda τ α) (delay : τ) (task : α) :
    Nat × Agenda τ α :=
  let entry : Entry τ α := ⟨a.now + later 0 delay, a.nextOrder, task⟩
  (a.nextOrder, { a with queue := place entry a.queue, nextOrder := a.nextOrder + 1 })

/-- Takes a timer out of the queue; nothing happens if it is not waiting. -/
def cancel (a : Agenda τ α) (order : Nat) : Agenda τ α :=
  if a.heedsCancel then { a with queue := a.queue.filter (·.order != order) } else a

def isWaiting (a : Agenda τ α) (order : Nat) : Bool := a.queue.any (·.order == order)

def pending (a : Agenda τ α) : Nat := a.queue.length

def nextDue? (a : Agenda τ α) : Option τ := a.queue.head?.map (·.due)

/-- The next timer, unless it is due only after `target`. The clock moves to its due time, and
stays where it is if that has passed already. -/
def pop? [LT τ] [DecidableLT τ] (a : Agenda τ α) (target : τ) :
    Option (Entry τ α × Agenda τ α) :=
  match a.queue with
  | [] => none
  | e :: rest =>
      if target < e.due then none
      else some (e, { a with now := later a.now e.due, queue := rest })

end Agenda

/-- A timer as its owner sees it. -/
structure Handle where
  cancelled : Bool := false
  fired : Bool := false
deriving DecidableEq, Repr, Inhabited

namespace Handle

def active (h : Handle) : Bool := !(h.cancelled || h.fired)

def markFired (h : Handle) : Handle := { h with fired := true }

/-- Cancels the timer. The second component tells whether this is the first cancellation, the only
one that is passed on to whoever runs the timer. -/
def cancel (h : Handle) : Handle × Bool :=
  if h.cancelled then (h, false) else ({ h with cancelled := true }, true)

end Handle

end VisualNovel.Timer
