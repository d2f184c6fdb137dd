import VisualNovel.Script.Node

/-!
The graph of a script: which nodes a player can get to, which links lead nowhere, and where play
stops without an explicit ending.
-/
namespace VisualNovel.Graph

/-- The targets of the node under a key. -/
def targets (s : Script) (id : String) : List String :=
  match s.get? id with
  | some node => node.successors
  | none => []

def among (targets keys : List String) : List String := keys.filter fun k => targets.contains k

def notAmong (targets keys : List String) : List String := keys.filter fun k => !targets.contains k

theorem length_among_add_length_notAmong (targets keys : List String) :
    (among targets keys).length + (notAmong targets keys).length = keys.length := by
  unfold among notAmong
  induction keys with
  | nil => rfl
  | cons k rest ih =>
    simp only [List.filter_cons, List.length_cons]
    cases targets.contains k <;> simp only [reduceIte, Bool.not_true, Bool.not_false,
      Bool.false_eq_true, List.length_cons] <;> omega

/-- Visits the keys that wait, and every key that a link leads to from one of them. Keys move from
`unvisited` to `waiting` and from there into the answer, each at most once. -/
def explore (s : Script) (unvisited waiting : List String) : List String :=
  match waiting with
  | [] => []
  | id :: rest =>
      id :: explore s (notAmong (targets s id) unvisited) (rest ++ among (targets s id) unvisited)
termination_by unvisited.length + waiting.length
decreasing_by
  have := length_among_add_length_notAmong (targets s id) unvisited
  simp only [List.length_append, List.length_cons]
  omega

def reachable (s : Script) : List String :=
  explore s (s.nodes.keys.filter (· != s.startId)) [s.startId]

structure Report where
  isValid : Bool
  errors : List String
  warnings : List String
  reachable : List String
deriving DecidableEq, Inhabited

/-- Links that are neither an ending nor a key, in the order of nodes and of links. -/
def missingLinks (s : Script) : List (Node × String) :=
  s.nodes.values.flatMap fun node =>
    (node.successors.filter fun t => t != endTarget && !s.contains t).map fun t => (node, t)

def sorted (xs : List String) : List String := xs.mergeSort fun a b => decide (a ≤ b)

def isTerminalKey (s : Script) (id : String) : Bool := (s.get? id).any (·.isTerminal)

/-- Broken links are errors; nodes that no link leads to, and stops without an explicit ending,
are warnings. -/
def validate (s : Script) : Report :=
  if s.start?.isNone then
    ⟨false, [s!"Script has no start node '{s.startId}'"], [], []⟩
  else
    let errors := (missingLinks s).map fun (node, target) =>
      s!"Node '{node.id}' links to missing node '{target}'"
    let reached := reachable s
    let unreachable := (s.nodes.keys.filter fun k => !reached.contains k).map fun k =>
      s!"Node '{k}' is unreachable from start"
    let stops := ((sorted reached).filter (isTerminalKey s)).map fun k =>
      s!"Node '{k}' has no successor; play returns to the title without an explicit ending"
    ⟨errors.isEmpty, errors, unreachable ++ stops, sorted reached⟩

end VisualNovel.Graph
