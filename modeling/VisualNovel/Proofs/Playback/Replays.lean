import Mathlib.Algebra.Order.Monoid.Unbundled.Pow
import VisualNovel.Proofs.Playback.Delays
import VisualNovel.Proofs.Playback.History
import VisualNovel.Proofs.Playback.WaysOut

/-!
What a jump back into the history forgets can be played again. The history is a walk, so each node
in it leads to the next one by a link; a player who lets the text appear can take that link again,
and with the last one has the old place and the old history back.
-/
namespace VisualNovel.Playback

variable {τ ν : Type}

theorem Session.visited_of_current {x : Session} {id : String} (hcurrent : x.current = some id) :
    x.visited = x.history ++ [id] := by
  rw [Session.visited, hcurrent, Option.toList_some]

/-- A session has been taken back to an entry of its history. -/
structure Session.BackAt (old : Session) (index : Nat) (id : String) (new : Session) : Prop where
  view : new.view = .playing
  current : new.current = some id
  history : new.history = old.history.take index
  progress : new.progress = 0
  pacing : new.pacing = .manual
  historyOpen : new.historyOpen = false
  ending : new.ending = false

/-- From an entry of the history on, the nodes visited are that entry and those after it. -/
theorem Session.visited_drop {x : Session} {index : Nat} {id : String}
    (hentry : x.history[index]? = some id) :
    x.visited.drop index = id :: x.visited.drop (index + 1) := by
  have hvisited : x.visited[index]? = some id := by
    rw [Session.visited, List.getElem?_append_left (List.getElem?_eq_some_iff.mp hentry).1, hentry]
  obtain ⟨hlength, hhere⟩ := List.getElem?_eq_some_iff.mp hvisited
  rw [List.drop_eq_getElem_cons hlength, hhere]

theorem Session.BackAt.visited_append {old new : Session} {index : Nat} {id : String}
    (h : old.BackAt index id new) (hentry : old.history[index]? = some id) :
    new.visited ++ old.visited.drop (index + 1) = old.visited := by
  have htake : old.visited.take index = old.history.take index := by
    rw [Session.visited, List.take_append_of_le_length]
    exact Nat.le_of_lt (List.getElem?_eq_some_iff.mp hentry).1
  calc new.visited ++ old.visited.drop (index + 1)
      = old.history.take index ++ (id :: old.visited.drop (index + 1)) := by
        rw [Session.visited_of_current h.current, h.history, List.append_assoc,
          List.singleton_append]
    _ = old.visited.take index ++ old.visited.drop index := by
        rw [htake, Session.visited_drop hentry]
    _ = old.visited := List.take_append_drop index old.visited

section Retracing
variable [AddMonoid τ] [LinearOrder τ]

/-- Time enough for the text of the present node to appear by hand. -/
def Engine.readingTime (e : Engine τ ν) : τ :=
  ((e.currentNode.map (·.text.length)).getD 0) • Timer.later 0 e.timing.revealInterval

variable [Save.KeyValueStore ν]
variable [Mul τ] [NatCast τ]

/-- Each input, made once the text has had time to appear, enters the next one of the nodes, however
long the wait is; in the end the place and the history are those of the goal. -/
def Engine.Retraces (goal : Session) : List (Call τ) → List String → Engine τ ν → Prop
  | [], [], e => e.session.current = goal.current ∧ e.session.history = goal.history
  | input :: inputs, id :: ids, e => ∀ seconds, e.readingTime ≤ seconds → ∃ e' : Engine τ ν,
      e.Takes [.wait seconds, input] e' ∧ e'.session.view = .playing ∧
        e'.session.current = some id ∧
        e'.session.history = e.session.history ++ e.session.current.toList ∧
        e'.Retraces goal inputs ids
  | _, _, _ => False

end Retracing

namespace Engine.Reads

variable {e : Engine τ ν} {s : Script} {node : Node}

theorem sessionCurrent (h : e.Reads s node) : e.session.current = some node.id :=
  (Engine.at_of_currentNode h.sound h.current).2.current

theorem queue_eq_nil (h : e.Reads s node) (hreveal : e.session.reveal = .revealed) :
    e.agenda.queue = [] := by
  have harmed := h.armed
  unfold Engine.Armed at harmed
  rw [h.lingers.awaited, if_neg (by simp [hreveal])] at harmed
  exact harmed.holds_none.queue

theorem withClock (h : e.Reads s node) (now : τ) :
    ({ e with agenda := { e.agenda with now } } : Engine τ ν).Reads s node :=
  ⟨h.script, h.sound, Engine.Sets.withClock h.armed now, h.current, h.pacing, h.ending⟩

variable [AddMonoid τ] [Mul τ] [NatCast τ] [LinearOrder τ]

theorem exists_due (h : e.Reads s node) (hset : e.JustSet)
    (hreveal : e.session.reveal = .revealing) : ∃ t, e.agenda.queue = [t] ∧
      t.due = e.agenda.now + Timer.later 0 e.timing.revealInterval := by
  have harmed := h.armed
  unfold Engine.Armed at harmed
  rw [h.lingers.awaited, if_pos hreveal] at harmed
  obtain ⟨waiting, hholds, hkind⟩ := harmed
  obtain ⟨t, rfl, hpurpose⟩ := Option.map_eq_some_iff.mp hkind
  have hqueue : e.agenda.queue = [t] := hholds.queue
  have hinterval : e.delayFor t.task.kind = e.timing.revealInterval := by
    rw [hpurpose]
    unfold Engine.delayFor Timing.revealIntervalFor
    rw [h.pacing]
    rfl
  refine ⟨t, hqueue, ?_⟩
  rw [← hinterval]
  exact hset t (hqueue ▸ List.mem_singleton.mpr rfl)

theorem moves_revealed [AddLeftMono τ] (h : e.Reads s node) (hkeys : s.KeysAreIds)
    (hset : e.JustSet) {target : τ}
    (htime : e.agenda.now + (node.text.length - e.session.progress) •
      Timer.later 0 e.timing.revealInterval ≤ target) :
    ∃ e' : Engine τ ν, e.Moves target e' ∧ e'.Reads s node ∧ e.session.Remains e'.session ∧
      e'.session.reveal = .revealed := by
  -- The induction is on the characters still to come: each timer that runs shows one of them.
  induction hleft : node.text.length - e.session.progress using Nat.strong_induction_on
    generalizing e with
  | _ left ih =>
    cases hreveal : e.session.reveal with
    | revealed =>
      have hquiet : e.agenda.pop? target = none := by
        unfold Timer.Agenda.pop?
        rw [h.queue_eq_nil hreveal]
      exact ⟨_, .of_quiet hquiet, h.withClock target, .refl _, hreveal⟩
    | revealing =>
      have hless := h.lingers.progress_lt hreveal
      obtain ⟨t, hqueue, hdue⟩ := h.exists_due hset hreveal
      have hinterval := Timer.later_nonneg e.timing.revealInterval
      have hsplit : e.agenda.now + (node.text.length - e.session.progress) •
            Timer.later 0 e.timing.revealInterval =
          t.due + (node.text.length - (e.session.progress + 1)) •
            Timer.later 0 e.timing.revealInterval := by
        have hcount : node.text.length - e.session.progress =
            node.text.length - (e.session.progress + 1) + 1 := by omega
        rw [hdue, hcount, succ_nsmul', add_assoc]
      rw [hsplit] at htime
      have hreached : t.due ≤ target :=
        le_trans (le_add_of_nonneg_right (nsmul_nonneg hinterval _)) htime
      have hnow : e.agenda.now ≤ t.due := hdue ▸ le_add_of_nonneg_right hinterval
      have hpop := Timer.Agenda.pop?_of_due hqueue hnow hreached
      obtain ⟨-, hpopped⟩ := Engine.Sets.pop h.armed hpop
      obtain ⟨-, hlingers, hremains, hprogress⟩ := h.lingers.tick hkeys hpop
      have hsame := Engine.fire_sameTime ({ e with agenda := { e.agenda with
        now := t.due, queue := [] } } : Engine τ ν) t.task
      obtain ⟨e', hmoves, hreads, hremains', hrevealed⟩ := ih _ (by omega)
        (h.of_lingers hlingers hremains) hpopped.fire_justSet
        (by rw [hprogress, hsame.timing, hsame.now]; exact htime) rfl
      exact ⟨e', .of_due hpop hmoves, hreads, hremains.trans hremains', hrevealed⟩

variable [Save.KeyValueStore ν]

/-- A player who lets the text appear comes to see all of it. -/
theorem takes_wait [AddLeftMono τ] (h : e.Reads s node) (hkeys : s.KeysAreIds) (hset : e.JustSet)
    {seconds : τ} (henough : e.readingTime ≤ seconds) :
    ∃ e' : Engine τ ν, e.Takes [.wait seconds] e' ∧ e'.Reads s node ∧
      e.session.Remains e'.session ∧ e'.session.reveal = .revealed := by
  unfold readingTime at henough
  rw [h.current, Option.map_some, Option.getD_some] at henough
  have htime : e.agenda.now + (node.text.length - e.session.progress) •
      Timer.later 0 e.timing.revealInterval ≤ e.agenda.now + seconds := by
    refine add_le_add_right (le_trans ?_ henough) _
    exact nsmul_le_nsmul_left (Timer.later_nonneg _) (Nat.sub_le _ _)
  obtain ⟨e', hmoves, hreads, hremains, hrevealed⟩ := h.moves_revealed hkeys hset htime
  exact ⟨e', hmoves.takes, hreads, hremains, hrevealed⟩

end Engine.Reads

variable [AddMonoid τ] [Mul τ] [NatCast τ] [LinearOrder τ]

/-- A jump to an entry of the history shows that entry from its first character on. -/
theorem Engine.exists_jump {e : Engine τ ν} {s : Script} (hscript : e.script = s)
    (hkeys : s.KeysAreIds) (hend : s.get? endTarget = none) (hsound : e.session.Sound s)
    (hclears : e.Clears) (hview : e.session.view = .playing) {index : Nat} {id : String}
    (hentry : e.session.history[index]? = some id) :
    ∃ (c : Change τ ν) (node : Node), e.jumpToHistory index = .ok c ∧
      e.session.BackAt index id c.engine.session ∧ s.get? id = some node ∧
      c.engine.Reads s node ∧ c.engine.JustSet := by
  obtain ⟨present, hat⟩ := hsound.playing hview
  obtain ⟨node, hnode⟩ : ∃ node, s.get? id = some node :=
    Option.isSome_iff_exists.mp (hat.history id (List.mem_of_getElem? hentry))
  have hid : node.id = id := hkeys id node hnode
  subst hid
  have hresolve : s.resolve (some node.id) = some node := by
    refine Script.resolve_of_get? ?_ hnode
    intro hsame
    rw [hsame, hend] at hnode
    cases hnode
  let back : Session := { e.session with
    history := e.session.history.take index, historyOpen := false, pacing := .manual }
  have hjump : e.jumpToHistory index =
      .ok (({ e with session := back } : Engine τ ν).enter node) := by
    unfold Engine.jumpToHistory
    simp [hview, hentry, hscript, hresolve, back]
  have hcleared : ({ e with session := back } : Engine τ ν).Clears := hclears.withSession back
  have hreads : (({ e with session := back } : Engine τ ν).enter node).engine.Reads s node :=
    .of_enter hscript hcleared hview rfl
      (fun other hother => hat.history other (List.mem_of_mem_take hother)) hnode
  refine ⟨_, node, hjump, ?_, hnode, hreads, hcleared.enter_justSet node⟩
  rw [enter_session]
  exact ⟨hview, rfl, rfl, rfl, rfl, rfl, rfl⟩

variable [Save.KeyValueStore ν]
variable [AddLeftMono τ]

/-- Where links lead through the nodes still to be entered, there are inputs that enter them. They
can be told in advance, whatever the waits between them will be. -/
theorem exists_retracing {s : Script} (hkeys : s.KeysAreIds) {goal : Session}
    (hgoal : goal.current ≠ none) {node : Node} {ids : List String}
    (hwalk : (node.id :: ids).IsChain s.Joins) :
    ∃ inputs : List (Call τ), (∀ input ∈ inputs, input.IsInput) ∧
      ∀ e : Engine τ ν, e.Reads s node → e.JustSet →
        e.session.visited ++ ids = goal.visited → e.Retraces goal inputs ids := by
  induction ids generalizing node with
  | nil =>
    refine ⟨[], fun _ hinput => (nomatch hinput), ?_⟩
    intro e hreads hset hvisited
    obtain ⟨last, hlast⟩ := Option.ne_none_iff_exists'.mp hgoal
    rw [List.append_nil, Session.visited_of_current hreads.sessionCurrent,
      Session.visited_of_current hlast] at hvisited
    obtain ⟨hhistory, hcurrent⟩ := List.append_inj' hvisited rfl
    refine ⟨?_, hhistory⟩
    rw [hreads.sessionCurrent, hlast, List.singleton_inj.mp hcurrent]
  | cons id rest ih =>
    obtain ⟨⟨before, target, hbefore, rfl, hlink⟩, hrest⟩ := List.isChain_cons_cons.mp hwalk
    obtain ⟨input, hinput, htakes⟩ := Engine.Reads.exists_input (τ := τ) (ν := ν) hlink
    obtain ⟨inputs, hinputs, hretraces⟩ := ih hrest
    refine ⟨input :: inputs, List.forall_mem_cons.mpr ⟨hinput, hinputs⟩, ?_⟩
    intro e hreads hset hvisited seconds henough
    obtain ⟨e₁, hwait, hreads₁, hremains, hrevealed⟩ := hreads.takes_wait hkeys hset henough
    have hsame : before = node := by
      have hfound := hreads.lingers.found
      rw [hbefore, Option.some.injEq] at hfound
      exact hfound
    subst hsame
    have hreads' := hreads₁.navigate hkeys hlink
    have hhistory : (e₁.navigate target).engine.session.history =
        e.session.history ++ e.session.current.toList := by
      rw [Engine.navigate_session, ← hremains.history, ← hremains.current]
    have hview := (Engine.at_of_currentNode hreads'.sound hreads'.current).1
    refine ⟨_, hwait.append (htakes e₁ hreads₁ hrevealed), hview, hreads'.sessionCurrent, hhistory,
      ?_⟩
    refine hretraces _ hreads' ((hreads₁.armed.clears.withSession _).enter_justSet _) ?_
    rw [Session.visited_of_current hreads'.sessionCurrent, hhistory, List.append_assoc,
      List.singleton_append]
    exact hvisited

/-- Wherever a run has led, a jump to an entry of the history shows that entry from its first
character on, and the rest of the history can be played again from there: one input for each node,
made once its text has had time to appear, leads through the same nodes to the same place. -/
theorem histories_can_be_replayed (script : Script) (hkeys : script.KeysAreIds)
    (hend : script.get? endTarget = none) (timing : Timing τ)
    (saves : Option (Save.Repository ν)) {e : Engine τ ν}
    (hsteps : Steps (fun _ => True) (Engine.opening script timing saves) e)
    (hview : e.session.view = .playing) {index : Nat} {id : String}
    (hentry : e.session.history[index]? = some id) :
    ∃ (c : Change τ ν) (node : Node), e.jumpToHistory index = .ok c ∧
      e.session.BackAt index id c.engine.session ∧ script.get? id = some node ∧
      c.engine.currentNode = some node ∧
      ∃ inputs : List (Call τ), (∀ input ∈ inputs, input.IsInput) ∧
        c.engine.Retraces e.session inputs (e.session.visited.drop (index + 1)) := by
  have hscript : e.script = script := Steps.script hsteps
  have hsound : e.session.Sound script :=
    hscript ▸ Steps.sound hsteps hkeys (Session.sound_initial script)
  have harmed : e.Armed := Steps.armed hsteps hkeys (Session.sound_initial script)
    (Engine.opening_sets script timing saves)
  obtain ⟨c, node, hjump, hback, hnode, hreads, hset⟩ :=
    Engine.exists_jump hscript hkeys hend hsound harmed.clears hview hentry
  have hwalk : (node.id :: e.session.visited.drop (index + 1)).IsChain script.Joins := by
    rw [hkeys id node hnode, ← Session.visited_drop hentry]
    exact (Steps.walk hsteps hkeys List.isChain_nil).drop index
  obtain ⟨present, hat⟩ := hsound.playing hview
  have hpresent : e.session.current ≠ none := by
    rw [hat.current]
    exact Option.some_ne_none _
  obtain ⟨inputs, hinputs, hretraces⟩ := exists_retracing (τ := τ) (ν := ν) hkeys hpresent hwalk
  exact ⟨c, node, hjump, hback, hnode, hreads.current, inputs, hinputs,
    hretraces c.engine hreads hset (hback.visited_append hentry)⟩

/-- Back from the last line to the question, and along its answer again. -/
theorem histories_can_be_replayed_in_a_story :
    forkScript.KeysAreIds ∧ forkScript.get? endTarget = none ∧
      forkEnd.session.view = .playing ∧ forkEnd.session.history[0]? = some "start" ∧
      forkEnd.session.visited.drop 1 = ["left"] ∧
      ∃ (c : Change Nat Save.MemoryStore) (inputs : List (Call Nat)),
        forkEnd.jumpToHistory 0 = .ok c ∧ forkEnd.session.BackAt 0 "start" c.engine.session ∧
        (∀ input ∈ inputs, input.IsInput) ∧
        c.engine.Retraces forkEnd.session inputs ["left"] := by
  have hkeys : forkScript.KeysAreIds := Compiler.keysAreIds_compile {} forkText
  have hend : forkScript.get? endTarget = none := by decide +kernel
  have hview : forkEnd.session.view = .playing := by decide +kernel
  have hentry : forkEnd.session.history[0]? = some "start" := by decide +kernel
  have hdrop : forkEnd.session.visited.drop 1 = ["left"] := by decide +kernel
  obtain ⟨c, node, hjump, hback, -, -, inputs, hinputs, hretraces⟩ :=
    histories_can_be_replayed forkScript hkeys hend Timing.usual none forkEnd_steps hview hentry
  exact ⟨hkeys, hend, hview, hentry, hdrop, c, inputs, hjump, hback, hinputs, hdrop ▸ hretraces⟩

end VisualNovel.Playback
