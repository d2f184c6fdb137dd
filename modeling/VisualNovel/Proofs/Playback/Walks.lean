import VisualNovel.Proofs.Playback.Sessions
import VisualNovel.Proofs.Script.Reachable

/-!
Which nodes play can come to. Whatever is asked of an engine, short of loading a save, it walks
along links from the start, and goes back only to where it has been.
-/
namespace VisualNovel.Playback

variable {τ ν : Type}

/-- The nodes that links lead to from the start. -/
inductive Playable (s : Script) : Node → Prop
  | start {node : Node} (hstart : s.start? = some node) : Playable s node
  | link {node target : Node} (hnode : Playable s node) (hlink : Link s node target) :
      Playable s target

theorem Playable.exists_get? {s : Script} {node : Node} (h : Playable s node) :
    ∃ id, s.get? id = some node := by
  cases h with
  | start hstart => exact ⟨s.startId, hstart⟩
  | link hnode hlink => exact hlink.exists_get?

theorem Playable.start_isSome {s : Script} {node : Node} (h : Playable s node) :
    s.start?.isSome = true := by
  induction h with
  | start hstart => rw [hstart, Option.isSome_some]
  | link hnode hlink ih => exact ih

/-- The identifiers of nodes that play can come to. -/
def Playable.Names (s : Script) (ids : List String) : Prop :=
  ∀ id ∈ ids, ∃ node, s.get? id = some node ∧ Playable s node

theorem Playable.resolve {s : Script} {ids : List String} (h : Playable.Names s ids) {id : String}
    (hid : id ∈ ids) {node : Node} (hnode : s.resolve (some id) = some node) :
    Playable s node := by
  obtain ⟨known, hknown, hplayable⟩ := h id hid
  rcases Script.resolve_cases hnode with hstart | hfound
  · exact .start hstart
  · rw [hfound, Option.some.injEq] at hknown
    exact hknown ▸ hplayable

/-- Whoever skips a video that comes with choices gets to a node that the search finds. The search
itself does not look past the choices. -/
def SeesPastVideos (s : Script) : Prop :=
  ∀ node target, Playable s node → node.isDecision = true → s.afterVideo? node = some target →
    target.id ∈ (Graph.validate s).reachable

theorem Playable.mem_reachable {s : Script} (hkeys : s.KeysAreIds)
    (hsees : SeesPastVideos s) {node : Node} (h : Playable s node) :
    node.id ∈ Graph.reachable s := by
  induction h with
  | @start node hstart =>
    rw [hkeys s.startId node hstart]
    exact Graph.start_mem_reachable s
  | @link node target hnode hlink ih =>
    obtain ⟨key, hkey⟩ := hnode.exists_get?
    have hfound : s.get? node.id = some node := hkeys.get?_id hkey
    have hnext : ∀ id, node.choices = [] → node.next = some id → s.get? id = some target →
        target.id ∈ Graph.reachable s := by
      intro id hchoices hid htarget
      rw [hkeys id target htarget]
      exact Graph.mem_reachable_of_successor ih hfound (by simp [Node.successors, hchoices, hid])
        htarget
    cases hlink with
    -- Where there are choices, this is the one link that the search does not follow.
    | video hpast =>
      obtain ⟨-, id, hid, -, htarget⟩ := Script.afterVideo?_eq_some hpast
      cases hdecision : node.isDecision with
      | true =>
        have hreported := hsees node target hnode hdecision hpast
        exact (Graph.mem_validate_reachable hnode.start_isSome).mp hreported
      | false => exact hnext id (by simpa [Node.isDecision] using hdecision) hid htarget
    | @next id _ hvideo hchoices hid hend htarget => exact hnext id hchoices hid htarget
    | @choice choice _ hmem hresolve =>
      rcases Script.resolve_cases hresolve with hstart | htarget
      · rw [hkeys s.startId target hstart]
        exact Graph.start_mem_reachable s
      · have hsuccessor : choice.target ∈ node.successors := by
          have hsome : node.choices.isEmpty = false :=
            List.isEmpty_eq_false_iff.mpr (List.ne_nil_of_mem hmem)
          simp only [Node.successors, hsome, Bool.false_eq_true, if_false]
          exact List.mem_map_of_mem hmem
        rw [hkeys choice.target target htarget]
        exact Graph.mem_reachable_of_successor ih hfound hsuccessor htarget

/-- The nodes that a session has been at, the present one last. -/
def Session.visited (s : Session) : List String := s.history ++ s.current.toList

/-- The session has only been at nodes that play can come to. -/
def Engine.Walks (e : Engine τ ν) : Prop := Playable.Names e.script e.session.visited

section Turns

theorem Engine.Walks.currentNode {e : Engine τ ν} (h : e.Walks) {node : Node}
    (hcurrent : e.currentNode = some node) : Playable e.script node := by
  obtain ⟨hview, id, hid, hnode⟩ := (currentNode_eq_some_iff e node).mp hcurrent
  have hvisited : id ∈ e.session.visited := by simp [Session.visited, hid]
  obtain ⟨known, hknown, hplayable⟩ := h id hvisited
  rw [hnode] at hknown
  cases hknown
  exact hplayable

theorem Engine.Walks.of_visited {e e' : Engine τ ν} (h : e.Walks) (hscript : e'.script = e.script)
    (hvisited : e'.session.visited = e.session.visited) : e'.Walks := by
  unfold Engine.Walks
  rw [hscript, hvisited]
  exact h

theorem Engine.walks_title {e : Engine τ ν} (hsession : e.session = {}) : e.Walks := by
  intro id hid
  rw [hsession] at hid
  cases hid

variable [Zero τ] [Add τ] [Mul τ] [NatCast τ] [LT τ] [DecidableLT τ]

theorem Engine.Walks.enter {e : Engine τ ν} {node : Node} (hkeys : e.script.KeysAreIds)
    (hnode : Playable e.script node) (hhistory : Playable.Names e.script e.session.history) :
    (e.enter node).engine.Walks := by
  obtain ⟨key, hkey⟩ := hnode.exists_get?
  intro id hid
  rw [enter_script]
  simp only [Session.visited, enter_session, Option.toList_some, List.mem_append,
    List.mem_singleton] at hid
  rcases hid with hold | rfl
  · exact hhistory id hold
  · exact ⟨node, hkeys.get?_id hkey, hnode⟩

theorem Engine.Walks.navigate {e : Engine τ ν} (h : e.Walks) {node : Node}
    (hkeys : e.script.KeysAreIds) (hnode : Playable e.script node) :
    (e.navigate node).engine.Walks :=
  Engine.Walks.enter (e := { e with session := { e.session with
    history := e.session.history ++ e.session.current.toList } }) hkeys hnode h

theorem Turn.walks {e : Engine τ ν} {c : Change τ ν} (h : Turn e c)
    (hkeys : e.script.KeysAreIds) (hwalks : e.Walks) : c.engine.Walks := by
  cases h with
  | stay => exact hwalks
  | title => exact Engine.walks_title rfl
  | @follow node target pacing hcurrent hending hlink =>
    have hnode := hwalks.currentNode hcurrent
    exact Engine.Walks.navigate (e := { e with session := { e.session with pacing } })
      hwalks hkeys (.link hnode hlink)
  | @back index id node hview hentry hnode =>
    have hmem : id ∈ e.session.visited :=
      List.mem_append_left _ (List.mem_of_getElem? hentry)
    refine Engine.Walks.enter hkeys (Playable.resolve hwalks hmem hnode) ?_
    intro old hold
    exact hwalks old (List.mem_append_left _ (List.mem_of_mem_take hold))
  | complete hcurrent hending hreveal =>
    refine hwalks.of_visited (Engine.completeReveal_script e) ?_
    rw [Engine.completeReveal_session]
    rfl
  | finish hcurrent hending hvideo hreveal hchoices hnext =>
    refine hwalks.of_visited (Engine.beginEnding_script e) ?_
    rw [Engine.beginEnding_session]
    rfl
  | pace pacing =>
    refine hwalks.of_visited (Engine.setPacing_script e pacing) ?_
    rcases e.setPacing_session pacing with hsame | ⟨-, -, hpaced⟩
    · rw [hsame]
    · rw [hpaced]
      rfl
  | cue => exact hwalks
  | browse isOpen hview => exact hwalks

theorem Engine.revealTick_visited (e : Engine τ ν) :
    e.revealTick.engine.session.visited = e.session.visited := by
  cases hcurrent : e.currentNode with
  | none =>
    rw [revealTick_of_none hcurrent]
    rfl
  | some node =>
    rw [revealTick_session hcurrent]
    rfl

theorem Engine.Walks.fire {e : Engine τ ν} (h : e.Walks) (hkeys : e.script.KeysAreIds)
    (alarm : Alarm) : (e.fire alarm).engine.Walks := by
  have hscript := e.fire_script alarm
  unfold Engine.fire at hscript ⊢
  split
  · exact h
  · next hcurrent =>
    rw [if_neg hcurrent] at hscript
    cases hkind : alarm.kind with
    | revealTick =>
      rw [hkind] at hscript
      exact h.of_visited hscript e.revealTick_visited
    | pacingFire => exact (turn_advance { e with pacingTimer := none }).walks hkeys h
    | titleReturn => exact Engine.walks_title rfl

end Turns

section Runs

/-- Everything but resuming a saved session. -/
def Call.Onward (call : Call τ) : Prop := ∀ slot room, call ≠ .load slot room

theorem Call.onward_newGame : (newGame : Call τ).Onward := fun _ _ h => nomatch h

theorem Call.onward_advance : (advance : Call τ).Onward := fun _ _ h => nomatch h

theorem Call.onward_choose (index : Int) : (choose index : Call τ).Onward := fun _ _ h => nomatch h

theorem Call.onward_wait (seconds : τ) : (wait seconds).Onward := fun _ _ h => nomatch h

variable [Save.KeyValueStore ν]
variable [Zero τ] [Add τ] [Mul τ] [NatCast τ] [LT τ] [DecidableLT τ]

theorem Step.walks {e e' : Engine τ ν} (h : Step Call.Onward e e') (hkeys : e.script.KeysAreIds)
    (hwalks : e.Walks) : e'.Walks := by
  cases h with
  | request hcall hgranted =>
    rcases Engine.outcome_cases hgranted with hturn | ⟨id, node, hnode, rfl, horigin⟩
    · exact hturn.walks hkeys hwalks
    · have hid : id = e.script.startId :=
        horigin.resolve_right fun ⟨slot, room, hload⟩ => hcall slot room hload
      subst hid
      have hstart : e.script.start? = some node := hnode
      refine Engine.Walks.enter (e := { e.cancelTimers with session := { view := .playing } }) hkeys
        (.start hstart) ?_
      intro old hold
      cases hold
  | @alarm target entry rest hdue =>
    exact Engine.Walks.fire (e := { e with agenda := rest }) hwalks hkeys entry.task
  | clock hquiet => exact hwalks
  | saves saves => exact hwalks

theorem Steps.walks {e e' : Engine τ ν} (h : Steps Call.Onward e e')
    (hkeys : e.script.KeysAreIds) (hwalks : e.Walks) : e'.Walks := by
  induction h with
  | refl => exact hwalks
  | tail hsteps hstep ih => exact hstep.walks (Steps.script hsteps ▸ hkeys) ih

end Runs

end VisualNovel.Playback
