import Mathlib.Data.List.Chain
import VisualNovel.Proofs.Playback.Choices
import VisualNovel.Proofs.Playback.Walks

/-!
The history of a session is a walk through the script: from each entry one move of the player leads
to the next one, and from the last entry to the present node. A single step leaves the history as it
is, adds the node left behind, cuts the history at a jump, or empties it.
-/
namespace VisualNovel

/-- From one node, a player can get to another by one move: past a video or the end of a text to the
next node, or by a choice to what it stands for. -/
def Script.IsMove (s : Script) (a b : String) : Prop :=
  ∃ node, s.get? a = some node ∧
    (node.next = some b ∧ (node.hasVideo = true ∨ node.choices = []) ∨
      ∃ choice ∈ node.choices, ∃ target, s.resolve (some choice.target) = some target ∧
        target.id = b)

def Script.Joins (s : Script) (a b : String) : Prop :=
  ∃ node target, s.get? a = some node ∧ target.id = b ∧ Link s node target

theorem Script.Joins.isMove {s : Script} (hkeys : s.KeysAreIds) {a b : String}
    (h : s.Joins a b) : s.IsMove a b := by
  obtain ⟨node, target, hnode, rfl, hlink⟩ := h
  refine ⟨node, hnode, ?_⟩
  cases hlink with
  | video hpast =>
    obtain ⟨hvideo, id, hnext, -, htarget⟩ := Script.afterVideo?_eq_some hpast
    rw [hkeys id target htarget]
    exact Or.inl ⟨hnext, Or.inl hvideo⟩
  | @next id _ hvideo hchoices hnext hend htarget =>
    rw [hkeys id target htarget]
    exact Or.inl ⟨hnext, Or.inr hchoices⟩
  | @choice choice _ hmem htarget => exact Or.inr ⟨choice, hmem, target, htarget, rfl⟩

/-- What a link leads to is found again under its identifier. A link leads to a node with the name
of the end only if that node is the start. -/
theorem Link.resolve_id {s : Script} {node target : Node} (h : Link s node target)
    (hkeys : s.KeysAreIds) : s.resolve (some target.id) = some target := by
  obtain ⟨key, hkey⟩ := h.exists_get?
  by_cases hend : target.id = endTarget
  · rw [hend, Script.resolve_endTarget]
    cases h with
    | video hpast =>
      obtain ⟨-, id, -, hne, htarget⟩ := Script.afterVideo?_eq_some hpast
      exact absurd ((hkeys id target htarget).symm.trans hend) hne
    | @next id _ hvideo hchoices hnext hne htarget =>
      exact absurd ((hkeys id target htarget).symm.trans hend) hne
    | @choice choice _ hmem htarget =>
      rcases Script.resolve_cases htarget with hstart | hfound
      · exact hstart
      · have hsame : choice.target = endTarget := (hkeys _ target hfound).symm.trans hend
        rw [hsame, Script.resolve_endTarget] at htarget
        exact htarget
  · exact Script.resolve_of_get? hend (hkeys.get?_id hkey)

namespace Playback

variable {τ ν : Type}

/-- What a single step may do to the place of a session and to its history. -/
inductive Session.Goes (s : Script) (call : Call τ) (old new : Session) : Prop
  | stays (hhistory : new.history = old.history) (hcurrent : new.current = old.current)
  | follows {id : String} {node target : Node} (hcurrent : old.current = some id)
      (hnode : s.get? id = some node) (hlink : Link s node target)
      (hhistory : new.history = old.history ++ [id]) (hthere : new.current = some target.id)
  | back {index : Int} {id : String} {node : Node} (hcall : call = .jump index)
      (hindex : 0 ≤ index) (hentry : old.history[index.toNat]? = some id)
      (hnode : s.resolve (some id) = some node)
      (hhistory : new.history = old.history.take index.toNat)
      (hthere : new.current = some node.id)
  | begins {id : String} {node : Node}
      (hcall : call = .newGame ∨ ∃ slot room, call = .load slot room)
      (hnode : s.get? id = some node) (hhistory : new.history = [])
      (hthere : new.current = some node.id)
  | title (htitle : new = {})

/-- An entry that is not the first one is the target of a link from the one before it. -/
theorem Session.exists_link {s : Script} {x : Session} (hwalk : x.visited.IsChain s.Joins)
    {index : Nat} {id : String} (hentry : x.visited[index + 1]? = some id) :
    ∃ node target, Link s node target ∧ target.id = id := by
  obtain ⟨hindex, rfl⟩ := List.getElem?_eq_some_iff.mp hentry
  obtain ⟨node, target, -, hid, hlink⟩ := List.isChain_iff_getElem.mp hwalk index hindex
  exact ⟨node, target, hlink, hid⟩

/-- Going back along a walk cuts it off. -/
theorem Session.isPrefix_of_back {s : Script} {x : Session} (hkeys : s.KeysAreIds)
    (hwalk : x.visited.IsChain s.Joins) {index : Nat} {id : String} {node : Node}
    (hentry : x.history[index + 1]? = some id) (hnode : s.resolve (some id) = some node) :
    x.history.take (index + 1) ++ [node.id] <+: x.visited := by
  obtain ⟨hlength, hid⟩ := List.getElem?_eq_some_iff.mp hentry
  have hvisited : x.visited[index + 1]? = some id := by
    unfold Session.visited
    rw [List.getElem?_append_left hlength, hentry]
  obtain ⟨before, target, hlink, rfl⟩ := Session.exists_link hwalk hvisited
  rw [hlink.resolve_id hkeys, Option.some.injEq] at hnode
  rw [← hnode, ← hid, List.take_append_getElem]
  exact (List.take_prefix _ _).trans (List.prefix_append _ _)

theorem Session.Goes.walk {s : Script} {call : Call τ} {old new : Session}
    (h : old.Goes s call new) (hkeys : s.KeysAreIds) (hwalk : old.visited.IsChain s.Joins) :
    new.visited.IsChain s.Joins := by
  cases h with
  | stays hhistory hcurrent =>
    unfold Session.visited
    rw [hhistory, hcurrent]
    exact hwalk
  | @follows id node target hcurrent hnode hlink hhistory hthere =>
    have hvisited : old.visited = old.history ++ [id] := by
      rw [Session.visited, hcurrent, Option.toList_some]
    rw [Session.visited, hhistory, hthere, Option.toList_some, ← hvisited]
    refine List.isChain_append.mpr ⟨hwalk, List.isChain_singleton _, ?_⟩
    intro a ha b hb
    rw [hvisited, List.getLast?_concat, Option.mem_some_iff] at ha
    rw [List.head?_singleton, Option.mem_some_iff] at hb
    exact ⟨node, target, ha ▸ hnode, hb, hlink⟩
  | @back index id node hcall hindex hentry hnode hhistory hthere =>
    rw [Session.visited, hhistory, hthere, Option.toList_some]
    cases hnat : index.toNat with
    | zero =>
      rw [List.take_zero, List.nil_append]
      exact List.isChain_singleton _
    | succ n =>
      rw [hnat] at hentry
      obtain ⟨rest, hrest⟩ := Session.isPrefix_of_back hkeys hwalk hentry hnode
      rw [← hrest] at hwalk
      exact hwalk.left_of_append
  | begins hcall hnode hhistory hthere =>
    rw [Session.visited, hhistory, hthere]
    exact List.isChain_singleton _
  | title htitle =>
    rw [htitle]
    exact List.isChain_nil

section Requests

namespace Engine

theorem acknowledgeEffect_goes (call : Call τ) (e : Engine τ ν) :
    e.session.Goes e.script call e.acknowledgeEffect.engine.session := by
  unfold acknowledgeEffect
  split <;> exact .stays rfl rfl

theorem openHistory_goes (call : Call τ) (e : Engine τ ν) :
    e.session.Goes e.script call e.openHistory.engine.session := by
  unfold openHistory
  split <;> exact .stays rfl rfl

theorem closeHistory_goes (call : Call τ) (e : Engine τ ν) :
    e.session.Goes e.script call e.closeHistory.engine.session := by
  unfold closeHistory
  split <;> exact .stays rfl rfl

variable [Zero τ] [Add τ] [Mul τ] [NatCast τ] [LT τ] [DecidableLT τ]

theorem navigate_goes (call : Call τ) {e : Engine τ ν} {node target : Node} (pacing : Pacing)
    (hcurrent : e.currentNode = some node) (hlink : Link e.script node target) :
    e.session.Goes e.script call (({ e with session := { e.session with pacing } } :
      Engine τ ν).navigate target).engine.session := by
  obtain ⟨-, id, hid, hnode⟩ := (currentNode_eq_some_iff e node).mp hcurrent
  refine .follows hid hnode hlink ?_ ?_
  · rw [navigate_session, hid]
    rfl
  · rw [navigate_session]

theorem passVideo_goes (call : Call τ) {e : Engine τ ν} {node : Node}
    (hcurrent : e.currentNode = some node) (hvideo : node.hasVideo = true) :
    e.session.Goes e.script call (e.passVideo node).engine.session := by
  unfold passVideo
  split
  · exact .title rfl
  · next hend =>
    split
    · next target htarget =>
      have hpast : e.script.afterVideo? node = some target := by
        unfold Script.afterVideo?
        rw [if_pos ⟨hvideo, hend⟩]
        exact htarget
      exact navigate_goes call e.session.pacing hcurrent (.video hpast)
    · exact .stays rfl rfl

theorem setPacing_goes (call : Call τ) (e : Engine τ ν) (pacing : Pacing) :
    e.session.Goes e.script call (e.setPacing pacing).engine.session := by
  rcases e.setPacing_session pacing with hsame | ⟨-, -, hpaced⟩
  · exact .stays (by rw [hsame]) (by rw [hsame])
  · exact .stays (by rw [hpaced]) (by rw [hpaced])

theorem advance_goes (call : Call τ) (e : Engine τ ν) :
    e.session.Goes e.script call e.advance.engine.session := by
  unfold advance
  split
  · exact .stays rfl rfl
  · next node hcurrent =>
    split
    · exact .stays rfl rfl
    · split
      · next hvideo => exact passVideo_goes call hcurrent hvideo
      · next hvideo =>
        have hvideo : node.hasVideo = false := by simpa using hvideo
        split
        · exact .stays (by rw [completeReveal_session]) (by rw [completeReveal_session])
        · split
          · exact setPacing_goes call e .manual
          · next hdecision =>
            have hchoices : node.choices = [] := by simpa [Node.isDecision] using hdecision
            split
            · next target htarget =>
              obtain ⟨id, hnext, hend, hget⟩ := successor_eq_some htarget
              exact navigate_goes call e.session.pacing hcurrent
                (.next hvideo hchoices hnext hend hget)
            · exact .stays (by rw [beginEnding_session]) (by rw [beginEnding_session])

theorem setMode_goes (call : Call τ) (e : Engine τ ν) (mode : Pacing) (enabled : Bool) :
    e.session.Goes e.script call (e.setMode mode enabled).engine.session := by
  unfold setMode
  split
  · exact setPacing_goes call e mode
  · split
    · exact setPacing_goes call e .manual
    · exact .stays rfl rfl

theorem selectChoice_goes (call : Call τ) {e : Engine τ ν} {index : Int} {c : Change τ ν}
    (h : e.selectChoice index = .ok c) : e.session.Goes e.script call c.engine.session := by
  obtain ⟨node, choice, hcurrent, -, -, -, hchoice, rfl⟩ := selectChoice_eq_ok h
  unfold follow
  split
  · next target htarget =>
    exact navigate_goes call .manual hcurrent (.choice (List.mem_of_getElem? hchoice) htarget)
  · exact .title rfl

theorem jumpToHistory_goes {e : Engine τ ν} {index : Int} {c : Change τ ν}
    (h : e.jumpToHistory index = .ok c) :
    e.session.Goes e.script (.jump index : Call τ) c.engine.session := by
  obtain ⟨-, hindex, id, hentry, rfl | ⟨node, hnode, rfl⟩⟩ := jumpToHistory_eq_ok h
  · exact .title rfl
  · refine .back rfl hindex hentry hnode ?_ ?_
    · rw [enter_session]
    · rw [enter_session]

theorem beginSession_goes {call : Call τ}
    (hcall : call = .newGame ∨ ∃ slot room, call = .load slot room)
    {e : Engine τ ν} {id : String} {node : Node} (hnode : e.script.get? id = some node) :
    e.session.Goes e.script call (e.beginSession node).engine.session := by
  refine .begins hcall hnode ?_ ?_
  · unfold beginSession
    rw [enter_session]
  · unfold beginSession
    rw [enter_session]

theorem fire_goes (call : Call τ) (e : Engine τ ν) (alarm : Alarm) :
    e.session.Goes e.script call (e.fire alarm).engine.session := by
  unfold fire
  split
  · exact .stays rfl rfl
  · cases alarm.kind with
    | revealTick =>
      dsimp only
      cases hcurrent : e.currentNode with
      | none =>
        rw [revealTick_of_none hcurrent]
        exact .stays rfl rfl
      | some node =>
        exact .stays (by rw [revealTick_session hcurrent]) (by rw [revealTick_session hcurrent])
    | pacingFire => exact advance_goes call { e with pacingTimer := none }
    | titleReturn => exact .title rfl

end Engine

end Requests

variable [Save.KeyValueStore ν]
variable [Zero τ] [Add τ] [Mul τ] [NatCast τ] [LT τ] [DecidableLT τ]

section Runs

theorem Engine.outcome_goes {e : Engine τ ν} {call : Call τ} {c : Change τ ν}
    (h : e.outcome call = some (.ok c)) : e.session.Goes e.script call c.engine.session := by
  cases call with
  | newGame =>
    have hnew : e.newGame = .ok c := eq_ok_of_mapError h
    unfold newGame at hnew
    split at hnew
    · next node hstart =>
      cases hnew
      exact beginSession_goes (Or.inl rfl) hstart
    · cases hnew
  | load slot room =>
    obtain ⟨id, node, hnode, rfl⟩ := load_eq_ok (eq_ok_of_mapError h)
    exact beginSession_goes (Or.inr ⟨slot, room, rfl⟩) hnode
  | choose index => exact selectChoice_goes _ (eq_ok_of_mapError h)
  | jump index => exact jumpToHistory_goes (eq_ok_of_mapError h)
  | title => cases h; exact .title rfl
  | advance => cases h; exact advance_goes _ e
  | auto enabled => cases h; exact setMode_goes _ e .auto enabled
  | fastForward enabled => cases h; exact setMode_goes _ e .fastForward enabled
  | toggleAuto => cases h; exact setMode_goes _ e .auto _
  | toggleFastForward => cases h; exact setMode_goes _ e .fastForward _
  | acknowledge => cases h; exact acknowledgeEffect_goes _ e
  | openHistory => cases h; exact openHistory_goes _ e
  | closeHistory => cases h; exact closeHistory_goes _ e
  | _ => cases h

theorem Step.goes {e e' : Engine τ ν} {call : Call τ} (h : Step (· = call) e e') :
    e.session.Goes e.script call e'.session := by
  cases h with
  | request hcall hgranted =>
    subst hcall
    exact Engine.outcome_goes hgranted
  | @alarm target entry rest hdue =>
    exact Engine.fire_goes call { e with agenda := rest } entry.task
  | clock hquiet => exact .stays rfl rfl
  | saves saves => exact .stays rfl rfl

/-- A step is one of a single call; it does not matter which, if it is none of a request. -/
theorem Step.exists_call {permitted : Call τ → Prop} {e e' : Engine τ ν}
    (h : Step permitted e e') : ∃ call, Step (· = call) e e' := by
  cases h with
  | request hcall hgranted => exact ⟨_, .request rfl hgranted⟩
  | alarm hdue => exact ⟨.advance, .alarm hdue⟩
  | clock hquiet => exact ⟨.advance, .clock hquiet⟩
  | saves saves => exact ⟨.advance, .saves saves⟩

theorem Steps.walk {permitted : Call τ → Prop} {e e' : Engine τ ν} (h : Steps permitted e e')
    (hkeys : e.script.KeysAreIds) (hwalk : e.session.visited.IsChain e.script.Joins) :
    e'.session.visited.IsChain e.script.Joins := by
  induction h with
  | refl => exact hwalk
  | tail hsteps hstep ih =>
    obtain ⟨call, hcall⟩ := hstep.exists_call
    have hgoes := hcall.goes
    rw [Steps.script hsteps] at hgoes
    exact hgoes.walk hkeys ih

/-- Wherever a run has led, the history and the present node are a walk, and one more step leaves
the history as it is, adds the node left behind, cuts it at a jump, or empties it. -/
theorem histories_are_walks [LE τ] [DecidableLE τ] (script : Script) (hkeys : script.KeysAreIds)
    (timing : Timing τ) (saves : Option (Save.Repository ν)) (heedsCancel : Bool) :
    (∀ (stamps : Stamps) (fuel : Nat) (calls : List (Call τ)),
      Steps (fun _ => True) (Engine.opening script timing saves heedsCancel)
        ((House.opening (Engine.opening script timing saves heedsCancel) stamps).play fuel
          calls).engine) ∧
      ∀ e : Engine τ ν,
        Steps (fun _ => True) (Engine.opening script timing saves heedsCancel) e →
        e.session.visited.IsChain script.IsMove ∧
          ∀ (call : Call τ) (e' : Engine τ ν), Step (· = call) e e' →
            e.session.Goes script call e'.session := by
  constructor
  · intro stamps fuel calls
    exact House.play_steps fuel calls
      (fun call _ => call.within_any) _ stamps
  · intro e hsteps
    have hscript : e.script = script := Steps.script hsteps
    have hwalk := Steps.walk hsteps hkeys List.isChain_nil
    refine ⟨hwalk.imp fun a b hjoins => hjoins.isMove hkeys, ?_⟩
    intro call e' hstep
    exact hscript ▸ hstep.goes

end Runs

/-- From the question along its answer to the last line. -/
theorem histories_are_walks_in_a_story :
    forkScript.KeysAreIds ∧
      (forkOpening.play 40 [.newGame, .advance, .choose 0]).engine.session.visited =
        ["start", "left"] ∧
      (forkOpening.play 40 [.newGame, .advance, .choose 0]).engine.session.visited.IsChain
        forkScript.IsMove := by
  have hkeys : forkScript.KeysAreIds := Compiler.keysAreIds_compile {} forkText
  have hwalks := histories_are_walks (ν := Save.MemoryStore) forkScript hkeys Timing.usual none true
  refine ⟨hkeys, by decide +kernel, ?_⟩
  unfold forkOpening
  exact (hwalks.2 _ (hwalks.1 ⟨[], 0⟩ 40 _)).1

end Playback

end VisualNovel
