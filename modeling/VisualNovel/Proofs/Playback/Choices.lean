import VisualNovel.Proofs.Playback.Sessions
import VisualNovel.Proofs.Script.Validity

/-!
Where choices lead. In a script without broken links, a choice leads to the node it names, whatever
has happened before. A choice that names the end of the session leads to the start instead.
-/
namespace VisualNovel

theorem Script.resolve_endTarget (s : Script) : s.resolve (some endTarget) = s.start? := by
  unfold Script.resolve
  exact if_pos rfl

theorem Script.resolve_of_get? {s : Script} {id : String} {node : Node} (hend : id ≠ endTarget)
    (hnode : s.get? id = some node) : s.resolve (some id) = some node := by
  unfold Script.resolve
  dsimp only
  rw [if_neg hend, hnode]
  rfl

/-- The choices of a node are links, even where it has a next node as well. -/
theorem Node.mem_successors_of_choice {node : Node} {choice : Choice}
    (hmem : choice ∈ node.choices) : choice.target ∈ node.successors := by
  have hsome : node.choices.isEmpty = false :=
    List.isEmpty_eq_false_iff.mpr (List.ne_nil_of_mem hmem)
  simp only [Node.successors, hsome, Bool.false_eq_true, if_false]
  exact List.mem_map_of_mem hmem

namespace Playback

/-- What a choice promises: the node that it names, or that the session ends. -/
def Session.Keeps (script : Script) (choice : Choice) (s : Session) : Prop :=
  if choice.target = endTarget then s.view = .title ∨ s.ending = true
  else s.view = .playing ∧ s.ending = false ∧ s.current = some choice.target ∧
    script.contains choice.target = true

variable {τ ν : Type}

section Requests
variable [Zero τ] [Add τ] [Mul τ] [NatCast τ] [LT τ] [DecidableLT τ]

namespace Engine

theorem follow_eq_navigate {e : Engine τ ν} {choice : Choice} {target : Node}
    (h : e.script.resolve (some choice.target) = some target) :
    e.follow choice = ({ e with session := { e.session with pacing := .manual } } :
      Engine τ ν).navigate target := by
  unfold follow
  rw [h]

theorem follow_session {e : Engine τ ν} {choice : Choice} {target : Node}
    (h : e.script.resolve (some choice.target) = some target) :
    (e.follow choice).engine.session.view = e.session.view ∧
      (e.follow choice).engine.session.current = some target.id ∧
      (e.follow choice).engine.session.ending = false := by
  rw [follow_eq_navigate h]
  rw [navigate_session]
  exact ⟨rfl, rfl, rfl⟩

theorem follow_script {e : Engine τ ν} {choice : Choice} {target : Node}
    (h : e.script.resolve (some choice.target) = some target) :
    (e.follow choice).engine.script = e.script := by
  rw [follow_eq_navigate h]
  exact navigate_script _ target

/-- Choices of a script without broken links lead where they say, unless they name the end. -/
theorem follow_keeps_iff {e : Engine τ ν} {node : Node} {choice : Choice}
    (hlinked : e.script.Linked) (hkeys : e.script.KeysAreIds) (hcurrent : e.currentNode = some node)
    (hmem : choice ∈ node.choices) :
    ((e.follow choice).engine.session.Keeps e.script choice ↔ choice.target ≠ endTarget) ∧
      (choice.target = endTarget → (e.follow choice).engine.currentNode = e.script.start?) := by
  obtain ⟨hview, id, -, hnode⟩ := (currentNode_eq_some_iff e node).mp hcurrent
  unfold Session.Keeps
  by_cases hend : choice.target = endTarget
  · obtain ⟨start, hstart⟩ := Option.isSome_iff_exists.mp hlinked.start
    have hresolve : e.script.resolve (some choice.target) = some start := by
      rw [hend, Script.resolve_endTarget, hstart]
    obtain ⟨hplaying, hthere, hnotEnding⟩ := follow_session hresolve
    rw [if_pos hend, hplaying, hview, hnotEnding]
    refine ⟨by simp [hend], fun _ => ?_⟩
    have hid : e.script.get? start.id = some start := hkeys.get?_id hstart
    rw [hstart, currentNode_eq_some_iff, follow_script hresolve]
    exact ⟨hplaying.trans hview, start.id, hthere, hid⟩
  · obtain ⟨target, htarget⟩ :=
      hlinked.get? hnode (Node.mem_successors_of_choice hmem) hend
    have hresolve := Script.resolve_of_get? hend htarget
    obtain ⟨hplaying, hthere, hnotEnding⟩ := follow_session hresolve
    have hcontains := hlinked.links id node hnode _ (Node.mem_successors_of_choice hmem) hend
    rw [if_neg hend]
    refine ⟨⟨fun _ => hend, fun _ => ⟨hplaying.trans hview, hnotEnding, ?_, hcontains⟩⟩, ?_⟩
    · rw [hthere, hkeys choice.target target htarget]
    · exact fun hsame => absurd hsame hend

end Engine

end Requests

section Runs
variable [Save.KeyValueStore ν]
variable [Zero τ] [Add τ] [Mul τ] [NatCast τ] [LT τ] [DecidableLT τ] [LE τ] [DecidableLE τ]

/-- Calls take an engine through steps, and wherever these have led in a valid script, a choice that
is accepted keeps what it promises exactly if it does not name the end of the session. That choice
leads to the start. -/
theorem accepted_choices_keep_their_promise_iff (c : Compiler) (text : String)
    (hvalid : (Graph.validate (c.compile text).script).isValid = true) (timing : Timing τ)
    (saves : Option (Save.Repository ν)) (heedsCancel : Bool) :
    (∀ (stamps : Stamps) (fuel : Nat) (calls : List (Call τ)),
      Steps (fun _ => True) (Engine.opening (c.compile text).script timing saves heedsCancel)
        ((House.opening (Engine.opening (c.compile text).script timing saves heedsCancel)
          stamps).play fuel (.newGame :: calls)).engine) ∧
      ∀ e : Engine τ ν, Steps (fun _ => True)
          (Engine.opening (c.compile text).script timing saves heedsCancel) e →
        ∀ (index : Int) (change : Change τ ν), e.selectChoice index = .ok change →
          ∃ node choice, e.currentNode = some node ∧ 0 ≤ index ∧
            node.choices[index.toNat]? = some choice ∧
            (change.engine.session.Keeps (c.compile text).script choice ↔
              choice.target ≠ endTarget) ∧
            (choice.target = endTarget →
              change.engine.currentNode = (c.compile text).script.start?) := by
  constructor
  · intro stamps fuel calls
    exact House.play_steps fuel (.newGame :: calls)
      (fun call _ => call.within_any) _ stamps
  · intro e hsteps index change hchosen
    have hscript : e.script = (c.compile text).script := Steps.script hsteps
    have hkeys : e.script.KeysAreIds := by
      rw [hscript]
      exact Compiler.keysAreIds_compile c text
    have hlinked : e.script.Linked := by
      rw [hscript]
      exact (Graph.isValid_iff _).mp hvalid
    obtain ⟨node, choice, hcurrent, -, -, hindex, hchoice, rfl⟩ :=
      Engine.selectChoice_eq_ok hchosen
    have hkept := Engine.follow_keeps_iff hlinked hkeys hcurrent (List.mem_of_getElem? hchoice)
    rw [hscript] at hkept
    exact ⟨node, choice, hcurrent, hindex, hchoice, hkept⟩

end Runs

/-- What becomes of the session when a choice is made. -/
def House.sessionAfterChoice (h : House Nat Save.MemoryStore) (index : Int) : Option Session :=
  (h.engine.selectChoice index).toOption.map (·.engine.session)

theorem House.exists_of_sessionAfterChoice {h : House Nat Save.MemoryStore} {index : Int}
    {s : Session} (hafter : h.sessionAfterChoice index = some s) :
    ∃ change, h.engine.selectChoice index = .ok change ∧ change.engine.session = s := by
  unfold House.sessionAfterChoice at hafter
  cases hchosen : h.engine.selectChoice index with
  | error fault =>
    rw [hchosen] at hafter
    cases hafter
  | ok change =>
    rw [hchosen] at hafter
    exact ⟨change, rfl, Option.some.inj hafter⟩

theorem accepted_choices_keep_their_promise_in_a_story :
    (Graph.validate forkScript).isValid = true ∧
      ∃ change, (forkOpening.play 40 [.newGame, .advance]).engine.selectChoice 0 = .ok change ∧
        change.engine.session.Keeps forkScript ⟨"A. Left", "left", .normal⟩ := by
  have hvalid : (Graph.validate forkScript).isValid = true := by decide +kernel
  have hafter : (forkOpening.play 40 [.newGame, .advance]).sessionAfterChoice 0 = some {
      view := .playing, current := some "left", history := ["start"], reveal := .revealing } := by
    decide +kernel
  have hoffered : (forkOpening.play 40 [.newGame, .advance]).engine.currentNode.bind
      (·.choices[(0 : Int).toNat]?) = some ⟨"A. Left", "left", .normal⟩ := by decide +kernel
  obtain ⟨change, hchange, -⟩ := House.exists_of_sessionAfterChoice hafter
  refine ⟨hvalid, change, hchange, ?_⟩
  have hkept := accepted_choices_keep_their_promise_iff (ν := Save.MemoryStore) {} forkText hvalid
    Timing.usual none true
  obtain ⟨node, choice, hcurrent, -, hchoice, hiff, -⟩ :=
    hkept.2 _ (hkept.1 ⟨[], 0⟩ 40 [.advance]) 0 change hchange
  have hsame : choice = ⟨"A. Left", "left", .normal⟩ := by
    unfold forkOpening forkScript at hoffered
    rw [hcurrent, Option.bind_some, hchoice] at hoffered
    exact Option.some.inj hoffered
  subst hsame
  exact hiff.mpr (by decide)

/-- A choice that is meant to end the session. -/
def quitText : String := "Hi\nA. Quit >> END"

def quitScript : Script := (({} : Compiler).compile quitText).script

def quitOpening : House Nat Save.MemoryStore :=
  .opening (.opening quitScript Timing.usual none) ⟨[], 0⟩

/-- It begins the story again, and keeps the history. -/
theorem a_choice_of_the_end_leads_to_the_start :
    (Graph.validate quitScript).isValid = true ∧
      (quitOpening.play 40 [.newGame, .advance]).engine.currentNode.map (·.choices) =
        some [⟨"A. Quit", "END", .normal⟩] ∧
      ∃ change, (quitOpening.play 40 [.newGame, .advance]).engine.selectChoice 0 = .ok change ∧
        change.engine.session.current = some "start" ∧
        change.engine.session.history = ["start"] ∧
        ¬ change.engine.session.Keeps quitScript ⟨"A. Quit", "END", .normal⟩ := by
  have hafter : (quitOpening.play 40 [.newGame, .advance]).sessionAfterChoice 0 = some {
      view := .playing, current := some "start", history := ["start"], reveal := .revealing } := by
    decide +kernel
  obtain ⟨change, hchange, hsession⟩ := House.exists_of_sessionAfterChoice hafter
  refine ⟨by decide +kernel, by decide +kernel, change, hchange, ?_⟩
  rw [hsession]
  exact ⟨rfl, rfl, by simp [Session.Keeps, endTarget]⟩

end Playback

end VisualNovel
