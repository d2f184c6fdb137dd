import VisualNovel.Playback.Engine
import VisualNovel.Proofs.Script.NodeKeys

/-!
What one request or one timer can do to an engine. Each request comes down to one of a few turns,
told with what the engine has checked before it; what holds of every turn holds of every request.
-/
namespace VisualNovel

/-- The node that going on past a video leads to, whether or not there are choices. -/
def Script.afterVideo? (s : Script) (node : Node) : Option Node :=
  if node.hasVideo = true ∧ node.next ≠ some endTarget then
    (node.next.bind Line.nonempty).bind s.get?
  else none

/-- Where going on from a node can lead. A choice whose target is not a node leads to the start. -/
inductive Link (s : Script) (node : Node) : Node → Prop
  | video {target : Node} (htarget : s.afterVideo? node = some target) : Link s node target
  | next {id : String} {target : Node} (hvideo : node.hasVideo = false)
      (hchoices : node.choices = []) (hnext : node.next = some id) (hend : id ≠ endTarget)
      (htarget : s.get? id = some target) : Link s node target
  | choice {choice : Choice} {target : Node} (hmem : choice ∈ node.choices)
      (htarget : s.resolve (some choice.target) = some target) : Link s node target

theorem nonempty_eq_some {s id : String} (h : Line.nonempty s = some id) : s = id := by
  unfold Line.nonempty at h
  split at h
  · exact absurd h (by simp)
  · exact Option.some.inj h

theorem Script.afterVideo?_eq_some {s : Script} {node target : Node}
    (h : s.afterVideo? node = some target) :
    node.hasVideo = true ∧ ∃ id, node.next = some id ∧ id ≠ endTarget ∧
      s.get? id = some target := by
  unfold afterVideo? at h
  split at h
  · next hpast =>
    obtain ⟨id, hid, hget⟩ := Option.bind_eq_some_iff.mp h
    obtain ⟨raw, hnext, hraw⟩ := Option.bind_eq_some_iff.mp hid
    have hsame := nonempty_eq_some hraw
    subst hsame
    exact ⟨hpast.1, raw, hnext, fun hend => hpast.2 (by rw [hnext, hend]), hget⟩
  · cases h

theorem Script.afterVideo?_of_next {s : Script} {node target : Node} {id : String}
    (hvideo : node.hasVideo = true) (hnext : node.next = some id) (hname : id ≠ "")
    (hend : id ≠ endTarget) (htarget : s.get? id = some target) :
    s.afterVideo? node = some target := by
  have hnonempty : Line.nonempty id = some id :=
    if_neg fun hempty => hname (String.isEmpty_iff.mp hempty)
  unfold afterVideo?
  rw [if_pos ⟨hvideo, by simpa [hnext] using hend⟩, hnext, Option.bind_some, hnonempty,
    Option.bind_some]
  exact htarget

theorem Link.exists_get? {s : Script} {node target : Node} (h : Link s node target) :
    ∃ id, s.get? id = some target := by
  cases h with
  | video htarget =>
    obtain ⟨-, id, -, -, hget⟩ := Script.afterVideo?_eq_some htarget
    exact ⟨id, hget⟩
  | @next id _ hvideo hchoices hnext hend htarget => exact ⟨id, htarget⟩
  | choice hmem htarget => exact Script.exists_get?_of_resolve htarget

namespace Playback

theorem Reveal.eq_revealed {reveal : Reveal} (h : reveal ≠ .revealing) : reveal = .revealed := by
  cases reveal with
  | revealing => exact absurd rfl h
  | revealed => rfl

variable {τ ν : Type}

namespace Engine

theorem currentNode_eq_some_iff (e : Engine τ ν) (node : Node) :
    e.currentNode = some node ↔
      e.session.view = .playing ∧ ∃ id, e.session.current = some id ∧
        e.script.get? id = some node := by
  unfold currentNode
  split
  · next hview => simp [hview, Option.bind_eq_some_iff]
  · next hview => simp [hview]

theorem frame_of_currentNode {e : Engine τ ν} {node : Node} (h : e.currentNode = some node) :
    e.frame = e.session.frameAt node := by
  rw [frame, h]

theorem frame_of_none {e : Engine τ ν} (h : e.currentNode = none) :
    e.frame = { view := e.session.view } := by
  rw [frame, h]

@[simp] theorem cancelTimers_script (e : Engine τ ν) : e.cancelTimers.script = e.script := rfl

@[simp] theorem cancelTimers_session (e : Engine τ ν) : e.cancelTimers.session = e.session := rfl

variable [Zero τ] [Add τ] [LT τ] [DecidableLT τ]

@[simp] theorem armReveal_script (e : Engine τ ν) : e.armReveal.script = e.script := rfl

@[simp] theorem armReveal_session (e : Engine τ ν) : e.armReveal.session = e.session := rfl

@[simp] theorem beginEnding_script (e : Engine τ ν) :
    e.beginEnding.engine.script = e.script := rfl

theorem beginEnding_session (e : Engine τ ν) :
    e.beginEnding.engine.session = { e.session with pacing := .manual, ending := true } := rfl

variable [Mul τ] [NatCast τ]

@[simp] theorem armPacing_script (e : Engine τ ν) : e.armPacing.script = e.script := by
  unfold armPacing
  repeat' split
  all_goals rfl

@[simp] theorem armPacing_session (e : Engine τ ν) : e.armPacing.session = e.session := by
  unfold armPacing
  repeat' split
  all_goals rfl

@[simp] theorem enter_script (e : Engine τ ν) (node : Node) :
    (e.enter node).engine.script = e.script := by
  unfold enter
  dsimp only
  split <;> simp [announced]

theorem enter_session (e : Engine τ ν) (node : Node) :
    (e.enter node).engine.session = { e.session with
      current := some node.id, progress := 0, effect := node.effect, ending := false
      reveal := if node.text.isEmpty then .revealed else .revealing } := by
  unfold enter
  dsimp only
  split <;> simp [announced]

theorem navigate_session (e : Engine τ ν) (node : Node) :
    (e.navigate node).engine.session = { e.session with
      history := e.session.history ++ e.session.current.toList
      current := some node.id, progress := 0, effect := node.effect, ending := false
      reveal := if node.text.isEmpty then .revealed else .revealing } := enter_session _ node

@[simp] theorem navigate_script (e : Engine τ ν) (node : Node) :
    (e.navigate node).engine.script = e.script := enter_script _ node

@[simp] theorem beginSession_script (e : Engine τ ν) (node : Node) :
    (e.beginSession node).engine.script = e.script := enter_script _ node

@[simp] theorem completeReveal_script (e : Engine τ ν) :
    e.completeReveal.engine.script = e.script := armPacing_script _

theorem completeReveal_session (e : Engine τ ν) :
    e.completeReveal.engine.session = { e.session with
      progress := (e.currentNode.map (·.text.length)).getD 0, reveal := .revealed } :=
  armPacing_session _

@[simp] theorem setPacing_script (e : Engine τ ν) (pacing : Pacing) :
    (e.setPacing pacing).engine.script = e.script := by
  unfold setPacing
  split
  · rfl
  · dsimp only [announced]
    split <;> simp

theorem setPacing_of_other {e : Engine τ ν} {pacing : Pacing} (hview : e.session.view = .playing)
    (hending : e.session.ending = false) (hother : e.session.pacing ≠ pacing) :
    e.setPacing pacing = announced (if e.session.reveal = .revealing
      then ({ e with session := { e.session with pacing } } : Engine τ ν).cancelTimers.armReveal
      else
        ({ e with session := { e.session with pacing } } : Engine τ ν).cancelTimers.armPacing) := by
  unfold setPacing
  rw [if_neg (by simp [hview, hending, hother])]
  rfl

/-- A change of pacing changes nothing else in the session, and is made only while a session is
playing and not ending. -/
theorem setPacing_session (e : Engine τ ν) (pacing : Pacing) :
    (e.setPacing pacing).engine.session = e.session ∨
      e.session.view = .playing ∧ e.session.ending = false ∧
        (e.setPacing pacing).engine.session = { e.session with pacing } := by
  unfold setPacing
  split
  · exact Or.inl rfl
  · next hopen =>
    simp only [not_or, ne_eq, Decidable.not_not, Bool.not_eq_true] at hopen
    refine Or.inr ⟨hopen.1, hopen.2.1, ?_⟩
    dsimp only [announced]
    split <;> simp

theorem revealTick_of_none {e : Engine τ ν} (h : e.currentNode = none) :
    e.revealTick = quiet { e with revealTimer := none } := by
  have hcurrent : ({ e with revealTimer := none } : Engine τ ν).currentNode = none := h
  unfold revealTick
  dsimp only
  rw [hcurrent]

/-- One more character appears: the last one, or one that others follow. -/
theorem revealTick_of_some {e : Engine τ ν} {node : Node} (h : e.currentNode = some node) :
    e.revealTick =
      if node.text.length ≤ min (e.session.progress + 1) node.text.length then
        announced ({ e with revealTimer := none, session := { e.session with
          progress := min (e.session.progress + 1) node.text.length
          reveal := .revealed } } : Engine τ ν).armPacing
      else announced ({ e with revealTimer := none, session := { e.session with
          progress := min (e.session.progress + 1) node.text.length } } :
            Engine τ ν).armReveal := by
  have hcurrent : ({ e with revealTimer := none } : Engine τ ν).currentNode = some node := h
  unfold revealTick
  dsimp only
  rw [hcurrent]

theorem revealTick_session {e : Engine τ ν} {node : Node} (h : e.currentNode = some node) :
    e.revealTick.engine.session = { e.session with
      progress := min (e.session.progress + 1) node.text.length
      reveal := if node.text.length ≤ min (e.session.progress + 1) node.text.length then .revealed
        else e.session.reveal } := by
  rw [revealTick_of_some h]
  split <;> simp [announced]

end Engine

/-- What a session that goes on can do next, and what a title screen can do. -/
inductive Turn [Zero τ] [Add τ] [Mul τ] [NatCast τ] [LT τ] [DecidableLT τ] (e : Engine τ ν) :
    Change τ ν → Prop
  | stay : Turn e e.quiet
  | title : Turn e e.returnToTitle
  | follow {node target : Node} (pacing : Pacing) (hcurrent : e.currentNode = some node)
      (hending : e.session.ending = false) (hlink : Link e.script node target) :
      Turn e (({ e with session := { e.session with pacing } } : Engine τ ν).navigate target)
  | back {index : Nat} {id : String} {node : Node} (hview : e.session.view = .playing)
      (hentry : e.session.history[index]? = some id)
      (hnode : e.script.resolve (some id) = some node) :
      Turn e (({ e with session := { e.session with
        history := e.session.history.take index, historyOpen := false, pacing := .manual } } :
          Engine τ ν).enter node)
  | complete {node : Node} (hcurrent : e.currentNode = some node)
      (hending : e.session.ending = false) (hreveal : e.session.reveal = .revealing) :
      Turn e e.completeReveal
  | finish {node : Node} (hcurrent : e.currentNode = some node)
      (hending : e.session.ending = false) (hvideo : node.hasVideo = false)
      (hreveal : e.session.reveal = .revealed) (hchoices : node.choices = [])
      (hnext : node.next = none ∨ node.next = some endTarget ∨
        ∃ id, node.next = some id ∧ e.script.get? id = none) : Turn e e.beginEnding
  | pace (pacing : Pacing) : Turn e (e.setPacing pacing)
  | cue : Turn e (Engine.announced { e with session := { e.session with effect := none } })
  | browse (isOpen : Bool) (hview : e.session.view = .playing ∨ isOpen = false) :
      Turn e (Engine.announced { e with session := { e.session with historyOpen := isOpen } })

/-- Of all that a session can do next, only the ending sets an ending under way. -/
theorem Turn.eq_beginEnding [Zero τ] [Add τ] [Mul τ] [NatCast τ] [LT τ] [DecidableLT τ]
    {e : Engine τ ν} {c : Change τ ν} (h : Turn e c) (hbefore : e.session.ending = false)
    (hafter : c.engine.session.ending = true) :
    c = e.beginEnding ∧ e.session.view = .playing := by
  cases h with
  | stay => cases hbefore.symm.trans hafter
  | title => cases hafter
  | follow pacing hcurrent hending hlink =>
    rw [Engine.navigate_session] at hafter
    cases hafter
  | back hview hentry hnode =>
    rw [Engine.enter_session] at hafter
    cases hafter
  | complete hcurrent hending hreveal =>
    rw [Engine.completeReveal_session] at hafter
    cases hbefore.symm.trans hafter
  | finish hcurrent hending hvideo hreveal hchoices hnext =>
    exact ⟨rfl, ((Engine.currentNode_eq_some_iff e _).mp hcurrent).1⟩
  | pace pacing =>
    rcases Engine.setPacing_session e pacing with hsame | ⟨-, -, hnew⟩
    · rw [hsame] at hafter
      cases hbefore.symm.trans hafter
    · rw [hnew] at hafter
      cases hbefore.symm.trans hafter
  | cue => cases hbefore.symm.trans hafter
  | browse isOpen hview => cases hbefore.symm.trans hafter

namespace Engine

theorem successor_eq_some {e : Engine τ ν} {node target : Node}
    (h : e.successor node = some target) :
    ∃ id, node.next = some id ∧ id ≠ endTarget ∧ e.script.get? id = some target := by
  unfold successor at h
  split at h
  · next id hnext =>
    split at h
    · exact absurd h (by simp)
    · next hend => exact ⟨id, hnext, hend, h⟩
  · exact absurd h (by simp)

theorem successor_eq_none {e : Engine τ ν} {node : Node} (h : e.successor node = none) :
    node.next = none ∨ node.next = some endTarget ∨
      ∃ id, node.next = some id ∧ e.script.get? id = none := by
  unfold successor at h
  split at h
  · next id hnext =>
    split at h
    · next hend => exact Or.inr (Or.inl (hend ▸ hnext))
    · exact Or.inr (Or.inr ⟨id, hnext, h⟩)
  · next hnext => exact Or.inl hnext

variable [Zero τ] [Add τ] [Mul τ] [NatCast τ] [LT τ] [DecidableLT τ]

theorem turn_passVideo (e : Engine τ ν) {node : Node} (hcurrent : e.currentNode = some node)
    (hending : e.session.ending = false) (hvideo : node.hasVideo = true) :
    Turn e (e.passVideo node) := by
  unfold passVideo
  split
  · exact .title
  · next hend =>
    split
    · next target htarget =>
      have hafter : e.script.afterVideo? node = some target := by
        unfold Script.afterVideo?
        rw [if_pos ⟨hvideo, hend⟩]
        exact htarget
      exact .follow e.session.pacing hcurrent hending (.video hafter)
    · exact .stay

/-- Without video and choices, going on from a complete text leads to the next node or begins the
ending. -/
theorem advance_of_plain {e : Engine τ ν} {node : Node} (hcurrent : e.currentNode = some node)
    (hending : e.session.ending = false) (hvideo : node.hasVideo = false)
    (hchoices : node.choices = []) (hrevealed : e.session.reveal = .revealed) :
    e.advance = match e.successor node with
      | some target => e.navigate target
      | none => e.beginEnding := by
  unfold advance
  rw [hcurrent]
  cases hsuccessor : e.successor node <;>
    simp [hending, hvideo, hrevealed, Node.isDecision, hchoices, hsuccessor]

theorem turn_advance (e : Engine τ ν) : Turn e e.advance := by
  unfold advance
  split
  · exact .stay
  · next node hcurrent =>
    split
    · exact .stay
    · next hending =>
      have hending : e.session.ending = false := by simpa using hending
      split
      · next hvideo => exact turn_passVideo e hcurrent hending hvideo
      · next hvideo =>
        have hvideo : node.hasVideo = false := by simpa using hvideo
        split
        · next hreveal => exact .complete hcurrent hending hreveal
        · next hreveal =>
          have hreveal : e.session.reveal = .revealed := Reveal.eq_revealed hreveal
          split
          · exact .pace .manual
          · next hdecision =>
            have hchoices : node.choices = [] := by simpa [Node.isDecision] using hdecision
            split
            · next target htarget =>
              obtain ⟨id, hnext, hend, hget⟩ := successor_eq_some htarget
              exact .follow e.session.pacing hcurrent hending
                (.next hvideo hchoices hnext hend hget)
            · next hnone =>
              exact .finish hcurrent hending hvideo hreveal hchoices (successor_eq_none hnone)

theorem selectChoice_eq_ok {e : Engine τ ν} {index : Int} {c : Change τ ν}
    (h : e.selectChoice index = .ok c) :
    ∃ node choice, e.currentNode = some node ∧ e.session.ending = false ∧
      e.session.reveal = .revealed ∧ 0 ≤ index ∧ node.choices[index.toNat]? = some choice ∧
      c = e.follow choice := by
  unfold selectChoice at h
  split at h
  · exact absurd h (by simp)
  · next node hcurrent =>
    split at h
    · exact absurd h (by simp)
    · next hoffered =>
      simp only [Bool.or_eq_true, not_or, Bool.not_eq_true] at hoffered
      split at h
      · exact absurd h (by simp)
      · next hrevealed =>
        split at h
        · next choice hchoice =>
          split at hchoice
          · next hindex =>
            have hshown : e.session.reveal = .revealed := Decidable.not_not.mp hrevealed
            exact ⟨node, choice, hcurrent, hoffered.1, hshown, hindex, hchoice,
              (Except.ok.inj h).symm⟩
          · exact absurd hchoice (by simp)
        · exact absurd h (by simp)

theorem turn_selectChoice {e : Engine τ ν} {index : Int} {c : Change τ ν}
    (h : e.selectChoice index = .ok c) : Turn e c := by
  obtain ⟨node, choice, hcurrent, hending, -, -, hchoice, rfl⟩ := selectChoice_eq_ok h
  unfold follow
  split
  · next target htarget =>
    exact .follow .manual hcurrent hending (.choice (List.mem_of_getElem? hchoice) htarget)
  · exact .title

theorem turn_setMode (e : Engine τ ν) (mode : Pacing) (enabled : Bool) :
    Turn e (e.setMode mode enabled) := by
  unfold setMode
  split
  · exact .pace mode
  · split
    · exact .pace .manual
    · exact .stay

theorem turn_acknowledgeEffect (e : Engine τ ν) : Turn e e.acknowledgeEffect := by
  unfold acknowledgeEffect
  split
  · exact .stay
  · exact .cue

theorem turn_openHistory (e : Engine τ ν) : Turn e e.openHistory := by
  unfold openHistory
  split
  · exact .stay
  · next h =>
    simp only [not_or, ne_eq, Decidable.not_not] at h
    exact .browse true (Or.inl h.1)

theorem turn_closeHistory (e : Engine τ ν) : Turn e e.closeHistory := by
  unfold closeHistory
  split
  · exact .browse false (Or.inr rfl)
  · exact .stay

/-- A jump that is granted goes back to an entry of the history, or gives up the session if there is
nothing to go back to. -/
theorem jumpToHistory_eq_ok {e : Engine τ ν} {index : Int} {c : Change τ ν}
    (h : e.jumpToHistory index = .ok c) :
    e.session.view = .playing ∧ 0 ≤ index ∧ ∃ id, e.session.history[index.toNat]? = some id ∧
      (c = e.returnToTitle ∨ ∃ node, e.script.resolve (some id) = some node ∧
        c = ({ e with session := { e.session with
          history := e.session.history.take index.toNat, historyOpen := false
          pacing := .manual } } : Engine τ ν).enter node) := by
  unfold jumpToHistory at h
  split at h
  · cases h
  · next hview =>
    split at h
    · cases h
    · next id hentry =>
      split at hentry
      · next hindex =>
        refine ⟨by simpa using hview, hindex, id, hentry, ?_⟩
        dsimp only at h
        split at h
        · exact Or.inl (Except.ok.inj h).symm
        · next node hnode => exact Or.inr ⟨node, hnode, (Except.ok.inj h).symm⟩
      · cases hentry

theorem turn_jumpToHistory {e : Engine τ ν} {index : Int} {c : Change τ ν}
    (h : e.jumpToHistory index = .ok c) : Turn e c := by
  obtain ⟨hview, -, id, hentry, rfl | ⟨node, hnode, rfl⟩⟩ := jumpToHistory_eq_ok h
  · exact .title
  · exact .back hview hentry hnode

end Engine

end Playback

end VisualNovel
