import VisualNovel.Proofs.Playback.Runs
import VisualNovel.Proofs.Script.NodeKeys

/-!
What a session can look like. On the title screen it is the initial one. While playing it stands at
a node of the script, shows a first part of its text, and is about to end only where play cannot go
on by itself or by the player. Every run keeps to this, whatever is called and whatever fails.
-/
namespace VisualNovel.Playback

/-- Play is about to end at a node that neither offers nor leads to anything. -/
structure Session.Closing (script : Script) (s : Session) (node : Node) : Prop where
  pacing : s.pacing = .manual
  reveal : s.reveal = .revealed
  choices : node.choices = []
  video : node.hasVideo = false
  next : node.next = none ∨ node.next = some endTarget ∨
    ∃ id, node.next = some id ∧ script.get? id = none

/-- A session that plays a node. -/
structure Session.At (script : Script) (s : Session) (node : Node) : Prop where
  found : script.get? node.id = some node
  current : s.current = some node.id
  history : ∀ id ∈ s.history, script.contains id = true
  progress : s.progress ≤ node.text.length
  reveal : s.reveal = .revealed ↔ s.progress = node.text.length
  effect : s.effect = none ∨ s.effect = node.effect
  ending : s.ending = true → s.Closing script node

/-- The title screen has one state only; a session that plays stands at a node. -/
structure Session.Sound (script : Script) (s : Session) : Prop where
  title : s.view = .title → s = {}
  playing : s.view = .playing → ∃ node, s.At script node

namespace Session

theorem sound_initial (script : Script) : Sound script {} where
  title := fun _ => rfl
  playing := fun h => by cases h

theorem At.sound {script : Script} {s : Session} {node : Node} (h : s.At script node)
    (hview : s.view = .playing) : s.Sound script where
  title := fun htitle => by cases hview.symm.trans htitle
  playing := fun _ => ⟨node, h⟩

theorem At.not_ending {script : Script} {s : Session} {node : Node} (h : s.At script node)
    (hreveal : s.reveal = .revealing) : s.ending = false := by
  cases hending : s.ending with
  | false => rfl
  | true => exact absurd (hreveal.symm.trans (h.ending hending).reveal) (by simp)

theorem At.contains {script : Script} {s : Session} {node : Node} (h : s.At script node) :
    ∀ id ∈ s.current.toList, script.contains id = true := by
  intro id hid
  rw [h.current] at hid
  have hsame : id = node.id := by simpa using hid
  subst hsame
  have hfound : script.nodes.get? node.id = some node := h.found
  simp [Script.contains, KeyedList.contains, hfound]

end Session

variable {τ ν : Type}

namespace Engine

theorem at_of_currentNode {e : Engine τ ν} {node : Node} (h : e.session.Sound e.script)
    (hcurrent : e.currentNode = some node) :
    e.session.view = .playing ∧ e.session.At e.script node := by
  obtain ⟨hview, id, hid, hnode⟩ := (currentNode_eq_some_iff e node).mp hcurrent
  obtain ⟨other, hat⟩ := h.playing hview
  have hother : other = node := by
    rw [hat.current, Option.some.injEq] at hid
    rw [← hid, hat.found, Option.some.injEq] at hnode
    exact hnode
  exact ⟨hview, hother ▸ hat⟩

theorem currentNode_of_at {e : Engine τ ν} {node : Node} (hview : e.session.view = .playing)
    (h : e.session.At e.script node) : e.currentNode = some node :=
  (currentNode_eq_some_iff e node).mpr ⟨hview, node.id, h.current, h.found⟩

variable [Zero τ] [Add τ] [Mul τ] [NatCast τ] [LT τ] [DecidableLT τ]

theorem enter_sound {e : Engine τ ν} {node : Node} (hview : e.session.view = .playing)
    (hhistory : ∀ id ∈ e.session.history, e.script.contains id = true)
    (hnode : e.script.get? node.id = some node) :
    (e.enter node).engine.session.Sound e.script := by
  have hat : (e.enter node).engine.session.At e.script node := by
    rw [enter_session]
    refine ⟨hnode, rfl, hhistory, Nat.zero_le _, ?_, Or.inr rfl, fun h => absurd h (by simp)⟩
    by_cases htext : node.text.isEmpty = true
    · have hempty : node.text = "" := String.isEmpty_iff.mp htext
      simp [hempty]
    · have hlength : node.text.length ≠ 0 := by
        intro hzero
        exact htext (by simp [String.length_eq_zero_iff.mp hzero])
      simp only [htext]
      constructor
      · intro h
        cases h
      · intro h
        exact absurd h.symm hlength
  refine hat.sound ?_
  rw [enter_session]
  exact hview

theorem beginSession_sound {e : Engine τ ν} {node : Node}
    (hnode : e.script.get? node.id = some node) :
    (e.beginSession node).engine.session.Sound e.script :=
  enter_sound (e := { e.cancelTimers with session := { view := .playing } }) rfl
    (fun id hid => absurd hid (by simp)) hnode

theorem navigate_sound {e : Engine τ ν} {node target : Node} (hview : e.session.view = .playing)
    (hat : e.session.At e.script node) (htarget : e.script.get? target.id = some target) :
    (e.navigate target).engine.session.Sound e.script := by
  refine enter_sound (e := { e with session := { e.session with
    history := e.session.history ++ e.session.current.toList } }) hview ?_ htarget
  intro id hid
  rcases List.mem_append.mp hid with hold | hnew
  · exact hat.history id hold
  · exact hat.contains id hnew

theorem completeReveal_sound {e : Engine τ ν} {node : Node} (hsound : e.session.Sound e.script)
    (hcurrent : e.currentNode = some node) (hending : e.session.ending = false) :
    e.completeReveal.engine.session.Sound e.script := by
  obtain ⟨hview, hat⟩ := at_of_currentNode hsound hcurrent
  rw [completeReveal_session, hcurrent]
  refine Session.At.sound (?_ : Session.At _ _ node) hview
  exact { hat with
    progress := Nat.le_refl _
    reveal := by simp
    ending := fun h => absurd (hending.symm.trans h) (by simp) }

theorem setPacing_sound {e : Engine τ ν} (hsound : e.session.Sound e.script) (pacing : Pacing) :
    (e.setPacing pacing).engine.session.Sound e.script := by
  rcases setPacing_session e pacing with hsame | ⟨hview, hending, hnew⟩
  · rw [hsame]
    exact hsound
  · rw [hnew]
    obtain ⟨node, hat⟩ := hsound.playing hview
    refine Session.At.sound (?_ : Session.At _ _ node) hview
    exact { hat with ending := fun h => absurd (hending.symm.trans h) (by simp) }

theorem revealTick_sound {e : Engine τ ν} (hsound : e.session.Sound e.script) :
    e.revealTick.engine.session.Sound e.script := by
  unfold revealTick
  dsimp only
  split
  · exact hsound
  · next node hcurrent =>
    obtain ⟨hview, hat⟩ := at_of_currentNode hsound hcurrent
    split
    · next hfull =>
      have hprogress : min (e.session.progress + 1) node.text.length = node.text.length :=
        Nat.le_antisymm (Nat.min_le_right _ _) hfull
      refine Session.At.sound (?_ : Session.At _ _ node) (by simpa [announced] using hview)
      simp only [announced, armPacing_session, hprogress]
      exact { hat with
        progress := Nat.le_refl _
        reveal := by simp
        ending := fun h => { hat.ending h with reveal := rfl } }
    · next hpart =>
      have hless : e.session.progress + 1 < node.text.length := by omega
      have hprogress : min (e.session.progress + 1) node.text.length = e.session.progress + 1 :=
        Nat.min_eq_left (Nat.le_of_lt hless)
      have hrevealing : e.session.reveal ≠ .revealed := by
        intro h
        have hfull := hat.reveal.mp h
        omega
      refine Session.At.sound (?_ : Session.At _ _ node) hview
      simp only [announced, armReveal_session, hprogress]
      exact { hat with
        progress := Nat.le_of_lt hless
        reveal := ⟨fun h => absurd h hrevealing, fun h => by simp only at h; omega⟩
        ending := fun h => { hat.ending h with } }

end Engine

section Turns
variable [Zero τ] [Add τ] [Mul τ] [NatCast τ] [LT τ] [DecidableLT τ]

theorem Turn.script {e : Engine τ ν} {c : Change τ ν} (h : Turn e c) :
    c.engine.script = e.script := by
  cases h with
  | stay => rfl
  | title => rfl
  | follow pacing hcurrent hending hlink => exact Engine.navigate_script _ _
  | back hview hentry hnode => exact Engine.enter_script _ _
  | complete hcurrent hending hreveal => exact Engine.completeReveal_script e
  | finish hcurrent hending hvideo hreveal hchoices hnext => rfl
  | pace pacing => exact Engine.setPacing_script e pacing
  | cue => rfl
  | browse isOpen hview => rfl

theorem Turn.sound {e : Engine τ ν} {c : Change τ ν} (h : Turn e c)
    (hkeys : e.script.KeysAreIds) (hsound : e.session.Sound e.script) :
    c.engine.session.Sound e.script := by
  cases h with
  | stay => exact hsound
  | title => exact Session.sound_initial e.script
  | @follow node target pacing hcurrent hending hlink =>
    obtain ⟨hview, hat⟩ := Engine.at_of_currentNode hsound hcurrent
    obtain ⟨id, htarget⟩ := hlink.exists_get?
    refine Engine.navigate_sound (e := { e with session := { e.session with pacing } })
      hview (?_ : Session.At _ _ node) (hkeys.get?_id htarget)
    exact { hat with ending := fun h => absurd (hending.symm.trans h) (by simp) }
  | @back index id node hview hentry hnode =>
    obtain ⟨other, hat⟩ := hsound.playing hview
    obtain ⟨key, hkey⟩ := Script.exists_get?_of_resolve hnode
    exact Engine.enter_sound (e := { e with session := { e.session with
        history := e.session.history.take index, historyOpen := false, pacing := .manual } })
      hview (fun id hid => hat.history id (List.mem_of_mem_take hid)) (hkeys.get?_id hkey)
  | complete hcurrent hending hreveal =>
    exact Engine.completeReveal_sound hsound hcurrent hending
  | @finish node hcurrent hending hvideo hreveal hchoices hnext =>
    obtain ⟨hview, hat⟩ := Engine.at_of_currentNode hsound hcurrent
    rw [Engine.beginEnding_session]
    refine Session.At.sound (?_ : Session.At _ _ node) hview
    exact { hat with ending := fun _ => ⟨rfl, hreveal, hchoices, hvideo, hnext⟩ }
  | pace pacing => exact Engine.setPacing_sound hsound pacing
  | cue =>
    cases hview : e.session.view with
    | title =>
      simp only [Engine.announced, hsound.title hview]
      exact Session.sound_initial e.script
    | playing =>
      obtain ⟨node, hat⟩ := hsound.playing hview
      refine Session.At.sound (?_ : Session.At _ _ node) hview
      exact { hat with
        effect := Or.inl rfl
        ending := fun h => { hat.ending h with } }
  | browse isOpen hallowed =>
    cases hview : e.session.view with
    | title =>
      have hclosed : isOpen = false := hallowed.resolve_left (by simp [hview])
      simp only [Engine.announced, hsound.title hview, hclosed]
      exact Session.sound_initial e.script
    | playing =>
      obtain ⟨node, hat⟩ := hsound.playing hview
      refine Session.At.sound (?_ : Session.At _ _ node) hview
      exact { hat with ending := fun h => { hat.ending h with } }

theorem Engine.fire_sound {e : Engine τ ν} (alarm : Alarm) (hkeys : e.script.KeysAreIds)
    (hsound : e.session.Sound e.script) :
    (e.fire alarm).engine.session.Sound e.script := by
  unfold fire
  split
  · exact hsound
  · split
    · exact revealTick_sound hsound
    · exact (turn_advance { e with pacingTimer := none }).sound hkeys hsound
    · exact Session.sound_initial e.script

theorem Engine.fire_script (e : Engine τ ν) (alarm : Alarm) :
    (e.fire alarm).engine.script = e.script := by
  unfold fire
  split
  · rfl
  · split
    · unfold revealTick
      dsimp only
      split
      · rfl
      · split
        · exact armPacing_script _
        · rfl
    · exact (turn_advance { e with pacingTimer := none }).script
    · rfl

end Turns

section Runs
variable [Save.KeyValueStore ν]
variable [Zero τ] [Add τ] [Mul τ] [NatCast τ] [LT τ] [DecidableLT τ]
variable {permitted : Call τ → Prop}

theorem Step.script {e e' : Engine τ ν} (h : Step permitted e e') : e'.script = e.script := by
  cases h with
  | request hcall hgranted =>
    rcases Engine.outcome_cases hgranted with hturn | ⟨id, node, hnode, rfl, horigin⟩
    · exact hturn.script
    · exact Engine.beginSession_script e node
  | alarm hdue => exact Engine.fire_script _ _
  | clock hquiet => rfl
  | saves saves => rfl

theorem Step.sound {e e' : Engine τ ν} (h : Step permitted e e') (hkeys : e.script.KeysAreIds)
    (hsound : e.session.Sound e.script) : e'.session.Sound e'.script := by
  rw [h.script]
  cases h with
  | request hcall hgranted =>
    rcases Engine.outcome_cases hgranted with hturn | ⟨id, node, hnode, rfl, horigin⟩
    · exact hturn.sound hkeys hsound
    · exact Engine.beginSession_sound (hkeys.get?_id hnode)
  | @alarm target entry rest hdue =>
    exact Engine.fire_sound (e := { e with agenda := rest }) entry.task hkeys hsound
  | clock hquiet => exact hsound
  | saves saves => exact hsound

theorem Steps.script {e e' : Engine τ ν} (h : Steps permitted e e') : e'.script = e.script := by
  induction h with
  | refl => rfl
  | tail hsteps hstep ih => exact hstep.script.trans ih

theorem Steps.sound {e e' : Engine τ ν} (h : Steps permitted e e') (hkeys : e.script.KeysAreIds)
    (hsound : e.session.Sound e.script) : e'.session.Sound e'.script := by
  induction h with
  | refl => exact hsound
  | tail hsteps hstep ih => exact hstep.sound (Steps.script hsteps ▸ hkeys) ih

/-- Whatever is called and however long time runs, a session is the initial one on the title screen
and stands soundly at a node of the script while it plays. Compiled scripts are among those in which
every node stands under its own identifier. -/
theorem sessions_stay_sound [LE τ] [DecidableLE τ] :
    (∀ (c : Compiler) (text : String), (c.compile text).script.KeysAreIds) ∧
      ∀ (script : Script), script.KeysAreIds →
        ∀ (timing : Timing τ) (saves : Option (Save.Repository ν)) (heedsCancel : Bool)
          (stamps : Stamps) (fuel : Nat) (calls : List (Call τ)),
          ((House.opening (Engine.opening script timing saves heedsCancel) stamps).play
            fuel calls).engine.session.Sound script := by
  refine ⟨Compiler.keysAreIds_compile, ?_⟩
  intro script hkeys timing saves heedsCancel stamps fuel calls
  have hall : ∀ call ∈ calls, call.Within fun _ => True :=
    fun call _ => call.within_any
  have hsteps := House.play_steps fuel calls hall
    (Engine.opening script timing saves heedsCancel) stamps
  have hsound := Steps.sound hsteps hkeys (Session.sound_initial script)
  rw [Steps.script hsteps] at hsound
  exact hsound

end Runs

theorem sessions_stay_sound_at_the_end_of_a_story :
    forkScript.KeysAreIds ∧
      (forkOpening.play 40 [.newGame, .advance, .choose 7, .choose 0, .auto true,
        .wait 2000]).engine.session.Sound forkScript ∧
      (forkOpening.play 40 [.newGame, .advance, .choose 7, .choose 0, .auto true,
        .wait 2000]).engine.session.ending = true := by
  have hkeys : forkScript.KeysAreIds := by
    have hcompiled := (sessions_stay_sound (τ := Nat) (ν := Save.MemoryStore)).1
    exact hcompiled {} forkText
  refine ⟨hkeys, ?_, by decide +kernel⟩
  unfold forkOpening
  exact (sessions_stay_sound (τ := Nat) (ν := Save.MemoryStore)).2 forkScript hkeys
    Timing.usual none true ⟨[], 0⟩ 40 _

end VisualNovel.Playback
