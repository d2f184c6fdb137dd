import VisualNovel.Proofs.Playback.Choices
import VisualNovel.Proofs.Playback.TimeAlone

/-!
The choices that a frame offers are the choices that are accepted. The frame does not look at the
ending of a session and the request for a choice does, but no ending is ever under way where there
are choices. What is chosen is entered afresh, and nothing goes on of the node left behind.
-/
namespace VisualNovel

theorem exists_item_iff {α : Type} {items : List α} {index : Int} :
    (∃ item, 0 ≤ index ∧ items[index.toNat]? = some item) ↔ 0 ≤ index ∧ index < items.length := by
  constructor
  · rintro ⟨item, hpos, hitem⟩
    obtain ⟨hless, -⟩ := List.getElem?_eq_some_iff.mp hitem
    omega
  · rintro ⟨hpos, hless⟩
    have hinside : index.toNat < items.length := by omega
    exact ⟨items[index.toNat], hpos, List.getElem?_eq_getElem hinside⟩

theorem Script.exists_resolve {s : Script} (hstart : s.start?.isSome = true)
    (target : Option String) : ∃ node, s.resolve target = some node := by
  obtain ⟨start, hstart⟩ := Option.isSome_iff_exists.mp hstart
  unfold Script.resolve
  cases target with
  | none => exact ⟨start, hstart⟩
  | some id =>
    dsimp only
    split
    · exact ⟨start, hstart⟩
    · cases hfound : s.get? id with
      | none => exact ⟨start, hstart⟩
      | some node => exact ⟨node, rfl⟩

namespace Playback

variable {τ ν : Type}

namespace Engine

/-- What a choice does: its target is entered from the first character on, with the pacing switched
off, and the node left behind is remembered. -/
structure ChoiceLeads (e : Engine τ ν) (choice : Choice) (e' : Engine τ ν) : Prop where
  entered : ∃ target, e.script.resolve (some choice.target) = some target ∧
    e'.currentNode = some target
  remembered : ∃ id, e.session.current = some id ∧ e'.session.history = e.session.history ++ [id]
  pacing : e'.session.pacing = .manual
  progress : e'.session.progress = 0
  ending : e'.session.ending = false

variable [Zero τ] [Add τ] [Mul τ] [NatCast τ] [LT τ] [DecidableLT τ]

section Requests

/-- An accepted choice is one of the frame. -/
theorem selectChoice_offered {e : Engine τ ν} {index : Int} {c : Change τ ν}
    (h : e.selectChoice index = .ok c) :
    ∃ choice, 0 ≤ index ∧ e.frame.choices[index.toNat]? = some choice ∧ c = e.follow choice := by
  obtain ⟨node, choice, hcurrent, -, hrevealed, hpos, hchoice, rfl⟩ := selectChoice_eq_ok h
  refine ⟨choice, hpos, ?_, rfl⟩
  rw [frame_of_currentNode hcurrent]
  simp only [Session.frameAt, hrevealed, if_true]
  exact hchoice

/-- A choice of the frame is accepted, for no ending is under way where there is one. -/
theorem selectChoice_of_offered {e : Engine τ ν} (hsound : e.session.Sound e.script) {index : Int}
    {choice : Choice} (hpos : 0 ≤ index) (hoffered : e.frame.choices[index.toNat]? = some choice) :
    e.selectChoice index = .ok (e.follow choice) := by
  cases hcurrent : e.currentNode with
  | none =>
    rw [frame_of_none hcurrent] at hoffered
    cases hoffered
  | some node =>
    obtain ⟨-, hat⟩ := at_of_currentNode hsound hcurrent
    rw [frame_of_currentNode hcurrent] at hoffered
    cases hreveal : e.session.reveal with
    | revealing => simp [Session.frameAt, hreveal] at hoffered
    | revealed =>
      simp only [Session.frameAt, hreveal, if_true] at hoffered
      have hchoices : node.choices ≠ [] := List.ne_nil_of_mem (List.mem_of_getElem? hoffered)
      have hdecision : node.isDecision = true := by simpa [Node.isDecision] using hchoices
      have hending : e.session.ending = false := hat.not_ending_of_asksPlayer (.inl hchoices)
      unfold selectChoice
      rw [hcurrent]
      simp [hending, hdecision, hreveal, hpos, hoffered]

theorem exists_selectChoice_iff {e : Engine τ ν} (hsound : e.session.Sound e.script)
    {index : Int} : (∃ c, e.selectChoice index = .ok c) ↔
      0 ≤ index ∧ index < e.frame.choices.length := by
  rw [← exists_item_iff]
  constructor
  · rintro ⟨c, hchosen⟩
    obtain ⟨choice, hpos, hoffered, -⟩ := selectChoice_offered hchosen
    exact ⟨choice, hpos, hoffered⟩
  · rintro ⟨choice, hpos, hoffered⟩
    exact ⟨_, selectChoice_of_offered hsound hpos hoffered⟩

/-- Where there is a start, an accepted choice enters what it names or, failing that, the start. -/
theorem selectChoice_leads {e : Engine τ ν} {index : Int} {c : Change τ ν}
    (h : e.selectChoice index = .ok c) (hkeys : e.script.KeysAreIds)
    (hstart : e.script.start?.isSome = true) :
    ∃ choice target, e.frame.choices[index.toNat]? = some choice ∧
      e.ChoiceLeads choice c.engine ∧
      c = ({ e with session := { e.session with pacing := .manual } } :
        Engine τ ν).navigate target := by
  obtain ⟨choice, -, hoffered, rfl⟩ := selectChoice_offered h
  obtain ⟨node, -, hcurrent, -⟩ := selectChoice_eq_ok h
  obtain ⟨hview, id, hid, -⟩ := (currentNode_eq_some_iff e node).mp hcurrent
  obtain ⟨target, htarget⟩ := Script.exists_resolve hstart (some choice.target)
  obtain ⟨key, hkey⟩ := Script.exists_get?_of_resolve htarget
  refine ⟨choice, target, hoffered, ?_, follow_eq_navigate htarget⟩
  rw [follow_eq_navigate htarget]
  have hthere : (({ e with session := { e.session with pacing := .manual } } :
      Engine τ ν).navigate target).engine.currentNode = some target := by
    rw [currentNode_eq_some_iff, navigate_session, navigate_script]
    exact ⟨hview, target.id, rfl, hkeys.get?_id hkey⟩
  refine ⟨⟨target, htarget, hthere⟩, ⟨id, hid, ?_⟩, ?_, ?_, ?_⟩
  · rw [navigate_session, hid, Option.toList_some]
  all_goals rw [navigate_session]

theorem armPacing_generation {e : Engine τ ν} (h : e.pacingTimer = none) :
    e.armPacing.generation = e.generation := by
  rw [armPacing_eq h]
  cases e.pause with
  | none => rfl
  | some delay => exact setTimer_generation e delay .pacingFire

/-- With a node that is entered a new generation begins. -/
theorem enter_generation (e : Engine τ ν) (node : Node) :
    (e.enter node).engine.generation = e.generation + 1 := by
  unfold enter
  dsimp only
  split
  · exact armPacing_generation rfl
  · rfl

end Requests

end Engine

/-- A timer that waits once a node has been entered did not wait before. -/
theorem Engine.Armed.not_mem_of_newer {e e' : Engine τ ν} (h : e.Armed) (h' : e'.Armed)
    (hsound : e.session.Sound e.script) (hsound' : e'.session.Sound e'.script)
    (hnewer : e'.generation = e.generation + 1) :
    ∀ t ∈ e.agenda.queue, t ∉ e'.agenda.queue := by
  intro t hold hnew
  have hbefore : t.task.generation = e.generation := ((h.timersMatch hsound).purpose t hold).1
  have hafter : t.task.generation = e'.generation := ((h'.timersMatch hsound').purpose t hnew).1
  omega

variable [Save.KeyValueStore ν]
variable [Zero τ] [Add τ] [Mul τ] [NatCast τ] [LT τ] [DecidableLT τ] [LE τ] [DecidableLE τ]

/-- Calls take an engine through steps, and wherever these have led, a choice is accepted exactly if
the frame offers it. In a script that has a start, it then leads where it says, and on an agenda
that heeds cancelling no timer that waited before waits any longer. -/
theorem choices_accepted_are_choices_drawn (script : Script) (hkeys : script.KeysAreIds)
    (timing : Timing τ) (saves : Option (Save.Repository ν)) (heedsCancel : Bool) :
    (∀ (stamps : Stamps) (fuel : Nat) (calls : List (Call τ)),
      Steps (fun _ => True) (Engine.opening script timing saves heedsCancel)
        ((House.opening (Engine.opening script timing saves heedsCancel) stamps).play
          fuel calls).engine) ∧
      ∀ e : Engine τ ν,
        Steps (fun _ => True) (Engine.opening script timing saves heedsCancel) e →
        ∀ index : Int,
          ((∃ c, e.selectChoice index = .ok c) ↔ 0 ≤ index ∧ index < e.frame.choices.length) ∧
          ∀ c, e.selectChoice index = .ok c → script.start?.isSome = true →
            ∃ choice, e.frame.choices[index.toNat]? = some choice ∧
              e.ChoiceLeads choice c.engine ∧
              (heedsCancel = true → ∀ t ∈ e.agenda.queue, t ∉ c.engine.agenda.queue) := by
  constructor
  · intro stamps fuel calls
    exact House.play_steps fuel calls (fun call _ => call.within_any) _ stamps
  · intro e hsteps index
    have hscript : e.script = script := Steps.script hsteps
    have hkeys' : e.script.KeysAreIds := hscript ▸ hkeys
    have hsound := Steps.sound hsteps hkeys (Session.sound_initial script)
    refine ⟨Engine.exists_selectChoice_iff hsound, ?_⟩
    intro c hchosen hstart
    obtain ⟨choice, target, hoffered, hleads, hnavigate⟩ :=
      Engine.selectChoice_leads hchosen hkeys' (hscript ▸ hstart)
    refine ⟨choice, hoffered, hleads, ?_⟩
    rintro rfl
    have harmed : e.Armed := Steps.armed hsteps hkeys (Session.sound_initial script)
      (Engine.opening_sets script timing saves)
    have hturn := Engine.turn_selectChoice hchosen
    have hsound' : c.engine.session.Sound c.engine.script := by
      rw [hturn.script]
      exact hturn.sound hkeys' hsound
    have hnewer : c.engine.generation = e.generation + 1 := by
      rw [hnavigate]
      exact Engine.enter_generation _ target
    exact harmed.not_mem_of_newer (hturn.armed hkeys' hsound harmed) hsound hsound' hnewer

/-- The question is answered; there is one answer, and no other. -/
theorem choices_accepted_are_choices_drawn_in_a_story :
    forkScript.KeysAreIds ∧ forkScript.start?.isSome = true ∧
      (∃ c, (forkOpening.play 40 [.newGame, .advance]).engine.selectChoice 0 = .ok c ∧
        (forkOpening.play 40 [.newGame, .advance]).engine.ChoiceLeads
          ⟨"A. Left", "left", .normal⟩ c.engine) ∧
      ¬ ∃ c, (forkOpening.play 40 [.newGame, .advance]).engine.selectChoice 1 = .ok c := by
  have hkeys : forkScript.KeysAreIds := Compiler.keysAreIds_compile {} forkText
  have hstart : forkScript.start?.isSome = true := by decide +kernel
  have hchoices : (forkOpening.play 40 [.newGame, .advance]).engine.frame.choices =
      [⟨"A. Left", "left", .normal⟩] := by decide +kernel
  obtain ⟨hruns, hdrawn⟩ := choices_accepted_are_choices_drawn (ν := Save.MemoryStore) forkScript
    hkeys Timing.usual none true
  have hasked : Steps (fun _ => True) (Engine.opening forkScript Timing.usual none)
      (forkOpening.play 40 [.newGame, .advance]).engine := hruns ⟨[], 0⟩ 40 [.newGame, .advance]
  refine ⟨hkeys, hstart, ?_, ?_⟩
  · obtain ⟨hiff, hleads⟩ := hdrawn _ hasked 0
    obtain ⟨c, hchosen⟩ := hiff.mpr (by simp [hchoices])
    obtain ⟨choice, hchoice, hthere, -⟩ := hleads c hchosen hstart
    rw [hchoices] at hchoice
    obtain rfl : ⟨"A. Left", "left", .normal⟩ = choice := Option.some.inj hchoice
    exact ⟨c, hchosen, hthere⟩
  · rw [(hdrawn _ hasked 1).1, hchoices]
    decide

end Playback

end VisualNovel
