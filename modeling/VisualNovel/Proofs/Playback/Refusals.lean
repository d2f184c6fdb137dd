import VisualNovel.Proofs.Playback.Keeping
import VisualNovel.Proofs.Playback.Waits
import VisualNovel.Proofs.Save.Overwrites

/-!
Requests that are refused. Each of them is refused for a few reasons only, which can be told from
the state of the engine, and a request that is refused leaves everything as it was: nobody is told,
and nothing is written. A save that is not refused still breaks off if the collection does not
permit it, once it has taken a moment from the clock.
-/
namespace VisualNovel.Playback

open Data
open Text (RawText)

def IsOutside (index : Int) (length : Nat) : Prop := index < 0 ∨ (length : Int) ≤ index

theorem itemAt_eq_none_iff {α : Type} {items : List α} {index : Int} :
    (if 0 ≤ index then items[index.toNat]? else none) = none ↔ IsOutside index items.length := by
  unfold IsOutside
  split
  · rw [List.getElem?_eq_none_iff]
    omega
  · simp only [true_iff]
    omega

variable {τ ν : Type}

inductive Call.Refusable : Call τ → Prop
  | newGame : Call.Refusable .newGame
  | choose (index : Int) : Call.Refusable (.choose index)
  | jump (index : Int) : Call.Refusable (.jump index)
  | save (slot : Int) (room : Nat) : Call.Refusable (.save slot room)
  | load (slot : Int) (room : Nat) : Call.Refusable (.load slot room)

section Reasons
variable [Save.KeyValueStore ν]

/-- The reasons for which an engine refuses a call. -/
def Engine.Refuses (e : Engine τ ν) : Call τ → Prop
  | .newGame => e.script.start? = none
  | .choose index =>
      e.currentNode = none ∨ e.session.ending = true ∨ e.session.reveal ≠ .revealed ∨
        ∃ node, e.currentNode = some node ∧
          (node.choices = [] ∨ IsOutside index node.choices.length)
  | .jump index => e.session.view ≠ .playing ∨ IsOutside index e.session.history.length
  | .save slot _ =>
      e.saves = none ∨ (∃ r, e.saves = some r ∧ r.hasSlot slot = false) ∨ e.currentNode = none
  | .load slot room =>
      e.saves = none ∨ ∃ r, e.saves = some r ∧
        (r.hasSlot slot = false ∨ ¬ r.HoldsReadable room slot ∨
          ∃ s, r.get room slot = .ok (some s) ∧ e.script.get? s.nodeId = none)
  | _ => False

/-- The saves do not permit the save that a call asks for. -/
def Engine.BreaksOff (e : Engine τ ν) : Call τ → Prop
  | .save slot room => e.SavesAre fun r => ¬ r.Permits room slot
  | _ => False

end Reasons

namespace Engine

variable {e : Engine τ ν}

/-- The node to save is missing for one of the reasons to refuse a save. -/
theorem exists_saveTarget_error_iff [Save.KeyValueStore ν] {slot : Int} {room : Nat} :
    (∃ f, e.saveTarget slot = .error f) ↔ e.Refuses (.save slot room) := by
  simp only [Refuses]
  cases hsaves : e.saves with
  | none => simp [saveTarget, storage_of_none hsaves, bind, Except.bind]
  | some r =>
    cases hslot : r.hasSlot slot with
    | false =>
      simp [saveTarget, storage_of_some hsaves, Save.Repository.checkSlot, hslot, bind,
        Except.bind]
    | true =>
      cases hcurrent : e.currentNode with
      | none =>
        simp [saveTarget, storage_of_some hsaves, Save.Repository.checkSlot_of_hasSlot hslot,
          hcurrent, bind, Except.bind, throw, throwThe, MonadExceptOf.throw]
      | some node => simp [saveTarget_of_current hsaves hslot hcurrent, hslot]

section Requests
variable [Save.KeyValueStore ν]
variable [Zero τ] [Add τ] [Mul τ] [NatCast τ] [LT τ] [DecidableLT τ]

theorem exists_newGame_error_iff : (∃ f, e.newGame = .error f) ↔ e.Refuses .newGame := by
  simp only [Refuses]
  unfold newGame
  split
  · next node hstart => simp [hstart]
  · next hstart => simp [hstart]

theorem exists_selectChoice_error_iff {index : Int} :
    (∃ f, e.selectChoice index = .error f) ↔ e.Refuses (.choose index) := by
  simp only [Refuses]
  unfold selectChoice
  split
  · next hcurrent => simp [hcurrent]
  · next node hcurrent =>
    split
    · next hoffered =>
      rcases (Bool.or_eq_true _ _).mp hoffered with hending | hchoices
      · simp [hending]
      · have hchoices : node.choices = [] := by simpa [Node.isDecision] using hchoices
        simp [hcurrent, hchoices]
    · next hoffered =>
      obtain ⟨hending, hchoices⟩ : e.session.ending = false ∧ node.choices ≠ [] := by
        simpa [Node.isDecision] using hoffered
      split
      · next hhidden => simp [hhidden]
      · next hshown =>
        split
        · next choice hchoice =>
          have hinside : ¬ IsOutside index node.choices.length := by
            rw [← itemAt_eq_none_iff, hchoice]
            simp
          simp [hcurrent, hending, hshown, hchoices, hinside]
        · next hnone =>
          have houtside := itemAt_eq_none_iff.mp hnone
          simp [hcurrent, houtside]

theorem exists_jumpToHistory_error_iff {index : Int} :
    (∃ f, e.jumpToHistory index = .error f) ↔ e.Refuses (.jump index) := by
  simp only [Refuses, ← itemAt_eq_none_iff]
  unfold jumpToHistory
  split
  · next hview => simp [hview]
  · next hview =>
    split
    · next hnone => simp [hnone]
    · next id hentry =>
      dsimp only
      split <;> simp [hentry, hview]

section Load
variable {r : Save.Repository ν} {slot : Int} {room : Nat} {s : Save.Slot}

theorem load_of_none (h : e.saves = none) : e.load room slot = .error (.fault .noSaveStorage) := by
  simp [load, storage_of_none h, bind, Except.bind]

theorem load_of_get_error {failure : Save.Failure} (hsaves : e.saves = some r)
    (hget : r.get room slot = .error failure) : e.load room slot = .error failure := by
  simp [load, storage_of_some hsaves, hget, bind, Except.bind]

theorem load_of_empty (hsaves : e.saves = some r) (hget : r.get room slot = .ok none) :
    e.load room slot = .error (.fault (.emptySlot slot)) := by
  simp [load, storage_of_some hsaves, hget, bind, Except.bind, throw, throwThe,
    MonadExceptOf.throw]

theorem load_of_missing (hsaves : e.saves = some r) (hget : r.get room slot = .ok (some s))
    (hmissing : e.script.get? s.nodeId = none) :
    e.load room slot = .error (.fault (.incompatibleSave slot s.nodeId)) := by
  simp [load, storage_of_some hsaves, hget, hmissing, bind, Except.bind, throw,
    throwThe, MonadExceptOf.throw]

theorem load_of_found {node : Node} (hsaves : e.saves = some r)
    (hget : r.get room slot = .ok (some s)) (hfound : e.script.get? s.nodeId = some node) :
    e.load room slot = .ok (e.beginSession node) := by
  simp [load, storage_of_some hsaves, hget, hfound, bind, Except.bind, pure,
    Except.pure]

theorem exists_load_error_iff :
    (∃ f, e.load room slot = .error f) ↔ e.Refuses (.load slot room) := by
  simp only [Refuses]
  cases hsaves : e.saves with
  | none => simp [load_of_none hsaves]
  | some r =>
    cases hslot : r.hasSlot slot with
    | false =>
      simp [load_of_get_error hsaves (Save.Repository.get_of_not_hasSlot hslot), hslot]
    | true =>
      cases hentries : r.entries room with
      | error failure =>
        have hload := load_of_get_error hsaves (Save.Repository.get_of_entries_error hslot hentries)
        have hnothing : ¬ r.HoldsReadable room slot := by
          simp [Save.Repository.HoldsReadable, hentries]
        exact iff_of_true ⟨_, hload⟩ (.inr ⟨r, rfl, .inr (.inl hnothing)⟩)
      | ok entries =>
        have hholds := Save.Repository.holdsReadable_iff slot hentries
        have hget := Save.Repository.get_of_entries hslot hentries
        cases hlast : Save.lastReadable r.form slot entries with
        | none =>
          rw [hlast] at hget hholds
          exact iff_of_true ⟨_, load_of_empty hsaves hget⟩
            (.inr ⟨r, rfl, .inr (.inl (hholds.not.mpr (not_not_intro rfl)))⟩)
        | some s =>
          rw [hlast] at hget hholds
          have hreadable := hholds.mpr (Option.some_ne_none s)
          cases hnode : e.script.get? s.nodeId with
          | none => simp [load_of_missing hsaves hget hnode, hget, hnode]
          | some node => simp [load_of_found hsaves hget hnode, hslot, hget, hnode, hreadable]

end Load

theorem exists_mapError_iff {ε ε' α : Type} {x : Except ε α} {f : ε → ε'} :
    (∃ err, x.mapError f = .error err) ↔ ∃ err, x = .error err := by
  cases x with
  | error err => exact iff_of_true ⟨_, rfl⟩ ⟨_, rfl⟩
  | ok a => exact iff_of_false (by rintro ⟨_, h⟩; cases h) (by rintro ⟨_, h⟩; cases h)

/-- A request is answered with an error exactly for the reasons to refuse it. -/
theorem exists_outcome_error_iff {call : Call τ} {r : Except CallError (Change τ ν)}
    (hcall : call.Refusable) (hr : e.outcome call = some r) :
    (∃ err, r = .error err) ↔ e.Refuses call := by
  cases hcall with
  | newGame =>
    cases hr
    exact exists_mapError_iff.trans exists_newGame_error_iff
  | choose index =>
    cases hr
    exact exists_mapError_iff.trans exists_selectChoice_error_iff
  | jump index =>
    cases hr
    exact exists_mapError_iff.trans exists_jumpToHistory_error_iff
  | load slot room =>
    cases hr
    exact exists_mapError_iff.trans exists_load_error_iff
  | save slot room => cases hr

end Requests

section Saving
variable [Save.KeyValueStore ν] {slot : Int} {room : Nat} {r r' : Save.Repository ν} {node : Node}
variable {stamp : Calendar.Moment}

theorem save_of_put (htarget : e.saveTarget slot = .ok (r, node)) (hname : node.id ≠ "")
    (hput : r.put room (e.slotFor slot node stamp) = .ok r') :
    e.save room slot stamp = .ok (e.slotFor slot node stamp, { e with saves := some r' }) := by
  unfold Engine.save
  rw [mapError_of_ok htarget]
  simp [bind, Except.bind, hname, mapError_of_ok hput, pure, Except.pure]

theorem save_of_put_error {failure : Save.Failure} (htarget : e.saveTarget slot = .ok (r, node))
    (hname : node.id ≠ "") (hput : r.put room (e.slotFor slot node stamp) = .error failure) :
    e.save room slot stamp = .error (.failure failure) := by
  unfold Engine.save
  rw [mapError_of_ok htarget]
  simp [bind, Except.bind, hname, mapError_of_error hput]

end Saving

end Engine

section Stored
variable [Save.KeyValueStore ν] {h : House τ ν} {slot : Int} {room : Nat}

theorem House.save_of_error {f : Fault} (htarget : h.engine.saveTarget slot = .error f) :
    h.save room slot = failing h (.fault f) := by
  rw [House.save, htarget]

theorem exists_saveTarget
    (hnames : ∀ id node, h.engine.script.get? id = some node → node.id ≠ "")
    (hgranted : ¬ h.engine.Refuses (.save slot room)) :
    ∃ r node, h.engine.saves = some r ∧ r.hasSlot slot = true ∧ node.id ≠ "" ∧
      h.engine.saveTarget slot = .ok (r, node) := by
  cases htarget : h.engine.saveTarget slot with
  | error f => exact absurd (Engine.exists_saveTarget_error_iff.mp ⟨f, htarget⟩) hgranted
  | ok target =>
    obtain ⟨r, node⟩ := target
    obtain ⟨hsaves, hslot, hcurrent⟩ := Engine.saveTarget_eq_ok htarget
    obtain ⟨-, id, -, hnode⟩ := (Engine.currentNode_eq_some_iff h.engine node).mp hcurrent
    exact ⟨r, node, hsaves, hslot, hnames id node hnode, rfl⟩

variable {target : Save.Repository ν × Node} (htarget : h.engine.saveTarget slot = .ok target)
include htarget

theorem House.save_of_ok {s : Save.Slot} {engine : Engine τ ν}
    (hsave : h.engine.save room slot h.stamps.next = .ok (s, engine)) :
    h.save room slot = (.ok (.slot s), { h with engine, stamps := h.stamps.rest }) := by
  rw [House.save, htarget]
  simp only [hsave]

theorem House.save_of_failure {failure : Save.Failure}
    (hsave : h.engine.save room slot h.stamps.next = .error (.failure failure)) :
    h.save room slot = failing { h with stamps := h.stamps.rest } (.saves failure) := by
  rw [House.save, htarget]
  simp only [hsave]

end Stored

variable [Save.KeyValueStore ν]
variable [Zero τ] [Add τ] [Mul τ] [NatCast τ] [LT τ] [DecidableLT τ]

theorem Call.Refusable.save_or_request {call : Call τ} (hcall : call.Refusable)
    (e : Engine τ ν) : (∃ slot room, call = .save slot room) ∨ ∃ r, e.outcome call = some r := by
  cases hcall with
  | save slot room => exact .inl ⟨slot, room, rfl⟩
  | _ => exact .inr ⟨_, rfl⟩

variable [LE τ] [DecidableLE τ]

/-- What becomes of a call that is not refused and does not break off: a save is made, and any other
request takes effect and is told of. -/
def House.Grants (h : House τ ν) (fuel : Nat) (call : Call τ) : Prop :=
  (∃ slot room s h', call = .save slot room ∧ perform (fuel + 1) call h = (.ok (.slot s), h')) ∨
    ∃ c, h.engine.outcome call = some (.ok c) ∧
      perform (fuel + 1) call h = replying (fun () => .nothing) (publish (perform fuel) c h)

section Answers
variable {h : House τ ν} {call : Call τ}

theorem perform_of_refused (hcall : call.Refusable) (hrefused : h.engine.Refuses call)
    (fuel : Nat) : ∃ err, perform (fuel + 1) call h = (.error (.raised err), h) := by
  rcases hcall.save_or_request h.engine with ⟨slot, room, rfl⟩ | ⟨r, hr⟩
  · obtain ⟨f, htarget⟩ := Engine.exists_saveTarget_error_iff.mpr hrefused
    exact ⟨.fault f, House.save_of_error htarget⟩
  · obtain ⟨err, rfl⟩ := (Engine.exists_outcome_error_iff hcall hr).mpr hrefused
    exact ⟨err, perform_request hr⟩

/-- Those who make no calls of their own do not fail. -/
theorem House.Grants.perform_eq_ok {fuel : Nat} (hgranted : h.Grants fuel call)
    (hsilent : h.Silent) : ∃ reply h', perform (fuel + 1) call h = (.ok reply, h') := by
  rcases hgranted with ⟨slot, room, s, h', rfl, hsave⟩ | ⟨c, -, hrequest⟩
  · exact ⟨_, _, hsave⟩
  · obtain ⟨h', hpublish, -⟩ := publish_of_silent (perform fuel) hsilent c
    rw [hpublish] at hrequest
    exact ⟨_, _, hrequest⟩

variable [Save.Reliable ν]
variable (hforms : ∀ r, h.engine.saves = some r → r.form.Documented)
variable (hnames : ∀ id node, h.engine.script.get? id = some node → node.id ≠ "")
include hforms hnames

theorem perform_of_breaksOff (hgranted : ¬ h.engine.Refuses call)
    (hbreaks : h.engine.BreaksOff call) (fuel : Nat) :
    ∃ err, perform (fuel + 1) call h =
      (.error (.raised err), { h with stamps := h.stamps.rest }) := by
  cases call with
  | save slot room =>
    obtain ⟨r, node, hsaves, hslot, hname, htarget⟩ := exists_saveTarget hnames hgranted
    obtain ⟨r', hr', hforbidden⟩ := hbreaks
    obtain rfl : r = r' := Option.some.inj (hsaves.symm.trans hr')
    cases hput : r.put room (h.engine.slotFor slot node h.stamps.next) with
    | ok r' => exact absurd (Save.Repository.permits_of_put (hforms r hsaves) hput) hforbidden
    | error failure =>
      exact ⟨_, House.save_of_failure htarget (Engine.save_of_put_error htarget hname hput)⟩
  | _ => exact hbreaks.elim

theorem grants_of_not_refused (hcall : call.Refusable) (hgranted : ¬ h.engine.Refuses call)
    (hunbroken : ¬ h.engine.BreaksOff call) (fuel : Nat) : h.Grants fuel call := by
  rcases hcall.save_or_request h.engine with ⟨slot, room, rfl⟩ | ⟨r, hr⟩
  · obtain ⟨r, node, hsaves, hslot, hname, htarget⟩ := exists_saveTarget hnames hgranted
    have hpermits : r.Permits room slot := by
      by_contra hforbidden
      exact hunbroken ⟨r, hsaves, hforbidden⟩
    obtain ⟨r', hput⟩ := Save.Repository.exists_put (hforms r hsaves)
      (s := h.engine.slotFor slot node h.stamps.next) hslot hpermits
    exact .inl ⟨slot, room, _, _, rfl,
      House.save_of_ok htarget (Engine.save_of_put htarget hname hput)⟩
  · cases r with
    | error err => exact absurd ((Engine.exists_outcome_error_iff hcall hr).mp ⟨err, rfl⟩) hgranted
    | ok c => exact .inr ⟨c, hr, perform_request hr⟩

end Answers

/-- A call is refused exactly for the reasons told, and then leaves everything as it was. A save
that is not refused breaks off exactly if the saves do not permit it, and then has only taken a
moment from the clock. Otherwise a call is granted; whatever fails then are calls of those who are
told of it. -/
theorem refused_calls_change_nothing [Save.Reliable ν] (h : House τ ν)
    (hforms : ∀ r, h.engine.saves = some r → r.form.Documented)
    (hnames : ∀ id node, h.engine.script.get? id = some node → node.id ≠ "") {call : Call τ}
    (hcall : call.Refusable) (fuel : Nat) :
    (h.engine.Refuses call → ∃ err, perform (fuel + 1) call h = (.error (.raised err), h)) ∧
      (¬ h.engine.Refuses call → h.engine.BreaksOff call →
        ∃ err, perform (fuel + 1) call h =
          (.error (.raised err), { h with stamps := h.stamps.rest })) ∧
      (¬ h.engine.Refuses call → ¬ h.engine.BreaksOff call → h.Grants fuel call) ∧
      (h.Silent → ((∃ halt h', perform (fuel + 1) call h = (.error halt, h')) ↔
        h.engine.Refuses call ∨ h.engine.BreaksOff call)) := by
  have hrefuses := fun hrefused : h.engine.Refuses call => perform_of_refused hcall hrefused fuel
  have hbreaks := fun (hgranted : ¬ h.engine.Refuses call) (hoff : h.engine.BreaksOff call) =>
    perform_of_breaksOff hforms hnames hgranted hoff fuel
  have hgrants := fun (hgranted : ¬ h.engine.Refuses call) (hon : ¬ h.engine.BreaksOff call) =>
    grants_of_not_refused hforms hnames hcall hgranted hon fuel
  refine ⟨hrefuses, hbreaks, hgrants, fun hsilent => ⟨?_, ?_⟩⟩
  · rintro ⟨halt, h', hfails⟩
    by_contra hgranted
    rw [not_or] at hgranted
    obtain ⟨reply, h'', hworks⟩ := (hgrants hgranted.1 hgranted.2).perform_eq_ok hsilent
    rw [hworks] at hfails
    cases hfails
  · intro hraises
    by_cases hrefused : h.engine.Refuses call
    · obtain ⟨err, hfails⟩ := hrefuses hrefused
      exact ⟨_, _, hfails⟩
    · obtain ⟨err, hfails⟩ := hbreaks hrefused (hraises.resolve_left hrefused)
      exact ⟨_, _, hfails⟩

theorem names_forkScript : ∀ id node, forkScript.get? id = some node → node.id ≠ "" :=
  (Compiler.keysAreIds_compile {} forkText).id_ne_empty (by decide +kernel)

/-- A choice made too early. -/
theorem refused_calls_change_nothing_in_a_story :
    let h := forkOpening.play 40 [.newGame]
    (∀ r, h.engine.saves = some r → r.form.Documented) ∧
      (∀ id node, h.engine.script.get? id = some node → node.id ≠ "") ∧
      (Call.choose 0 : Call Nat).Refusable ∧ h.engine.Refuses (.choose 0) ∧
      ∃ err, perform 40 (.choose 0) h = (.error (.raised err), h) := by
  intro h
  have hscript : h.engine.script = forkScript :=
    Steps.script (House.play_steps 40 [.newGame] (fun call _ => call.within_any) _ _)
  have hnames : ∀ id node, h.engine.script.get? id = some node → node.id ≠ "" := by
    rw [hscript]
    exact names_forkScript
  have hforms : ∀ r, h.engine.saves = some r → r.form.Documented := by
    have hnone : h.engine.saves.isNone = true := by decide +kernel
    intro r hsaves
    rw [hsaves] at hnone
    cases hnone
  have hrefused : h.engine.Refuses (.choose 0) := .inr (.inr (.inl (by decide +kernel)))
  exact ⟨hforms, hnames, .choose 0, hrefused,
    (refused_calls_change_nothing h hforms hnames (.choose 0) 39).1 hrefused⟩

/-- The short story, with saves that start with a text. -/
def savedOpening (text : RawText) : House Nat Save.MemoryStore :=
  .opening (.opening forkScript Timing.usual (some (Save.Repository.holding text)))
    ⟨[⟨⟨2024, 5, 1⟩, ⟨12, 30, 0, 0⟩, some 0⟩], 0⟩

/-- The story begins, whatever text there is. -/
theorem savedOpening_begins (text : RawText) :
    ∃ node, forkScript.get? node.id = some node ∧
      ((savedOpening text).play 40 [.newGame]).engine =
        ((savedOpening text).engine.beginSession node).engine := by
  obtain ⟨node, hstart⟩ : ∃ node, forkScript.get? forkScript.startId = some node :=
    Option.isSome_iff_exists.mp (by decide +kernel)
  have hkeys : node.id = forkScript.startId := Compiler.keysAreIds_compile {} forkText _ node hstart
  have hnew : (savedOpening text).engine.newGame =
      .ok ((savedOpening text).engine.beginSession node) := by
    have hsame : (savedOpening text).engine.script.start? = some node := hstart
    rw [Engine.newGame, hsame]
  have hsilent : (savedOpening text).Silent := fun _ hlistener => (List.not_mem_nil hlistener).elim
  refine ⟨node, hkeys.symm ▸ hstart, (hsilent.play_request ?_ 39).1⟩
  exact congrArg some (mapError_of_ok hnew CallError.fault)

/-- In the middle of the story a save breaks off at a text that goes beyond what is read. -/
theorem save_breaks_off {text : RawText} (h : (Save.Repository.holding text).GivesUp usualRoom) :
    let h := (savedOpening text).play 40 [.newGame]
    h.engine.session.view = .playing ∧ ¬ h.engine.Refuses (.save 1) ∧
      ∃ err h', perform 40 (.save 1) h = (.error (.raised err), h') := by
  intro house
  obtain ⟨node, hnode, hengine⟩ := savedOpening_begins text
  have hsession : house.engine.session = _ :=
    (congrArg Engine.session hengine).trans (Engine.enter_session _ node)
  have hsaves : house.engine.saves = some (Save.Repository.holding text) :=
    (congrArg Engine.saves hengine).trans (Engine.enter_saves _ node)
  have hscript : house.engine.script = forkScript :=
    (congrArg Engine.script hengine).trans (Engine.enter_script _ node)
  have hview : house.engine.session.view = .playing := by rw [hsession]
  have hcurrent : house.engine.currentNode = some node := by
    refine (Engine.currentNode_eq_some_iff _ _).mpr ⟨hview, node.id, ?_, hscript ▸ hnode⟩
    rw [hsession]
  have hgranted : ¬ house.engine.Refuses (.save 1) := by
    have hslot : (Save.Repository.holding text).hasSlot 1 = true := rfl
    simp [Engine.Refuses, hsaves, hcurrent, hslot]
  have hbreaks : house.engine.BreaksOff (.save 1) := ⟨_, hsaves, fun hpermits => hpermits.legible h⟩
  have hforms : ∀ r, house.engine.saves = some r → r.form.Documented := by
    intro r hr
    rw [hsaves, Option.some.injEq] at hr
    exact hr ▸ Save.SlotForm.documented_lenient
  obtain ⟨err, hfails⟩ :=
    perform_of_breaksOff hforms (hscript ▸ names_forkScript) hgranted hbreaks 39
  exact ⟨hview, hgranted, err, _, hfails⟩

/-- A save breaks off at a number with a digit too many, for none of the reasons to refuse it. -/
theorem a_long_number_breaks_a_save_off :
    let h := (savedOpening (Json.numberText (10 ^ Text.digitLimit))).play 40 [.newGame]
    ¬ h.engine.Refuses (.save 1) ∧
      ∃ err h', perform 40 (.save 1) h = (.error (.raised err), h') :=
  (save_breaks_off (Save.Repository.givesUp_numberText Json.isTooLong_pow 899)).2

end VisualNovel.Playback
