import VisualNovel.Proofs.Playback.Refusals

/-!
A save can be loaded. Nothing but another save to the same slot touches it, whatever else is saved
and wherever the session goes, so that loading it begins a session at the node of the save. A save
that the collection does not permit is not made, and changes nothing.
-/
namespace VisualNovel.Playback

open Data

variable {τ ν : Type}

/-- Calls that leave a slot alone: what is saved goes to other slots, and nobody else writes to the
store. -/
def Call.Spares (slot : Int) : Call τ → Prop
  | .save other _ => other ≠ slot
  | .setStoredText _ _ => False
  | _ => True

def Session.beginning (node : Node) : Session where
  view := .playing
  current := some node.id
  reveal := if node.text.isEmpty then .revealed else .revealing
  effect := node.effect

theorem Engine.beginSession_session [Zero τ] [Add τ] [Mul τ] [NatCast τ] [LT τ] [DecidableLT τ]
    (e : Engine τ ν) (node : Node) :
    (e.beginSession node).engine.session = Session.beginning node := enter_session _ node

theorem Stamps.next_mem {s : Stamps} (h : s.moments ≠ []) : s.next ∈ s.moments := by
  have hlt : s.taken % s.moments.length < s.moments.length :=
    Nat.mod_lt _ (List.length_pos_iff.mpr h)
  rw [next, List.getD_eq_getElem?_getD, List.getElem?_eq_getElem hlt]
  exact List.getElem_mem hlt

/-- A form of slots keeps whatever can be saved at one of the moments of a clock. -/
def Stamps.KeptBy (stamps : Stamps) (form : Save.SlotForm) : Prop :=
  ∀ s : Save.Slot, 1 ≤ s.id → s.nodeId ≠ "" → s.stamp ∈ stamps.moments → form.Keeps s

variable [Save.KeyValueStore ν]

/-- The house `h'` is `h` after a save: the present node is in the slot, and all else is as it
was. -/
structure House.Saved (h : House τ ν) (room : Nat) (slot : Int) (node : Node) (saved : Save.Slot)
    (h' : House τ ν) : Prop where
  id : saved.id = slot
  nodeId : saved.nodeId = node.id
  stored : h'.engine.SavesAre fun r => r.Holds room slot saved
  rest : h' = { h with
    stamps := h.stamps.rest
    engine := { h.engine with saves := h'.engine.saves } }

section Reliable
variable [Save.Reliable ν]

theorem kept_save (room : Nat) (slot : Int) (saved : Save.Slot) :
    Save.Kept (ν := ν) (τ := τ) (Call.Spares slot) fun r => r.Holds room slot saved where
  put := fun hspares hholds hput => hholds.put hspares hput
  stored := fun hspares => hspares.elim

theorem kept_place (permitted : Call τ → Prop) {r : Save.Repository ν}
    (hform : r.form.Documented) : Save.Kept permitted r.SamePlace where
  put := by
    intro room r₁ r₂ s _ hplace hput
    have hform₁ : r₁.form.Documented := hplace.form ▸ hform
    have hpermits := Save.Repository.permits_of_put hform₁ hput
    obtain ⟨entries, hentries⟩ := Save.Repository.exists_entries hpermits.legible
    exact hplace.trans (Save.Repository.entries_of_put hform₁ hpermits.deep hentries hput).1
  stored := fun _ hplace _ => hplace.trans ⟨rfl, rfl, rfl⟩

end Reliable

namespace House.Saved

variable {h h' : House τ ν} {room : Nat} {slot : Int} {node : Node} {saved : Save.Slot}

theorem script (hsaved : h.Saved room slot node saved h') :
    h'.engine.script = h.engine.script := by
  rw [hsaved.rest]

theorem within (hsaved : h.Saved room slot node saved h') {permitted : Call τ → Prop}
    (hwithin : h.Within permitted) : h'.Within permitted := by
  rw [hsaved.rest]
  exact hwithin

end House.Saved

variable [Zero τ] [Add τ] [Mul τ] [NatCast τ] [LT τ] [DecidableLT τ]

/-- Whatever follows and does not save to the slot again, the slot can be loaded. -/
theorem House.Saved.load_eq_ok [LE τ] [DecidableLE τ] [Save.Reliable ν] {h h' : House τ ν}
    {room more : Nat} {slot : Int} {node : Node} {saved : Save.Slot}
    (hsaved : h.Saved room slot node saved h') (hfound : h.engine.script.get? node.id = some node)
    {h'' : House τ ν} (hmoves : h'.Moves (Call.Spares slot) h'') (hle : room ≤ more) :
    h''.engine.load more slot = .ok (h''.engine.beginSession node) := by
  obtain ⟨r, hsaves, hholds⟩ := hmoves.savesAre (kept_save room slot saved) hsaved.stored
  have hscript : h''.engine.script = h.engine.script := hmoves.steps.script.trans hsaved.script
  exact Engine.load_of_found hsaves (hholds.get_eq_ok hle) (by rw [hscript, hsaved.nodeId, hfound])

variable [LE τ] [DecidableLE τ]

theorem House.exists_save [Save.Reliable ν] {h : House τ ν} {slot : Int} {room : Nat}
    {r : Save.Repository ν} {node : Node} (hsaves : h.engine.saves = some r)
    (hslot : r.hasSlot slot = true) (hcurrent : h.engine.currentNode = some node)
    (hname : node.id ≠ "") (hform : r.form.Documented) (hkept : h.stamps.KeptBy r.form)
    (hclock : h.stamps.moments ≠ []) (hpermits : r.Permits room slot) :
    ∃ saved h', h.Saved room slot node saved h' ∧
      ∀ fuel, perform (fuel + 1) (.save slot room) h = (.ok (.slot saved), h') := by
  have htarget := Engine.saveTarget_of_current hsaves hslot hcurrent
  have hfirst : 1 ≤ slot := by
    simp only [Save.Repository.hasSlot, Bool.and_eq_true, decide_eq_true_eq] at hslot
    exact hslot.1
  have hkeeps : r.form.Keeps (h.engine.slotFor slot node h.stamps.next) :=
    hkept _ hfirst hname (Stamps.next_mem hclock)
  obtain ⟨r', hput⟩ := Save.Repository.exists_put hform
    (s := h.engine.slotFor slot node h.stamps.next) hslot hpermits
  refine ⟨h.engine.slotFor slot node h.stamps.next,
    { h with stamps := h.stamps.rest, engine := { h.engine with saves := some r' } }, ?_, ?_⟩
  · exact
      { id := rfl
        nodeId := rfl
        stored := ⟨r', rfl, Save.Repository.holds_of_put hform hkeeps hput⟩
        rest := rfl }
  · exact fun fuel => House.save_of_ok htarget (Engine.save_of_put htarget hname hput)

/-- A slot that was saved to can be loaded, until it is saved to again: loading begins a session at
the node of the save, whatever has become of the engine since then. The save is made exactly if the
collection permits it, and otherwise nothing has changed. -/
theorem saves_can_be_loaded [Save.Reliable ν] (script : Script) (hkeys : script.KeysAreIds)
    (hnamed : script.get? "" = none) (timing : Timing τ) (r : Save.Repository ν)
    (hform : r.form.Documented) (heedsCancel : Bool) (stamps : Stamps)
    (hclock : stamps.moments ≠ []) (hkept : stamps.KeptBy r.form) (fuel : Nat)
    (calls : List (Call τ)) {slot : Int} (hslot : r.hasSlot slot = true) {h : House τ ν}
    (hrun : (House.opening (Engine.opening script timing (some r) heedsCancel) stamps).play
      fuel calls = h)
    (hview : h.engine.session.view = .playing) (hwithin : h.Within (Call.Spares slot))
    (room : Nat) :
    ∃ r' node, h.engine.saves = some r' ∧ h.engine.currentNode = some node ∧
      (¬ r'.Permits room slot → ∀ fuel, ∃ err, perform (fuel + 1) (.save slot room) h =
        (.error (.raised err), { h with stamps := h.stamps.rest })) ∧
      (r'.Permits room slot → ∃ saved h', h.Saved room slot node saved h' ∧
        (∀ fuel, perform (fuel + 1) (.save slot room) h = (.ok (.slot saved), h')) ∧
        ∀ (fuel' : Nat) (later : List (Call τ)),
          (∀ call ∈ later, call.Within (Call.Spares slot)) → ∀ more, room ≤ more →
          ∃ c, (h'.play fuel' later).engine.load more slot = .ok c ∧
            c = (h'.play fuel' later).engine.beginSession node ∧
            c.engine.session = Session.beginning node ∧
            ∀ fuel, perform (fuel + 1) (.load slot more) (h'.play fuel' later) =
              replying (fun () => .nothing) (publish (perform fuel) c (h'.play fuel' later))) := by
  have hmoves := House.play_moves fuel calls (fun call _ => call.within_any)
    (Engine.opening script timing (some r) heedsCancel) stamps
  rw [hrun] at hmoves
  have hscript : h.engine.script = script := hmoves.steps.script
  have hsound : h.engine.session.Sound h.engine.script :=
    hmoves.steps.sound hkeys (Session.sound_initial script)
  obtain ⟨r', hsaves, hplace⟩ := hmoves.savesAre (kept_place _ hform) ⟨r, rfl, .refl r⟩
  have hform' : r'.form.Documented := hplace.form ▸ hform
  have hslot' : r'.hasSlot slot = true := (hplace.hasSlot slot).trans hslot
  obtain ⟨node, hat⟩ := hsound.playing hview
  have hcurrent : h.engine.currentNode = some node :=
    (Engine.currentNode_eq_some_iff _ _).mpr ⟨hview, node.id, hat.current, hat.found⟩
  have hnames : ∀ id node, h.engine.script.get? id = some node → node.id ≠ "" :=
    hscript ▸ hkeys.id_ne_empty hnamed
  have hmoments : h.stamps.moments = stamps.moments := hmoves.moments
  have hkept' : h.stamps.KeptBy r'.form := by
    rw [hplace.form]
    exact fun s hfirst hname hstamp => hkept s hfirst hname (hmoments ▸ hstamp)
  refine ⟨r', node, hsaves, hcurrent, fun hforbidden fuel => ?_, fun hpermits => ?_⟩
  · have hbreaks : h.engine.BreaksOff (.save slot room) := ⟨r', hsaves, hforbidden⟩
    refine perform_of_breaksOff (fun r hr => ?_) hnames ?_ hbreaks fuel
    · rw [← Option.some.inj (hsaves.symm.trans hr)]
      exact hform'
    · simp [Engine.Refuses, hsaves, hslot', hcurrent]
  · obtain ⟨saved, h', hsaved, hsave⟩ := House.exists_save hsaves hslot' hcurrent
      (hnames _ _ hat.found) hform' hkept' (hmoments ▸ hclock) hpermits
    refine ⟨saved, h', hsaved, hsave, fun fuel' later hlater more hle => ?_⟩
    have hload := hsaved.load_eq_ok hat.found
      (House.play_follows fuel' later hlater h' (hsaved.within hwithin)) hle
    have hgranted : (h'.play fuel' later).engine.outcome (.load slot more) =
        some (.ok ((h'.play fuel' later).engine.beginSession node)) :=
      congrArg some (mapError_of_ok hload CallError.saves)
    exact ⟨_, hload, rfl, Engine.beginSession_session _ node, fun fuel => perform_request hgranted⟩

/-- A text that is no list of saves. -/
def tornSaves : Text.RawText := "[\x7b\"id\": 2"

theorem saves_can_be_loaded_in_a_story :
    ((savedOpening tornSaves).play 40 [.newGame, .advance]).engine.session.view = .playing ∧
      ∃ node saved h', ((savedOpening tornSaves).play 40 [.newGame, .advance]).Saved 900 2 node
          saved h' ∧
        (h'.play 40 [.title, .save 1, .choose 0]).engine.load 900 2 =
          .ok ((h'.play 40 [.title, .save 1, .choose 0]).engine.beginSession node) := by
  let h := (savedOpening tornSaves).play 40 [.newGame, .advance]
  have hkeys : forkScript.KeysAreIds := Compiler.keysAreIds_compile {} forkText
  have hkept : (savedOpening tornSaves).stamps.KeptBy .lenient := by
    intro s hfirst hname hstamp
    rw [savedOpening, House.opening, List.mem_singleton] at hstamp
    refine Save.SlotForm.keeps_lenient hfirst hname ?_
    rw [hstamp]
    exact ⟨by decide, by decide, rfl, by decide⟩
  have hview : h.engine.session.view = .playing := by decide +kernel
  have hwithin : h.Within (Call.Spares 2) := by
    have hnobody : h.listeners.isEmpty = true := by decide +kernel
    intro listener hmem
    rw [List.isEmpty_iff.mp hnobody] at hmem
    cases hmem
  have hslot : (Save.Repository.holding tornSaves).hasSlot 2 = true := rfl
  obtain ⟨r, node, hsaves, -, -, hpermitted⟩ :=
    saves_can_be_loaded forkScript hkeys (by decide +kernel) Timing.usual
      (Save.Repository.holding tornSaves) Save.SlotForm.documented_lenient true
      (savedOpening tornSaves).stamps (by decide) hkept 40 [.newGame, .advance] hslot
      (h := h) rfl hview hwithin 900
  have hpermits : r.Permits 900 2 := by
    have hlegible : (h.engine.saves.map fun r => (r.entries 900).isOk) = some true := by
      decide +kernel
    rw [hsaves, Option.map_some, Option.some.injEq] at hlegible
    exact ⟨Save.Repository.not_givesUp_of_isOk hlegible, by decide, by decide +kernel⟩
  obtain ⟨saved, h', hsaved, -, hlater⟩ := hpermitted hpermits
  have hspares : ∀ call ∈ ([.title, .save 1, .choose 0] : List (Call Nat)),
      call.Within (Call.Spares 2) := by
    intro call hcall
    simp only [List.mem_cons, List.not_mem_nil, or_false] at hcall
    rcases hcall with rfl | rfl | rfl
    · exact Call.within_of_plain rfl trivial
    · exact Call.within_of_plain rfl (show (1 : Int) ≠ 2 by decide)
    · exact Call.within_of_plain rfl trivial
  obtain ⟨c, hload, rfl, -⟩ := hlater 40 _ hspares 900 le_rfl
  exact ⟨hview, node, saved, h', hsaved, hload⟩

/-- In the middle of a story nothing can be saved next to a number with a digit too many. -/
theorem a_long_number_keeps_a_story_from_being_saved :
    let text := Json.numberText (10 ^ Text.digitLimit)
    let h := (savedOpening text).play 40 [.newGame]
    (Save.Repository.holding text).hasSlot 1 = true ∧ h.engine.session.view = .playing ∧
      ∃ err h', perform 40 (.save 1) h = (.error (.raised err), h') := by
  obtain ⟨hview, -, hfails⟩ :=
    save_breaks_off (Save.Repository.givesUp_numberText Json.isTooLong_pow 899)
  exact ⟨rfl, hview, hfails⟩

end VisualNovel.Playback
