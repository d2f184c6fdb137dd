import VisualNovel.Proofs.Playback.Visits
import VisualNovel.Proofs.Script.Links
import VisualNovel.Proofs.Script.Validity

/-!
Ways out of a node. In a script without broken links, a player gets away from every node by going
on, choosing and waiting, except from a video that nothing comes after: going on does nothing there,
and no timer is ever set that would. A node that the report says to return to the title does so if
it has no video.
-/
namespace VisualNovel

/-- A video that nothing comes after. -/
structure Node.IsDeadEnd (node : Node) : Prop where
  video : node.hasVideo = true
  choices : node.choices = []
  next : node.next = none

/-- A video with a next node, but without choices, leads on to it. -/
theorem Script.Linked.exists_afterVideo {s : Script} (h : s.Linked) (hnamed : s.get? "" = none)
    {node : Node} (hnode : s.get? node.id = some node) (hvideo : node.hasVideo = true)
    (hchoices : node.choices = []) {id : String} (hnext : node.next = some id)
    (hend : id ≠ endTarget) : ∃ target, s.afterVideo? node = some target := by
  have hmem : id ∈ node.successors := by simp [Node.successors, hchoices, hnext]
  obtain ⟨target, htarget⟩ := h.get? hnode hmem hend
  refine ⟨target, Script.afterVideo?_of_next hvideo hnext ?_ hend htarget⟩
  rintro rfl
  rw [hnamed] at htarget
  cases htarget

namespace Playback

/-- A visit to a node is over: the title screen is back, an ending is under way, or another node is
visited and this one is remembered. -/
def Session.Leaves (old new : Session) : Prop :=
  new.view = .title ∨ new.ending = true ∨ new.history = old.history ++ old.current.toList

theorem Session.Remains.leaves {s s' s'' : Session} (h : s.Remains s') (h' : s'.Leaves s'') :
    s.Leaves s'' := by
  unfold Session.Leaves at h' ⊢
  rwa [h.history, h.current] at h'

variable {τ ν : Type}

section Leaving
variable [AddZeroClass τ] [Mul τ] [NatCast τ] [LinearOrder τ]

theorem Engine.navigate_leaves (e : Engine τ ν) (target : Node) :
    e.session.Leaves (e.navigate target).engine.session := by
  refine Or.inr (Or.inr ?_)
  rw [navigate_session]

theorem Engine.follow_leaves (e : Engine τ ν) (choice : Choice) :
    e.session.Leaves (e.follow choice).engine.session := by
  unfold Engine.follow
  split
  · refine Or.inr (Or.inr ?_)
    rw [navigate_session]
  · exact Or.inl rfl

end Leaving

namespace Engine.Stands

variable {e : Engine τ ν} {s : Script} {node : Node}

theorem found (h : e.Stands s node) : s.get? node.id = some node := by
  obtain ⟨-, hat⟩ := Engine.at_of_currentNode h.sound h.current
  rw [← h.script]
  exact hat.found

theorem not_leaves (h : e.Stands s node) {new : Session} (hremains : e.session.Remains new) :
    ¬ e.session.Leaves new := by
  obtain ⟨hview, hat⟩ := Engine.at_of_currentNode h.sound h.current
  rintro (htitle | hending | hhistory)
  · cases hview.symm.trans (hremains.view.symm.trans htitle)
  · cases h.ending.symm.trans (hremains.ending.symm.trans hending)
  · have hlength := congrArg List.length (hremains.history.symm.trans hhistory)
    simp [hat.current] at hlength

variable [Save.KeyValueStore ν]
variable [AddZeroClass τ] [Mul τ] [NatCast τ] [LinearOrder τ]

theorem exists_choice (h : e.Stands s node) (hrevealed : e.session.reveal = .revealed)
    (hchoices : node.choices ≠ []) :
    ∃ e' : Engine τ ν, e.Leads e' ∧ e.session.Leaves e'.session := by
  obtain ⟨first, rest, hfirst⟩ := List.exists_cons_of_ne_nil hchoices
  have hindex : node.choices[0]? = some first := by rw [hfirst]; rfl
  exact ⟨_, .choose (h.selectChoice_eq hrevealed hindex), e.follow_leaves first⟩

/-- Without a video, going on completes a text that is still appearing. -/
theorem exists_complete (h : e.Stands s node) (hkeys : s.KeysAreIds)
    (hvideo : node.hasVideo = false) :
    ∃ e' : Engine τ ν, e.Leads e' ∧ e'.Stands s node ∧ e.session.Remains e'.session ∧
      e'.session.reveal = .revealed := by
  cases hreveal : e.session.reveal with
  | revealed => exact ⟨e, .refl e, h, .refl _, hreveal⟩
  | revealing =>
    have hadvance : e.advance = e.completeReveal := by
      unfold Engine.advance
      rw [h.current]
      simp [h.ending, hvideo, hreveal]
    have hturn : Turn e e.completeReveal := .complete h.current h.ending hreveal
    have hkeys' : e.script.KeysAreIds := h.script ▸ hkeys
    have hremains : e.session.Remains e.completeReveal.engine.session := by
      rw [completeReveal_session]
      exact ⟨rfl, rfl, rfl, rfl, rfl⟩
    refine ⟨e.completeReveal.engine, hadvance ▸ .advance e, ?_, hremains, ?_⟩
    · exact h.of_remains hturn.script (hturn.sound hkeys' h.sound)
        (hturn.armed hkeys' h.sound h.armed) hremains
    · rw [completeReveal_session]

theorem exists_leaves [ExistsAddOfLE τ] (h : e.Stands s node) (hlinked : s.Linked)
    (hkeys : s.KeysAreIds) (hnamed : s.get? "" = none) (hopen : ¬ node.IsDeadEnd) :
    ∃ e' : Engine τ ν, e.Leads e' ∧ e.session.Leaves e'.session := by
  cases hvideo : node.hasVideo with
  | true =>
    by_cases hend : node.next = some endTarget
    · have hadvance : e.advance = e.returnToTitle := by
        unfold Engine.advance Engine.passVideo
        rw [h.current]
        simp [h.ending, hvideo, hend]
      exact ⟨_, .advance e, Or.inl (by rw [hadvance]; rfl)⟩
    · cases hpast : s.afterVideo? node with
      | some target =>
        have hadvance := h.advance_of_afterVideo hpast
        exact ⟨_, .advance e, hadvance ▸ e.navigate_leaves target⟩
      | none =>
        have hchoices : node.choices ≠ [] := by
          intro hnone
          cases hnext : node.next with
          | none => exact hopen ⟨hvideo, hnone, hnext⟩
          | some id =>
            obtain ⟨target, htarget⟩ := hlinked.exists_afterVideo hnamed h.found hvideo hnone hnext
              (fun hsame => hend (hsame ▸ hnext))
            rw [hpast] at htarget
            cases htarget
        -- Going on would not complete the text, so the player waits for it.
        have hlingers : e.Lingers s node := ⟨h, Or.inr (Or.inr hvideo)⟩
        obtain ⟨e₁, hdrifts, hlingers₁, hremains, hrevealed⟩ := hlingers.exists_revealed hkeys
        obtain ⟨e', hleads, hleaves⟩ := hlingers₁.exists_choice hrevealed hchoices
        exact ⟨e', hdrifts.leads.trans hleads, hremains.leaves hleaves⟩
  | false =>
    obtain ⟨e₁, hleads, hstands, hremains, hrevealed⟩ := h.exists_complete hkeys hvideo
    by_cases hchoices : node.choices = []
    · have hadvance := hstands.advance_of_plain hvideo hchoices hrevealed
      refine ⟨_, hleads.trans (.advance e₁), hremains.leaves ?_⟩
      rw [hadvance]
      split
      · exact e₁.navigate_leaves _
      · exact Or.inr (Or.inl rfl)
    · obtain ⟨e', hleads', hleaves⟩ := hstands.exists_choice hrevealed hchoices
      exact ⟨e', hleads.trans hleads', hremains.leaves hleaves⟩

theorem exists_title [ExistsAddOfLE τ] (h : e.Stands s node) (hkeys : s.KeysAreIds)
    (hvideo : node.hasVideo = false) (hchoices : node.choices = []) (hnext : node.next = none) :
    ∃ e' : Engine τ ν, e.Leads e' ∧ e'.session = {} := by
  obtain ⟨e₁, hleads, hstands, -, hrevealed⟩ := h.exists_complete hkeys hvideo
  have hadvance : e₁.advance = e₁.beginEnding := by
    have hnone : e₁.successor node = none := by
      unfold Engine.successor
      rw [hnext]
    rw [hstands.advance_of_plain hvideo hchoices hrevealed, hnone]
  obtain ⟨e', hleads', htitle⟩ := Engine.exists_title hstands.armed.clears.beginEnding
  exact ⟨e', (hleads.trans (hadvance ▸ .advance e₁)).trans hleads', htitle⟩

end Engine.Stands

variable [Save.KeyValueStore ν]
variable [AddZeroClass τ] [Mul τ] [NatCast τ] [LinearOrder τ]

theorem Step.remains_at_deadEnd {e e' : Engine τ ν} {s : Script} {node : Node}
    (hstep : Step Call.Plays e e') (h : e.Stands s node) (hkeys : s.KeysAreIds)
    (hdead : node.IsDeadEnd) : e'.Stands s node ∧ e.session.Remains e'.session := by
  cases hstep with
  | request hcall hgranted =>
    cases hcall with
    | advance =>
      have hadvance : e.advance = e.quiet := by
        unfold Engine.advance Engine.passVideo
        rw [h.current]
        simp [h.ending, hdead.video, hdead.next]
      have hc := Except.ok.inj (Option.some.inj hgranted)
      rw [hadvance] at hc
      subst hc
      exact ⟨h, .refl _⟩
    | choose index =>
      have hchosen := eq_ok_of_mapError hgranted
      obtain ⟨other, choice, hother, -, -, -, hchoice, -⟩ := Engine.selectChoice_eq_ok hchosen
      rw [h.current, Option.some.injEq] at hother
      rw [← hother, hdead.choices] at hchoice
      cases hchoice
    | wait seconds => cases hgranted
  | alarm hdue =>
    have hlingers : e.Lingers s node := ⟨h, Or.inr (Or.inr hdead.video)⟩
    obtain ⟨-, hlingers', hremains, -⟩ := hlingers.tick hkeys hdue
    exact ⟨hlingers'.toStands, hremains⟩
  | clock hquiet =>
    exact ⟨h.withClock _, .refl _⟩
  | saves saves =>
    exact ⟨h.withSaves saves, .refl _⟩

theorem Steps.remains_at_deadEnd {e e' : Engine τ ν} {s : Script} {node : Node}
    (hsteps : Steps Call.Plays e e') (h : e.Stands s node) (hkeys : s.KeysAreIds)
    (hdead : node.IsDeadEnd) : e'.Stands s node ∧ e.session.Remains e'.session := by
  induction hsteps with
  | refl => exact ⟨h, .refl _⟩
  | tail hsteps hstep ih =>
    obtain ⟨hstands, hremains⟩ := ih
    obtain ⟨hstands', hremains'⟩ := hstep.remains_at_deadEnd hstands hkeys hdead
    exact ⟨hstands', hremains.trans hremains'⟩

/-- A player who only goes on, chooses and waits does not get away from a dead end. -/
theorem Engine.Stands.remains {e : Engine τ ν} {s : Script} {node : Node} (h : e.Stands s node)
    (hkeys : s.KeysAreIds) (hdead : node.IsDeadEnd) {house : House τ ν} (hsilent : house.Silent)
    (hengine : house.engine = e) (fuel : Nat) {calls : List (Call τ)}
    (hcalls : ∀ call ∈ calls, call.Plays) :
    e.session.Remains (house.play fuel calls).engine.session := by
  have hsteps := (House.play_follows fuel calls
    (fun call hcall => (hcalls call hcall).within (hcalls call hcall)) house hsilent.within).steps
  rw [hengine] at hsteps
  exact (hsteps.remains_at_deadEnd h hkeys hdead).2

theorem Engine.Stands.remains_of_leads {e e' : Engine τ ν} {s : Script} {node : Node}
    (h : e.Stands s node) (hkeys : s.KeysAreIds) (hdead : node.IsDeadEnd) (hleads : e.Leads e') :
    e.session.Remains e'.session := by
  obtain ⟨calls, hcalls, least, hplay⟩ := hleads
  have hsilent : (House.opening e ⟨[], 0⟩).Silent := fun _ hmem => (nomatch hmem)
  have hdone := (hplay least (Nat.le_refl _) (House.opening e ⟨[], 0⟩) hsilent rfl).1
  exact hdone ▸ h.remains hkeys hdead hsilent rfl least hcalls

/-- In a valid script, whatever has happened in a run, a player can leave the present node exactly
if it is not a video that nothing comes after; there, no calls ever change the visit. Of the nodes
that are reported to return to the title, exactly those without a video do. -/
theorem nodes_can_be_left_iff [ExistsAddOfLE τ] (c : Compiler) (text : String)
    (hvalid : (Graph.validate (c.compile text).script).isValid = true) (timing : Timing τ)
    (saves : Option (Save.Repository ν)) :
    (∀ (stamps : Stamps) (fuel : Nat) (calls : List (Call τ)),
      Steps (fun _ => True) (Engine.opening (c.compile text).script timing saves)
        ((House.opening (Engine.opening (c.compile text).script timing saves) stamps).play fuel
          (.newGame :: calls)).engine) ∧
      ∀ e : Engine τ ν, Steps (fun _ => True)
          (Engine.opening (c.compile text).script timing saves) e →
        e.session.view = .playing → e.session.ending = false →
        ∃ node, e.currentNode = some node ∧
          ((∃ e' : Engine τ ν, e.Leads e' ∧ e.session.Leaves e'.session) ↔ ¬ node.IsDeadEnd) ∧
          (node.IsDeadEnd → ∀ house : House τ ν, house.Silent → house.engine = e →
            ∀ (fuel : Nat) (calls : List (Call τ)), (∀ call ∈ calls, call.Plays) →
              e.session.Remains (house.play fuel calls).engine.session) ∧
          (Graph.stopWarning node.id ∈ (Graph.validate (c.compile text).script).warnings →
            ((∃ e' : Engine τ ν, e.Leads e' ∧ e'.session = {}) ↔ node.hasVideo = false)) := by
  have hkeys := Compiler.keysAreIds_compile c text
  have hlinked := (Graph.isValid_iff _).mp hvalid
  constructor
  · intro stamps fuel calls
    exact House.play_steps fuel (.newGame :: calls)
      (fun call _ => call.within_any) _ stamps
  · intro e hsteps hview hending
    obtain ⟨node, hstands⟩ := Steps.exists_stands hkeys hsteps hview hending
    refine ⟨node, hstands.current, ⟨?_, ?_⟩, ?_, ?_⟩
    · rintro ⟨e', hleads, hleaves⟩ hdead
      exact hstands.not_leaves (hstands.remains_of_leads hkeys hdead hleads) hleaves
    · exact hstands.exists_leaves hlinked hkeys (Compiler.get?_empty c text)
    · intro hdead house hsilent hengine fuel calls hcalls
      exact hstands.remains hkeys hdead hsilent hengine fuel hcalls
    · intro hwarned
      have hterminal := ((Graph.stop_mem_warnings hlinked.start).mp hwarned).2
      unfold Graph.isTerminalKey at hterminal
      rw [hstands.found] at hterminal
      have hstops : node.choices = [] ∧ node.next = none := by
        simpa [Node.isTerminal] using hterminal
      constructor
      · rintro ⟨e', hleads, htitle⟩
        by_contra hvideo
        have hdead : node.IsDeadEnd := ⟨by simpa using hvideo, hstops.1, hstops.2⟩
        have hremains := hstands.remains_of_leads hkeys hdead hleads
        rw [htitle] at hremains
        cases hview.symm.trans hremains.view.symm
      · exact fun hvideo => hstands.exists_title hkeys hvideo hstops.1 hstops.2

/-- The last line of a short story. -/
def forkEnd : Engine Nat Save.MemoryStore :=
  (forkOpening.play 40 [.newGame, .advance, .choose 0]).engine

theorem forkEnd_steps :
    Steps (fun _ => True) (Engine.opening forkScript Timing.usual none) forkEnd :=
  House.play_steps 40 [.newGame, .advance, .choose 0]
    (fun call _ => call.within_any) _ ⟨[], 0⟩

theorem left_mem_reachable : "left" ∈ Graph.reachable forkScript := by
  have hstart : (forkScript.get? "start").map Node.successors = some ["left"] := by decide +kernel
  have hleft : (forkScript.get? "left").isSome = true := by decide +kernel
  have hstartId : forkScript.startId = "start" := by decide +kernel
  obtain ⟨node, hnode, hsuccessors⟩ := Option.map_eq_some_iff.mp hstart
  obtain ⟨target, htarget⟩ := Option.isSome_iff_exists.mp hleft
  have hreached : "start" ∈ Graph.reachable forkScript :=
    hstartId ▸ Graph.start_mem_reachable forkScript
  exact Graph.mem_reachable_of_successor hreached hnode (by simp [hsuccessors]) htarget

/-- It can be left, and it is reported to return to the title, which it does. -/
theorem nodes_can_be_left_in_a_story :
    (Graph.validate forkScript).isValid = true ∧ forkEnd.session.view = .playing ∧
      forkEnd.session.ending = false ∧
      Graph.stopWarning "left" ∈ (Graph.validate forkScript).warnings ∧
      (∃ e', forkEnd.Leads e' ∧ forkEnd.session.Leaves e'.session) ∧
      ∃ e', forkEnd.Leads e' ∧ e'.session = {} := by
  have hvalid : (Graph.validate forkScript).isValid = true := by decide +kernel
  have hview : forkEnd.session.view = .playing := by decide +kernel
  have hending : forkEnd.session.ending = false := by decide +kernel
  have hshown : forkEnd.currentNode.map (fun node => (node.id, node.hasVideo)) =
      some ("left", false) := by decide +kernel
  have hwarned : Graph.stopWarning "left" ∈ (Graph.validate forkScript).warnings := by
    have hstart : forkScript.start?.isSome = true := by decide +kernel
    exact (Graph.stop_mem_warnings hstart).mpr ⟨left_mem_reachable, by decide +kernel⟩
  obtain ⟨node, hcurrent, hiff, -, htitle⟩ :=
    (nodes_can_be_left_iff {} forkText hvalid Timing.usual none).2 forkEnd forkEnd_steps hview
      hending
  rw [hcurrent, Option.map_some, Option.some.injEq, Prod.mk.injEq] at hshown
  obtain ⟨hid, hvideo⟩ := hshown
  have hopen : ¬ node.IsDeadEnd := by
    intro hdead
    cases hvideo.symm.trans hdead.video
  rw [hid] at htitle
  exact ⟨hvalid, hview, hending, hwarned, hiff.mpr hopen, (htitle hwarned).mpr hvideo⟩

/-- A story that ends with a film. -/
def lastFilmText : String := "【video:v】\nHi"

def lastFilmScript : Script := (filmCompiler.compile lastFilmText).script

def lastFilmOpening : House Nat Save.MemoryStore :=
  .opening (.opening lastFilmScript Timing.usual none) ⟨[], 0⟩

def lastFilm : Engine Nat Save.MemoryStore := (lastFilmOpening.play 1 [.newGame]).engine

theorem lastFilm_steps :
    Steps (fun _ => True) (Engine.opening lastFilmScript Timing.usual none) lastFilm :=
  House.play_steps 1 [.newGame] (fun call _ => call.within_any) _
    ⟨[], 0⟩

/-- The film is reported to return to the title, and is never left. -/
theorem a_last_film_is_never_left :
    (Graph.validate lastFilmScript).isValid = true ∧
      Graph.stopWarning "start" ∈ (Graph.validate lastFilmScript).warnings ∧
      lastFilm.currentNode.map (·.id) = some "start" ∧
      lastFilm.session.view = .playing ∧ lastFilm.session.ending = false ∧
      ∀ house : House Nat Save.MemoryStore, house.Silent → house.engine = lastFilm →
        ∀ (fuel : Nat) (calls : List (Call Nat)), (∀ call ∈ calls, call.Plays) →
          lastFilm.session.Remains (house.play fuel calls).engine.session := by
  have hkeys : lastFilmScript.KeysAreIds := Compiler.keysAreIds_compile filmCompiler lastFilmText
  have hstart : lastFilmScript.start?.isSome = true := by decide +kernel
  have hstartId : lastFilmScript.startId = "start" := by decide +kernel
  have hreached : "start" ∈ Graph.reachable lastFilmScript :=
    hstartId ▸ Graph.start_mem_reachable lastFilmScript
  have hview : lastFilm.session.view = .playing := by decide +kernel
  have hending : lastFilm.session.ending = false := by decide +kernel
  have hshown : lastFilm.currentNode.map (fun node => (node.hasVideo, node.choices, node.next)) =
      some (true, [], none) := by decide +kernel
  refine ⟨by decide +kernel, (Graph.stop_mem_warnings hstart).mpr ⟨hreached, by decide +kernel⟩,
    by decide +kernel, hview, hending, ?_⟩
  intro house hsilent hengine fuel calls hcalls
  obtain ⟨node, hstands⟩ := lastFilm_steps.exists_stands hkeys hview hending
  rw [hstands.current, Option.map_some, Option.some.injEq, Prod.mk.injEq, Prod.mk.injEq] at hshown
  have hdead : node.IsDeadEnd := ⟨hshown.1, hshown.2.1, hshown.2.2⟩
  exact hstands.remains hkeys hdead hsilent hengine fuel hcalls

end Playback

end VisualNovel
