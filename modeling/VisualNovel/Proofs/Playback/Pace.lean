import VisualNovel.Proofs.Playback.Delays
import VisualNovel.Proofs.Playback.WaysOut

/-!
Automatic pacing takes the way that a player takes by hand. One who lets each text finish and goes
on, and one who has switched a mode on and only waits, enter the same nodes one after the other, and
stop at the same place: at choices, at a video, or where the ending begins.
-/
namespace VisualNovel.Playback

variable {τ ν : Type}

/-- Two sessions have entered the same nodes, which history and present node tell, and are at the
same place, however much of the text is shown and however they go on from there. -/
structure Session.SameSpot (x y : Session) : Prop where
  view : y.view = x.view
  current : y.current = x.current
  history : y.history = x.history
  ending : y.ending = x.ending

/-- One move on: to the next node, or into the ending where there is none. -/
def Session.onward (x : Session) : Option Node → Session
  | some target => { x with
      current := some target.id, history := x.history ++ x.current.toList, ending := false }
  | none => { x with ending := true }

namespace Session.SameSpot

theorem refl (x : Session) : x.SameSpot x := ⟨rfl, rfl, rfl, rfl⟩

theorem symm {x y : Session} (h : x.SameSpot y) : y.SameSpot x :=
  ⟨h.view.symm, h.current.symm, h.history.symm, h.ending.symm⟩

theorem trans {x y z : Session} (h : x.SameSpot y) (h' : y.SameSpot z) : x.SameSpot z :=
  ⟨h'.view.trans h.view, h'.current.trans h.current, h'.history.trans h.history,
    h'.ending.trans h.ending⟩

theorem of_remains {x y : Session} (h : x.Remains y) : x.SameSpot y :=
  ⟨h.view, h.current, h.history, h.ending⟩

theorem onward {x y : Session} (h : x.SameSpot y) (target : Option Node) :
    (x.onward target).SameSpot (y.onward target) := by
  cases target with
  | none => exact ⟨h.view, h.current, h.history, rfl⟩
  | some node =>
    refine ⟨h.view, rfl, ?_, rfl⟩
    unfold Session.onward
    rw [h.history, h.current]

end Session.SameSpot

/-- A player is needed to get on, or the ending has begun. -/
def Engine.Stops (e : Engine τ ν) : Prop :=
  e.session.ending = true ∨
    ∃ node, e.currentNode = some node ∧ (node.choices ≠ [] ∨ node.hasVideo = true)

theorem Engine.not_stops_iff {e : Engine τ ν} {node : Node} (hcurrent : e.currentNode = some node) :
    ¬ e.Stops ↔ e.session.ending = false ∧ node.choices = [] ∧ node.hasVideo = false := by
  unfold Engine.Stops
  simp [hcurrent]

theorem Engine.successor_congr {e e' : Engine τ ν} (h : e'.script = e.script) (node : Node) :
    e'.successor node = e.successor node := by
  unfold Engine.successor
  rw [h]

section Moves
variable [Zero τ] [Add τ] [Mul τ] [NatCast τ] [LT τ] [DecidableLT τ]

theorem Engine.advance_onward {e : Engine τ ν} {node : Node} (hcurrent : e.currentNode = some node)
    (hending : e.session.ending = false) (hvideo : node.hasVideo = false)
    (hchoices : node.choices = []) (hrevealed : e.session.reveal = .revealed) :
    (e.session.onward (e.successor node)).SameSpot e.advance.engine.session := by
  rw [advance_of_plain hcurrent hending hvideo hchoices hrevealed]
  cases e.successor node with
  | none => exact ⟨rfl, rfl, rfl, rfl⟩
  | some target =>
    dsimp only
    rw [navigate_session]
    exact ⟨rfl, rfl, rfl, rfl⟩

/-- Only an ending switches the pacing off. -/
theorem Engine.advance_pacing {e : Engine τ ν} {node target : Node}
    (hcurrent : e.currentNode = some node) (hending : e.session.ending = false)
    (hvideo : node.hasVideo = false) (hchoices : node.choices = [])
    (hrevealed : e.session.reveal = .revealed) (hsuccessor : e.successor node = some target) :
    e.advance.engine.session.pacing = e.session.pacing := by
  rw [advance_of_plain hcurrent hending hvideo hchoices hrevealed, hsuccessor]
  dsimp only
  rw [navigate_session]

end Moves

theorem Engine.Stands.of_onward {a a' : Engine τ ν} {s : Script} {node target : Node}
    (h : a.Stands s node) (hkeys : s.KeysAreIds) (htarget : a.successor node = some target)
    (hscript : a'.script = a.script) (hsound : a'.session.Sound a.script) (harmed : a'.Armed)
    (hspot : (a.session.onward (some target)).SameSpot a'.session) : a'.Stands s target := by
  obtain ⟨id, -, -, hfound⟩ := successor_eq_some htarget
  have hview := (Engine.at_of_currentNode h.sound h.current).1
  have hkeys' : a.script.KeysAreIds := h.script ▸ hkeys
  refine ⟨hscript.trans h.script, hscript.symm ▸ hsound, harmed, ?_, hspot.ending⟩
  refine (currentNode_eq_some_iff a' target).mpr ⟨hspot.view.trans hview, target.id, ?_, ?_⟩
  · exact hspot.current
  · rw [hscript]
    exact hkeys'.get?_id hfound

variable [AddZeroClass τ] [LinearOrder τ]

/-- Every delay takes some time. -/
structure Timing.Positive (t : Timing τ) : Prop where
  revealInterval : 0 < t.revealInterval
  fastRevealInterval : 0 < t.fastRevealInterval
  fastForwardDelay : 0 < t.fastForwardDelay
  autoMinDelay : 0 < t.autoMinDelay
  autoMaxDelay : 0 < t.autoMaxDelay
  endGrace : 0 < t.endGrace

variable [Mul τ] [NatCast τ]

theorem Timing.Positive.autoDelay {t : Timing τ} (h : t.Positive) (length : Nat) :
    0 < t.autoDelay length :=
  (lt_min h.autoMinDelay h.autoMaxDelay).trans_le (t.min_le_autoDelay length)

theorem Engine.delayFor_pos {e : Engine τ ν} (h : e.timing.Positive) (kind : AlarmKind) :
    0 < e.delayFor kind := by
  cases kind with
  | revealTick =>
    unfold delayFor Timing.revealIntervalFor
    dsimp only
    split
    · exact h.fastRevealInterval
    · exact h.revealInterval
  | pacingFire =>
    unfold delayFor
    dsimp only
    split
    · exact h.fastForwardDelay
    · exact h.autoDelay _
  | titleReturn => exact h.endGrace

section ByHand
variable [Save.KeyValueStore ν]

/-- How far a player has got who leaves the pacing alone, and each time lets the text finish and
goes on, unless choices, a video or the ending stop them. -/
inductive Engine.ByHand (e : Engine τ ν) : Nat → Engine τ ν → Prop
  | start : ByHand e 0 e
  | goOn {n : Nat} {e₁ e₂ : Engine τ ν} (hbefore : ByHand e n e₁) (hopen : ¬ e₁.Stops)
      (hread : e₁.Drifts e₂) (hrevealed : e₂.session.reveal = .revealed) :
      ByHand e (n + 1) e₂.advance.engine

theorem Step.lingers {e e' : Engine τ ν} {s : Script} {node : Node}
    (hstep : Step Call.Waits e e') (h : e.Lingers s node) (hkeys : s.KeysAreIds) :
    e'.Lingers s node ∧ e.session.Remains e'.session := by
  cases hstep with
  | request hcall hgranted =>
    cases hcall with
    | wait seconds => cases hgranted
  | alarm hdue =>
    obtain ⟨-, hlingers, hremains, -⟩ := h.tick hkeys hdue
    exact ⟨hlingers, hremains⟩
  | clock hquiet =>
    exact ⟨⟨h.toStands.withClock _, h.waits⟩, .refl _⟩
  | saves saves =>
    exact ⟨⟨h.toStands.withSaves saves, h.waits⟩, .refl _⟩

theorem Steps.lingers {e e' : Engine τ ν} {s : Script} {node : Node}
    (hsteps : Steps Call.Waits e e') (h : e.Lingers s node) (hkeys : s.KeysAreIds) :
    e'.Lingers s node ∧ e.session.Remains e'.session := by
  induction hsteps with
  | refl => exact ⟨h, .refl _⟩
  | tail hsteps hstep ih =>
    obtain ⟨hlingers, hremains⟩ := ih
    obtain ⟨hlingers', hremains'⟩ := hstep.lingers hlingers hkeys
    exact ⟨hlingers', hremains.trans hremains'⟩

/-- One round by hand: the next node is entered and read, or the ending begins. -/
theorem Engine.Reads.round {e e' : Engine τ ν} {s : Script} {node : Node} (h : e.Reads s node)
    (hkeys : s.KeysAreIds) (hopen : ¬ e.Stops) (hread : e.Drifts e')
    (hrevealed : e'.session.reveal = .revealed) :
    (e.session.onward (e.successor node)).SameSpot e'.advance.engine.session ∧
      ∀ target, e.successor node = some target → e'.advance.engine.Reads s target := by
  obtain ⟨-, hchoices, hvideo⟩ := (Engine.not_stops_iff h.current).mp hopen
  obtain ⟨hlingers, hremains⟩ := Steps.lingers hread.steps h.lingers hkeys
  have hreads := h.of_lingers hlingers hremains
  have hsame : e'.successor node = e.successor node :=
    Engine.successor_congr (hreads.script.trans h.script.symm) node
  constructor
  · rw [← hsame]
    exact ((Session.SameSpot.of_remains hremains).onward _).trans
      (advance_onward hreads.current hreads.ending hvideo hchoices hrevealed)
  · intro target htarget
    rw [hreads.lingers.advance_of_plain hvideo hchoices hrevealed, hsame, htarget]
    obtain ⟨id, hnext, hend, hget⟩ := successor_eq_some htarget
    rw [h.script] at hget
    exact hreads.navigate hkeys (.next hvideo hchoices hnext hend hget)

theorem Engine.ByHand.reads {e e₁ : Engine τ ν} {s : Script} {node : Node} {n : Nat}
    (h : e.ByHand n e₁) (hreads : e.Reads s node) (hkeys : s.KeysAreIds) :
    e₁.session.ending = true ∨ ∃ node, e₁.Reads s node := by
  induction h with
  | start => exact Or.inr ⟨node, hreads⟩
  | @goOn n e₁ e₂ hbefore hopen hread hrevealed ih =>
    rcases ih with hending | ⟨present, hpresent⟩
    · exact absurd (Or.inl hending) hopen
    · obtain ⟨hspot, hnext⟩ := hpresent.round hkeys hopen hread hrevealed
      cases hsuccessor : e₁.successor present with
      | none =>
        rw [hsuccessor] at hspot
        exact Or.inl hspot.ending
      | some target => exact Or.inr ⟨target, hnext target hsuccessor⟩

theorem Engine.ByHand.exists_round [ExistsAddOfLE τ] {e e₁ : Engine τ ν} {s : Script} {node : Node}
    {n : Nat} (h : e.ByHand n e₁) (hreads : e.Reads s node) (hkeys : s.KeysAreIds)
    (hopen : ¬ e₁.Stops) : ∃ e₂, e.ByHand (n + 1) e₂ ∧ ∃ node, e₁.currentNode = some node ∧
      (e₁.session.onward (e₁.successor node)).SameSpot e₂.session := by
  rcases h.reads hreads hkeys with hending | ⟨present, hpresent⟩
  · exact absurd (Or.inl hending) hopen
  · obtain ⟨e₂, hread, -, hrevealed⟩ := hpresent.exists_revealed hkeys
    exact ⟨_, .goOn h hopen hread hrevealed, present, hpresent.current,
      (hpresent.round hkeys hopen hread hrevealed).1⟩

/-- A step in which only time passes leaves a session where it is, moves it on from a node that
does not stop it, or ends it. -/
theorem Step.wait_cases {a a' : Engine τ ν} (hstep : Step Call.Waits a a') (harmed : a.Armed) :
    a.session.SameSpot a'.session ∨
      (∃ node, a.currentNode = some node ∧ ¬ a.Stops ∧
        (a.session.onward (a.successor node)).SameSpot a'.session) ∨
      (a.session.ending = true ∧ a'.session = {}) := by
  cases hstep with
  | request hcall hgranted =>
    cases hcall with
    | wait seconds => cases hgranted
  | clock hquiet => exact Or.inl (.refl _)
  | saves saves => exact Or.inl (.refl _)
  | @alarm target entry rest hdue =>
    obtain ⟨hawaited, hpopped⟩ := Engine.Sets.pop harmed hdue
    rw [hpopped.fire_eq]
    cases hkind : entry.task.kind with
    | revealTick =>
      refine Or.inl ?_
      dsimp only
      cases hcurrent : ({ a with agenda := rest } : Engine τ ν).currentNode with
      | none =>
        rw [Engine.revealTick_of_none hcurrent]
        exact .refl _
      | some node =>
        rw [Engine.revealTick_session hcurrent]
        exact ⟨rfl, rfl, rfl, rfl⟩
    | pacingFire =>
      rw [hkind] at hawaited
      obtain ⟨node, hcurrent, hrevealed, hending, hvideo, hchoices⟩ :=
        Engine.eq_of_awaited_pacingFire hawaited
      refine Or.inr (Or.inl ⟨node, hcurrent, ?_, ?_⟩)
      · exact (Engine.not_stops_iff hcurrent).mpr ⟨hending, hchoices, hvideo⟩
      · exact Engine.advance_onward (e := { a with agenda := rest, pacingTimer := none }) hcurrent
          hending hvideo hchoices hrevealed
    | titleReturn =>
      rw [hkind] at hawaited
      exact Or.inr (Or.inr ⟨Engine.ending_of_awaited hawaited, rfl⟩)

end ByHand

/-- An engine on its way through a script, with automatic pacing on. -/
structure Engine.Rides (a : Engine τ ν) (s : Script) (node : Node) : Prop
    extends a.Stands s node where
  goesOn : a.session.pacing ≠ .manual
  justSet : a.JustSet
  delays : a.timing.Positive

section Riding
variable [AddLeftStrictMono τ]

theorem Engine.JustSet.now_lt {e : Engine τ ν} (h : e.JustSet) (hdelays : e.timing.Positive) :
    ∀ t ∈ e.agenda.queue, e.agenda.now < t.due := by
  intro t ht
  have hpos := Engine.delayFor_pos hdelays t.task.kind
  rw [h t ht, Timer.later_eq_right (le_of_lt hpos)]
  exact lt_add_of_pos_right _ hpos

variable [Save.KeyValueStore ν]

/-- Waiting until the next timer runs, and no longer. -/
theorem Engine.JustSet.exists_drift {e : Engine τ ν} (h : e.JustSet) (hdelays : e.timing.Positive)
    {kind : AlarmKind} (hsets : e.Sets (some kind)) :
    ∃ (target : τ) (entry : Timer.Entry τ Alarm) (rest : Timer.Agenda τ Alarm),
      e.agenda.pop? target = some (entry, rest) ∧ entry.task.kind = kind ∧
        e.Drifts (({ e with agenda := rest } : Engine τ ν).fire entry.task).engine := by
  obtain ⟨waiting, hholds, hkind⟩ := hsets
  obtain ⟨t, rfl, hpurpose⟩ := Option.map_eq_some_iff.mp hkind
  have hqueue : e.agenda.queue = [t] := hholds.queue
  have hmem : t ∈ e.agenda.queue := hqueue ▸ List.mem_singleton.mpr rfl
  have hpop := Timer.Agenda.pop?_of_due hqueue (le_of_lt (h.now_lt hdelays t hmem)) (le_refl t.due)
  obtain ⟨-, hpopped⟩ := Engine.Sets.pop ⟨some t, hholds, rfl⟩ hpop
  have hsame := Engine.fire_sameTime ({ e with agenda := { e.agenda with
    now := t.due, queue := [] } } : Engine τ ν) t.task
  have hdelays' := hsame.timing.symm ▸ hdelays
  have hstill := Engine.Moves.of_still
    (Timer.Agenda.pop?_of_coming (hpopped.fire_justSet.now_lt hdelays'))
  rw [hsame.now] at hstill
  exact ⟨t.due, t, _, hpop, hpurpose, (Engine.Moves.of_due hpop hstill).drifts (h t hmem)⟩

namespace Engine.Rides

variable {a : Engine τ ν} {s : Script} {node : Node}

theorem tick (h : a.Rides s node) (hkeys : s.KeysAreIds)
    (hreveal : a.session.reveal = .revealing) :
    ∃ a' : Engine τ ν, a.Drifts a' ∧ a'.Rides s node ∧ a.session.Remains a'.session ∧
      a'.session.progress = a.session.progress + 1 := by
  have hsets : a.Sets (some .revealTick) := by
    have harmed := h.armed
    unfold Engine.Armed Engine.awaited at harmed
    rw [h.current] at harmed
    simpa [hreveal] using harmed
  obtain ⟨target, entry, rest, hpop, hkind, hdrift⟩ := h.justSet.exists_drift h.delays hsets
  obtain ⟨hstands, hremains, hprogress⟩ := h.toStands.tick hkeys hreveal hpop
  obtain ⟨-, hpopped⟩ := Engine.Sets.pop h.armed hpop
  have hsame := Engine.fire_sameTime ({ a with agenda := rest } : Engine τ ν) entry.task
  refine ⟨_, hdrift, ⟨hstands, ?_, hpopped.fire_justSet, hsame.timing.symm ▸ h.delays⟩, hremains,
    hprogress⟩
  rw [hremains.pacing]
  exact h.goesOn

theorem exists_revealed (h : a.Rides s node) (hkeys : s.KeysAreIds) :
    ∃ a' : Engine τ ν, a.Drifts a' ∧ a'.Rides s node ∧ a.session.Remains a'.session ∧
      a'.session.reveal = .revealed := by
  induction hleft : node.text.length - a.session.progress using Nat.strong_induction_on
    generalizing a with
  | _ left ih =>
    cases hreveal : a.session.reveal with
    | revealed => exact ⟨a, .refl a, h, .refl _, hreveal⟩
    | revealing =>
      have hless := h.progress_lt hreveal
      obtain ⟨a₁, hdrift, hrides, hremains, hprogress⟩ := h.tick hkeys hreveal
      obtain ⟨a', hdrift', hrides', hremains', hrevealed⟩ := ih _ (by omega) hrides rfl
      exact ⟨a', hdrift.trans hdrift', hrides', hremains.trans hremains', hrevealed⟩

/-- Once the text is complete and nothing stops it, play goes on by itself. -/
theorem goOn (h : a.Rides s node) (hkeys : s.KeysAreIds)
    (hrevealed : a.session.reveal = .revealed) (hopen : ¬ a.Stops) :
    ∃ a' : Engine τ ν, a.Drifts a' ∧
      (a.session.onward (a.successor node)).SameSpot a'.session ∧
      ∀ target, a.successor node = some target → a'.Rides s target := by
  obtain ⟨-, hchoices, hvideo⟩ := (Engine.not_stops_iff h.current).mp hopen
  have hsets : a.Sets (some .pacingFire) := by
    have harmed := h.armed
    unfold Engine.Armed Engine.awaited at harmed
    rw [h.current] at harmed
    simpa [hrevealed, h.ending, h.goesOn, Node.isDecision, hchoices, hvideo] using harmed
  obtain ⟨clock, entry, rest, hpop, hkind, hdrift⟩ := h.justSet.exists_drift h.delays hsets
  obtain ⟨hawaited, hpopped⟩ := Engine.Sets.pop h.armed hpop
  have hkeys' : a.script.KeysAreIds := h.script ▸ hkeys
  have hfire : ({ a with agenda := rest } : Engine τ ν).fire entry.task =
      ({ a with agenda := rest, pacingTimer := none } : Engine τ ν).advance := by
    rw [hpopped.fire_eq, hkind]
  have hcurrent : ({ a with agenda := rest, pacingTimer := none } : Engine τ ν).currentNode =
    some node := h.current
  have hspot : (a.session.onward (a.successor node)).SameSpot
      (({ a with agenda := rest } : Engine τ ν).fire entry.task).engine.session := by
    rw [hfire]
    exact Engine.advance_onward hcurrent h.ending hvideo hchoices hrevealed
  refine ⟨_, hdrift, hspot, ?_⟩
  intro target htarget
  rw [htarget] at hspot
  have hscript := Engine.fire_script ({ a with agenda := rest } : Engine τ ν) entry.task
  have hsound := Engine.fire_sound (e := { a with agenda := rest }) entry.task hkeys' h.sound
  have hstands := h.toStands.of_onward hkeys htarget hscript hsound
    (hpopped.fire_armed hawaited hkeys' h.sound) hspot
  have hsame := Engine.fire_sameTime ({ a with agenda := rest } : Engine τ ν) entry.task
  refine ⟨hstands, ?_, hpopped.fire_justSet, hsame.timing.symm ▸ h.delays⟩
  rw [hfire, Engine.advance_pacing hcurrent h.ending hvideo hchoices hrevealed htarget]
  exact h.goesOn

/-- Where nothing stops it, play comes by itself to the next node, or into the ending. -/
theorem exists_onward (h : a.Rides s node) (hkeys : s.KeysAreIds) (hopen : ¬ a.Stops) :
    ∃ a' : Engine τ ν, a.Drifts a' ∧
      (a.session.onward (a.successor node)).SameSpot a'.session ∧
      ∀ target, a.successor node = some target → a'.Rides s target := by
  obtain ⟨a₁, hdrift, hrides, hremains, hrevealed⟩ := h.exists_revealed hkeys
  have hopen₁ : ¬ a₁.Stops := by
    rw [Engine.not_stops_iff hrides.current, hremains.ending]
    exact (Engine.not_stops_iff h.current).mp hopen
  have hsame : a₁.successor node = a.successor node :=
    Engine.successor_congr (hrides.script.trans h.script.symm) node
  obtain ⟨a', hdrift', hspot, harrives⟩ := hrides.goOn hkeys hrevealed hopen₁
  rw [hsame] at hspot harrives
  exact ⟨a', hdrift.trans hdrift',
    ((Session.SameSpot.of_remains hremains).onward _).trans hspot, harrives⟩

end Engine.Rides

/-- Wherever a player by hand gets to, play comes by itself. -/
theorem Engine.ByHand.exists_ride {e a e₁ : Engine τ ν} {s : Script} {node : Node} {n : Nat}
    (h : e.ByHand n e₁) (hreads : e.Reads s node) (hrides : a.Rides s node) (hkeys : s.KeysAreIds)
    (htogether : e.session.SameSpot a.session) :
    ∃ a₁ : Engine τ ν, a.Drifts a₁ ∧ e₁.session.SameSpot a₁.session ∧
      (e₁.session.ending = true ∨ ∃ node, e₁.Reads s node ∧ a₁.Rides s node) := by
  induction h with
  | start => exact ⟨a, .refl a, htogether, Or.inr ⟨node, hreads, hrides⟩⟩
  | @goOn n e₁ e₂ hbefore hopen hread hrevealed ih =>
    obtain ⟨a₁, hdrift, hspot, hending | ⟨present, hreads₁, hrides₁⟩⟩ := ih
    · exact absurd (Or.inl hending) hopen
    · obtain ⟨hround, hnext⟩ := hreads₁.round hkeys hopen hread hrevealed
      have hopen' : ¬ a₁.Stops := by
        rw [Engine.not_stops_iff hrides₁.current, hspot.ending]
        exact (Engine.not_stops_iff hreads₁.current).mp hopen
      obtain ⟨a₂, hdrift', honward, harrives⟩ := hrides₁.exists_onward hkeys hopen'
      have hsame : a₁.successor present = e₁.successor present :=
        Engine.successor_congr (hrides₁.script.trans hreads₁.script.symm) present
      rw [hsame] at honward
      refine ⟨a₂, hdrift.trans hdrift', hround.symm.trans ((hspot.onward _).trans honward), ?_⟩
      cases hsuccessor : e₁.successor present with
      | none =>
        rw [hsuccessor] at hround
        exact Or.inl hround.ending
      | some target =>
        exact Or.inr ⟨target, hnext target hsuccessor, harrives target (hsame.trans hsuccessor)⟩

end Riding

/-- A mode that is switched on takes over where the player is. -/
theorem Engine.Reads.switch {e : Engine τ ν} {s : Script} {node : Node} (h : e.Reads s node)
    (hdelays : e.timing.Positive) {mode : Pacing} (hmode : mode ≠ .manual) :
    (e.setPacing mode).engine.Rides s node ∧
      e.session.SameSpot (e.setPacing mode).engine.session := by
  obtain ⟨hview, hat⟩ := Engine.at_of_currentNode h.sound h.current
  have hother : e.session.pacing ≠ mode := by
    rw [h.pacing]
    exact hmode.symm
  have hsession : (e.setPacing mode).engine.session = { e.session with pacing := mode } := by
    rw [Engine.setPacing_of_other hview h.ending hother]
    dsimp only [Engine.announced]
    split <;> simp
  have hscript := Engine.setPacing_script e mode
  have hsame : e.SameTime (e.setPacing mode).engine := Engine.SameTime.setPacing ⟨rfl, rfl⟩ mode
  constructor
  · refine ⟨⟨hscript.trans h.script, ?_, h.armed.setPacing h.sound mode, ?_, ?_⟩, ?_,
      h.armed.clears.setPacing_justSet hview h.ending hother, hsame.timing.symm ▸ hdelays⟩
    · rw [hscript]
      exact Engine.setPacing_sound h.sound mode
    · rw [← h.current]
      exact Engine.currentNode_congr hscript (by rw [hsession]) (by rw [hsession])
    · rw [hsession]
      exact h.ending
    · rw [hsession]
      exact hmode
  · rw [hsession]
    exact ⟨rfl, rfl, rfl, rfl⟩

inductive Call.SwitchesOn : Call τ → Prop
  | auto : SwitchesOn (.auto true)
  | fastForward : SwitchesOn (.fastForward true)
  | toggleAuto : SwitchesOn .toggleAuto
  | toggleFastForward : SwitchesOn .toggleFastForward

variable [Save.KeyValueStore ν]

theorem Call.SwitchesOn.exists_mode {call : Call τ} (h : call.SwitchesOn) {e : Engine τ ν}
    (hpacing : e.session.pacing = .manual) :
    ∃ mode, mode ≠ .manual ∧ e.outcome call = some (.ok (e.setPacing mode)) := by
  cases h with
  | auto => exact ⟨.auto, by simp, rfl⟩
  | fastForward => exact ⟨.fastForward, by simp, rfl⟩
  | toggleAuto =>
    refine ⟨.auto, by simp, ?_⟩
    unfold Engine.outcome Engine.toggleAutoPlay Engine.setAutoPlay Engine.setMode
    simp [hpacing]
  | toggleFastForward =>
    refine ⟨.fastForward, by simp, ?_⟩
    unfold Engine.outcome Engine.toggleFastForward Engine.setFastForward Engine.setMode
    simp [hpacing]

/-- The way of a player by hand from `e` and the way that play takes by itself from `a`. -/
structure Engine.SameWay (e a : Engine τ ν) : Prop where
  /-- By hand, play goes on until something stops it. -/
  goesOn : ∀ n e₁, e.ByHand n e₁ → ¬ e₁.Stops → ∃ e₂, e.ByHand (n + 1) e₂
  /-- Whatever is come to by hand is come to by itself. -/
  arrives : ∀ n e₁, e.ByHand n e₁ → ∃ a₁ : Engine τ ν, a.Drifts a₁ ∧
    e₁.session.SameSpot a₁.session
  /-- Whatever is come to by itself is come to by hand, up to the title after an ending. -/
  keeps : ∀ a₁, Steps Call.Waits a a₁ → ∃ n e₁, e.ByHand n e₁ ∧
    (e₁.session.SameSpot a₁.session ∨ e₁.session.ending = true ∧ a₁.session = {})
  /-- By itself, play stays, takes one round where nothing stops it, or returns to the title after
  an ending. -/
  moves : ∀ a₁ a₂, Steps Call.Waits a a₁ → Step Call.Waits a₁ a₂ →
    ∀ n e₁, e.ByHand n e₁ → e₁.session.SameSpot a₁.session →
      e₁.session.SameSpot a₂.session ∨
      (¬ e₁.Stops ∧ ∃ e₂, e.ByHand (n + 1) e₂ ∧ e₂.session.SameSpot a₂.session) ∨
      (e₁.session.ending = true ∧ a₂.session = {})

section Together

theorem Step.waits_title {a a' : Engine τ ν} (hstep : Step Call.Waits a a') (harmed : a.Armed)
    (htitle : a.session = {}) : a'.session = {} := by
  cases hstep with
  | request hcall hgranted =>
    cases hcall with
    | wait seconds => cases hgranted
  | alarm hdue =>
    obtain ⟨hawaited, -⟩ := Engine.Sets.pop harmed hdue
    have hnone : a.awaited = none := by simp [Engine.awaited, Engine.currentNode, htitle]
    rw [hnone] at hawaited
    cases hawaited
  | clock hquiet => exact htitle
  | saves saves => exact htitle

variable [ExistsAddOfLE τ]

/-- What time does to play by itself is nothing, one round by hand, or the end. -/
theorem Engine.ByHand.moves {e e₁ a a' : Engine τ ν} {s : Script} {node : Node} {n : Nat}
    (h : e.ByHand n e₁) (hreads : e.Reads s node) (hkeys : s.KeysAreIds)
    (hspot : e₁.session.SameSpot a.session) (hscript : a.script = s) (harmed : a.Armed)
    (hstep : Step Call.Waits a a') :
    e₁.session.SameSpot a'.session ∨
      (¬ e₁.Stops ∧ ∃ e₂, e.ByHand (n + 1) e₂ ∧ e₂.session.SameSpot a'.session) ∨
      (e₁.session.ending = true ∧ a'.session = {}) := by
  rcases hstep.wait_cases harmed with hstays | ⟨present, hcurrent, hopen, honward⟩ | ⟨hends, htitle⟩
  · exact Or.inl (hspot.trans hstays)
  · obtain ⟨hending, hplain⟩ := (Engine.not_stops_iff hcurrent).mp hopen
    have hending₁ : e₁.session.ending = false := hspot.ending.symm.trans hending
    obtain ⟨other, hother⟩ : ∃ node, e₁.Reads s node := by
      refine (h.reads hreads hkeys).resolve_left ?_
      simp [hending₁]
    have hsame : a.script = e₁.script := hscript.trans hother.script.symm
    have hcurrent₁ : e₁.currentNode = some present :=
      (Engine.currentNode_congr hsame hspot.view hspot.current).symm.trans hcurrent
    have hopen₁ : ¬ e₁.Stops := (Engine.not_stops_iff hcurrent₁).mpr ⟨hending₁, hplain⟩
    obtain ⟨e₂, hround, here, hhere, hmoved⟩ := h.exists_round hreads hkeys hopen₁
    rw [hcurrent₁, Option.some.injEq] at hhere
    subst hhere
    rw [Engine.successor_congr hsame] at honward
    exact Or.inr (Or.inl ⟨hopen₁, e₂, hround, hmoved.symm.trans ((hspot.onward _).trans honward)⟩)
  · exact Or.inr (Or.inr ⟨hspot.ending.symm.trans hends, htitle⟩)

variable [AddLeftStrictMono τ]

theorem Engine.Reads.sameWay {e a : Engine τ ν} {s : Script} {node : Node} (h : e.Reads s node)
    (hrides : a.Rides s node) (htogether : e.session.SameSpot a.session) (hkeys : s.KeysAreIds) :
    e.SameWay a := by
  have hkeys' : a.script.KeysAreIds := hrides.script ▸ hkeys
  have hscript : ∀ a₁, Steps Call.Waits a a₁ → a₁.script = s := by
    intro a₁ hsteps
    exact (Steps.script hsteps).trans hrides.script
  have harmed : ∀ a₁, Steps Call.Waits a a₁ → a₁.Armed := by
    intro a₁ hsteps
    exact Steps.armed hsteps hkeys' hrides.sound hrides.armed
  refine ⟨?_, ?_, ?_, ?_⟩
  · intro n e₁ hhand hopen
    obtain ⟨e₂, hround, -⟩ := hhand.exists_round h hkeys hopen
    exact ⟨e₂, hround⟩
  · intro n e₁ hhand
    obtain ⟨a₁, hdrift, hspot, -⟩ := hhand.exists_ride h hrides hkeys htogether
    exact ⟨a₁, hdrift, hspot⟩
  · intro a₁ hsteps
    induction hsteps with
    | refl => exact ⟨0, e, .start, Or.inl htogether⟩
    | @tail a₁ a₂ hsteps hstep ih =>
      obtain ⟨n, e₁, hhand, hspot | ⟨hends, htitle⟩⟩ := ih
      · rcases hhand.moves h hkeys hspot (hscript a₁ hsteps) (harmed a₁ hsteps) hstep with
          hstays | ⟨-, e₂, hround, hmoved⟩ | hover
        · exact ⟨n, e₁, hhand, Or.inl hstays⟩
        · exact ⟨n + 1, e₂, hround, Or.inl hmoved⟩
        · exact ⟨n, e₁, hhand, Or.inr hover⟩
      · exact ⟨n, e₁, hhand, Or.inr ⟨hends, hstep.waits_title (harmed a₁ hsteps) htitle⟩⟩
  · intro a₁ a₂ hsteps hstep n e₁ hhand hspot
    exact hhand.moves h hkeys hspot (hscript a₁ hsteps) (harmed a₁ hsteps) hstep

/-- Wherever a run has led, a mode that is switched on by one who plays by hand changes when play
goes on, and not where. -/
theorem pacing_changes_when_never_where (script : Script) (hkeys : script.KeysAreIds)
    (timing : Timing τ) (hdelays : timing.Positive) (saves : Option (Save.Repository ν))
    {e : Engine τ ν} (hsteps : Steps (fun _ => True) (Engine.opening script timing saves) e)
    (hview : e.session.view = .playing) (hending : e.session.ending = false)
    (hpacing : e.session.pacing = .manual) {switch : Call τ} (hswitch : switch.SwitchesOn) :
    ∃ c : Change τ ν, e.outcome switch = some (.ok c) ∧ e.SameWay c.engine := by
  obtain ⟨mode, hmode, houtcome⟩ := hswitch.exists_mode hpacing
  obtain ⟨node, hstands⟩ := Steps.exists_stands hkeys hsteps hview hending
  have hreads : e.Reads script node :=
    ⟨hstands.script, hstands.sound, hstands.armed, hstands.current, hpacing, hending⟩
  have htiming : e.timing = timing := Steps.timing hsteps
  obtain ⟨hrides, htogether⟩ := hreads.switch (htiming ▸ hdelays) hmode
  exact ⟨_, houtcome, hreads.sameWay hrides htogether hkeys⟩

end Together

/-- On the last line, with automatic pacing switched on while its text is still appearing. -/
theorem pacing_changes_when_never_where_in_a_story :
    forkScript.KeysAreIds ∧ Timing.usual.Positive ∧ forkEnd.session.view = .playing ∧
      forkEnd.session.ending = false ∧ forkEnd.session.pacing = .manual ∧
      forkEnd.session.reveal = .revealing ∧
      ∃ c, forkEnd.outcome (.auto true) = some (.ok c) ∧ forkEnd.SameWay c.engine := by
  have hkeys : forkScript.KeysAreIds := Compiler.keysAreIds_compile {} forkText
  have hdelays : Timing.usual.Positive := by constructor <;> decide
  have hview : forkEnd.session.view = .playing := by decide +kernel
  have hending : forkEnd.session.ending = false := by decide +kernel
  have hpacing : forkEnd.session.pacing = .manual := by decide +kernel
  exact ⟨hkeys, hdelays, hview, hending, hpacing, by decide +kernel,
    pacing_changes_when_never_where forkScript hkeys Timing.usual hdelays none forkEnd_steps hview
      hending hpacing .auto⟩

end VisualNovel.Playback
