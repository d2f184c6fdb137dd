import VisualNovel.Proofs.Playback.Typewriter
import VisualNovel.Proofs.Terminal.Performance

/-!
What a player in a terminal is shown of each visit to a node. The frame before tells whether a frame
is news, and where a text has come up it does: the node is shown once its text is complete, and not
again. A node without a text is complete when it is entered. It is shown as well, but not if this
same node was on the screen before, because then the frame before looks just like the new one.
-/
namespace VisualNovel

namespace Terminal

open Playback

theorem isShown_iff (last f : Frame) :
    isShown (some last) f = true ↔
      f.view = .playing ∧ (f.ending = true → last.ending = true) ∧ f.reveal = .revealed ∧
        ¬ (last.view = .playing ∧ last.reveal = .revealed ∧ last.nodeId = f.nodeId) := by
  have hplaying : isPlaying f = true ↔ f.view = .playing := beq_iff_eq
  have hrevealed : f.isRevealed = true ↔ f.reveal = .revealed := beq_iff_eq
  have hending : (!(f.ending && !(some last).any (·.ending))) = true ↔
      (f.ending = true → last.ending = true) := by
    cases f.ending <;> simp
  have hnews : (!(some last).any (hasShown · f)) = true ↔
      ¬ (last.view = .playing ∧ last.reveal = .revealed ∧ last.nodeId = f.nodeId) := by
    rw [Bool.not_eq_true', ← Bool.not_eq_true]
    simp [hasShown, isPlaying, Frame.isRevealed, and_assoc]
  unfold isShown
  rw [Bool.and_eq_true, Bool.and_eq_true, Bool.and_eq_true, hplaying, hrevealed, hending, hnews,
    and_assoc, and_assoc]

end Terminal

namespace Playback

variable {τ ν : Type}

/-- The text of a node has come up in full, as the node is entered or later in the visit. -/
structure Event.Completes (ev : Event τ ν) (node : Node) : Prop where
  there : ev.change.engine.currentNode = some node
  revealed : ev.change.engine.session.reveal = .revealed
  first : ev.Enters node ∨ ev.before.session.reveal = .revealing

/-- A node without a text is entered from itself. -/
def Event.Overlooks (ev : Event τ ν) (node : Node) : Prop :=
  node.text = "" ∧ ev.before.currentNode = some node

/-- Whether a player shows the frame that an event issues. -/
def Event.IsShown (ev : Event τ ν) : Prop :=
  ev.change.told = true ∧
    Terminal.isShown (some ev.before.frame) ev.change.engine.frame = true

instance : DecidablePred (Event.IsShown : Event τ ν → Prop) := fun ev =>
  inferInstanceAs (Decidable (ev.change.told = true ∧
    Terminal.isShown (some ev.before.frame) ev.change.engine.frame = true))

def showings (events : List (Event τ ν)) : List Frame :=
  (events.filter fun ev => ev.IsShown).map (·.change.engine.frame)

theorem showings_cons (ev : Event τ ν) (events : List (Event τ ν)) :
    showings (ev :: events) =
      (if ev.IsShown then [ev.change.engine.frame] else []) ++ showings events := by
  unfold showings
  by_cases hshown : ev.IsShown <;> simp [hshown]

theorem showings_append (events events' : List (Event τ ν)) :
    showings (events ++ events') = showings events ++ showings events' := by
  unfold showings
  rw [List.filter_append, List.map_append]

/-- A frame shows the whole of a node. -/
structure Frame.Tells (f : Frame) (node : Node) : Prop where
  nodeId : f.nodeId = some node.id
  text : f.text = node.text
  choices : f.choices = node.choices

/-- A node is shown in full once, or not at all. -/
structure ShownOnceIf (due : Prop) (node : Node) (shown : List Frame) : Prop where
  once : due → ∃ f, shown = [f] ∧ f.Tells node
  never : ¬ due → shown = []

/-- The text has come up in full after one of these events. -/
def Revealed (events : List (Event τ ν)) : Prop :=
  ∃ ev ∈ events, ev.change.engine.session.reveal = .revealed

theorem revealed_cons {ev : Event τ ν} {events : List (Event τ ν)} :
    Revealed (ev :: events) ↔
      ev.change.engine.session.reveal = .revealed ∨ Revealed events := by
  simp [Revealed]

structure Engine.InOrder (e : Engine τ ν) (s : Script) : Prop where
  script : e.script = s
  sound : e.session.Sound e.script
  armed : e.Armed

theorem Engine.Visits.inOrder {e : Engine τ ν} {s : Script} {node : Node} (h : e.Visits s node) :
    e.InOrder s := ⟨h.script, h.sound, h.armed⟩

/-- The frame before is that of a node exactly if the node is on the screen. -/
theorem Engine.InOrder.frame_at_iff {e : Engine τ ν} {s : Script} (h : e.InOrder s) {node : Node}
    (hnode : s.get? node.id = some node) :
    e.frame.view = .playing ∧ e.frame.nodeId = some node.id ↔ e.currentNode = some node := by
  cases hcurrent : e.currentNode with
  | none =>
    rw [frame_of_none hcurrent]
    simp
  | some other =>
    obtain ⟨hview, hat⟩ := at_of_currentNode h.sound hcurrent
    rw [frame_of_currentNode hcurrent]
    have hother : s.get? other.id = some other := h.script ▸ hat.found
    simp only [Session.frameAt, hview, Option.some.injEq, true_and]
    constructor
    · intro hid
      rw [hid, hnode] at hother
      exact (Option.some.inj hother).symm
    · intro hsame
      rw [hsame]

theorem Engine.Visits.tells {e : Engine τ ν} {s : Script} {node : Node} (h : e.Visits s node)
    (hrevealed : e.session.reveal = .revealed) : e.frame.Tells node := by
  rw [h.frame_eq]
  exact ⟨rfl, (prefixOf_eq_iff h.at.progress).mpr (h.at.reveal.mp hrevealed), if_pos hrevealed⟩

variable [Zero τ]

theorem Engine.inOrder_opening (s : Script) (timing : Timing τ)
    (saves : Option (Save.Repository ν)) : (Engine.opening s timing saves).InOrder s where
  script := rfl
  sound := Session.sound_initial s
  armed := Engine.opening_sets s timing saves

variable [Save.KeyValueStore ν]
variable [Add τ] [Mul τ] [NatCast τ] [LT τ] [DecidableLT τ]

theorem Engine.InOrder.steps {e e' : Engine τ ν} {s : Script} (h : e.InOrder s)
    (hkeys : s.KeysAreIds) (hsteps : Steps (fun _ => True) e e') : e'.InOrder s where
  script := (Steps.script hsteps).trans h.script
  sound := Steps.sound hsteps (h.script ▸ hkeys) h.sound
  armed := Steps.armed hsteps (h.script ▸ hkeys) h.sound h.armed

/-- Whatever happens leads to the title screen, enters a node, or lets a visit go on. -/
theorem Event.Occurs.enters_or_continues {ev : Event τ ν} (h : ev.Occurs) {s : Script}
    (hkeys : s.KeysAreIds) (horder : ev.before.InOrder s) {node : Node}
    (hthere : ev.change.engine.currentNode = some node) :
    ev.Enters node ∨
      ev.Continues ∧ ev.before.Visits s node ∧ ev.change.engine.Visits s node := by
  by_cases hentered : ev.cause.Begins ∨
      ev.change.engine.session.history ≠ ev.before.session.history
  · exact .inl ⟨hthere, hentered⟩
  · rw [not_or, not_not] at hentered
    obtain ⟨hbegun, hhistory⟩ := hentered
    have hafter := h.visits hkeys horder.script horder.sound horder.armed hthere
    obtain ⟨hview, hat⟩ := Engine.at_of_currentNode hafter.sound hthere
    have hcontinues : ev.Continues := ⟨hbegun, hhistory, hview⟩
    have hcurrent := h.current_eq hcontinues
    have hplaying : ev.before.session.view = .playing := by
      cases htitle : ev.before.session.view with
      | playing => rfl
      | title =>
        rw [horder.sound.title htitle, hat.current] at hcurrent
        cases hcurrent
    have hbefore : ev.before.currentNode = some node :=
      (Engine.currentNode_congr h.step.script (hview.trans hplaying.symm) hcurrent).symm.trans
        hthere
    exact .inr ⟨hcontinues, ⟨horder.script, horder.sound, horder.armed, hbefore⟩, hafter⟩

/-- An ending does not begin while a text comes up. -/
theorem Event.Occurs.ending_of_revealing {ev : Event τ ν} (h : ev.Occurs) {s : Script} {node : Node}
    (hbefore : ev.before.Visits s node) (hrevealing : ev.before.session.reveal = .revealing)
    (hrevealed : ev.change.engine.session.reveal = .revealed) :
    ev.change.engine.session.ending = false := by
  have hnone := hbefore.at.not_ending hrevealing
  cases h with
  | @request e call c hgranted =>
    rw [← Bool.not_eq_true]
    intro hending
    rcases Engine.outcome_cases hgranted with hturn | ⟨id, first, -, rfl, -⟩
    · obtain ⟨rfl, -⟩ := hturn.eq_beginEnding hnone hending
      cases hrevealing.symm.trans hrevealed
    · unfold Engine.beginSession at hending
      rw [Engine.enter_session] at hending
      cases hending
  | @timer e target entry rest hdue =>
    obtain ⟨hawaited, hpopped⟩ := Engine.Sets.pop hbefore.armed hdue
    have hcurrent : ({ e with agenda := rest } : Engine τ ν).currentNode = some node :=
      hbefore.current
    dsimp only
    rw [hpopped.fire_eq]
    cases hkind : entry.task.kind with
    | revealTick =>
      dsimp only
      rw [Engine.revealTick_session hcurrent]
      exact hnone
    | pacingFire =>
      obtain ⟨-, -, hshown, -⟩ :=
        Engine.eq_of_awaited_pacingFire (hawaited.trans (congrArg some hkind))
      cases hrevealing.symm.trans hshown
    | titleReturn => rfl

/-- A node that is entered is shown exactly if there is no text to wait for, and the node was not on
the screen before. -/
theorem Event.Occurs.isShown_of_enters {ev : Event τ ν} (h : ev.Occurs) {s : Script}
    (hkeys : s.KeysAreIds) (horder : ev.before.InOrder s) {node : Node} (henters : ev.Enters node) :
    (ev.change.engine.session.reveal = .revealed ↔ node.text = "") ∧
      (ev.IsShown ↔ node.text = "" ∧ ¬ ev.Overlooks node) := by
  obtain ⟨e, target, -, hchange⟩ := h.exists_enter henters horder.armed
  have htold : ev.change.told = true := hchange ▸ Engine.enter_told e target
  have hending : ev.change.engine.session.ending = false := by rw [hchange, Engine.enter_session]
  have hprogress : ev.change.engine.session.progress = 0 := by rw [hchange, Engine.enter_session]
  have hvisits := h.visits hkeys horder.script horder.sound horder.armed henters.there
  have hview := (Engine.at_of_currentNode hvisits.sound hvisits.current).1
  have hnode : s.get? node.id = some node := hvisits.script ▸ hvisits.at.found
  have hreveal : ev.change.engine.session.reveal = .revealed ↔ node.text = "" := by
    rw [hvisits.at.reveal, hprogress, eq_comm, String.length_eq_zero_iff]
  refine ⟨hreveal, ?_⟩
  unfold Event.IsShown Event.Overlooks
  rw [Terminal.isShown_iff, hvisits.frame_eq]
  simp only [Session.frameAt, htold, hview, hending, hreveal, true_and, Bool.false_eq_true,
    false_implies]
  refine and_congr_right fun hempty => not_congr ?_
  -- a node without a text is complete in every frame that shows it
  rw [← horder.frame_at_iff hnode]
  constructor
  · rintro ⟨hplaying, -, hid⟩
    exact ⟨hempty, hplaying, hid⟩
  · rintro ⟨-, hplaying, hid⟩
    have hcurrent := (horder.frame_at_iff hnode).mp ⟨hplaying, hid⟩
    have hat := (Engine.at_of_currentNode horder.sound hcurrent).2
    refine ⟨hplaying, ?_, hid⟩
    rw [Engine.frame_of_currentNode hcurrent]
    refine hat.reveal.mpr ?_
    have hbound := hat.progress
    rw [hempty] at hbound ⊢
    exact Nat.le_zero.mp hbound

/-- Without notice, no more of a text comes up. -/
theorem Event.Occurs.reveal_of_untold {ev : Event τ ν} (h : ev.Occurs) {s : Script} {node : Node}
    (hbefore : ev.before.Visits s node) (hafter : ev.change.engine.Visits s node)
    (hquiet : ¬ ev.change.told = true) :
    ev.change.engine.session.reveal = ev.before.session.reveal := by
  have hsame := h.frame_eq
  unfold Event.frame? at hsame
  rw [if_neg hquiet, hafter.frame_eq, hbefore.frame_eq] at hsame
  exact congrArg Frame.reveal hsame

/-- While a visit goes on, the node is shown exactly when the text has just come up in full. -/
theorem Event.Occurs.isShown_of_continues {ev : Event τ ν} (h : ev.Occurs) {s : Script}
    {node : Node} (hbefore : ev.before.Visits s node) (hafter : ev.change.engine.Visits s node) :
    ev.IsShown ↔ ev.before.session.reveal = .revealing ∧
      ev.change.engine.session.reveal = .revealed := by
  have hviewBefore := (Engine.at_of_currentNode hbefore.sound hbefore.current).1
  have hview := (Engine.at_of_currentNode hafter.sound hafter.current).1
  unfold Event.IsShown
  rw [Terminal.isShown_iff, hafter.frame_eq, hbefore.frame_eq]
  simp only [Session.frameAt, hview, hviewBefore, true_and, and_true]
  constructor
  · rintro ⟨-, -, hrevealed, hnews⟩
    refine ⟨?_, hrevealed⟩
    by_contra hnot
    exact hnews (Reveal.eq_revealed hnot)
  · rintro ⟨hrevealing, hrevealed⟩
    have hending := h.ending_of_revealing hbefore hrevealing hrevealed
    refine ⟨?_, ?_, hrevealed, ?_⟩
    · by_contra hquiet
      rw [h.reveal_of_untold hbefore hafter hquiet, hrevealing] at hrevealed
      cases hrevealed
    · rw [hending]
      exact fun hends => absurd hends Bool.false_ne_true
    · rw [hrevealing]
      intro hsame
      cases hsame

/-- Of what happens in play, exactly the completions of texts are shown, unless a node without a
text is entered from itself. -/
theorem Event.Occurs.isShown_iff {ev : Event τ ν} (h : ev.Occurs) {s : Script}
    (hkeys : s.KeysAreIds) (horder : ev.before.InOrder s) :
    ev.IsShown ↔ ∃ node, ev.Completes node ∧ ¬ ev.Overlooks node := by
  cases hcurrent : ev.change.engine.currentNode with
  | none =>
    refine ⟨?_, fun ⟨node, hcompletes, _⟩ => ?_⟩
    · rintro ⟨-, hshown⟩
      have hview := ((Terminal.isShown_iff _ _).mp hshown).1
      have hsound := (horder.steps hkeys (.single h.step)).sound
      rw [Engine.frame_of_none hcurrent] at hview
      obtain ⟨node, hat⟩ := hsound.playing hview
      have hthere := (Engine.currentNode_eq_some_iff _ node).mpr
        ⟨hview, node.id, hat.current, hat.found⟩
      cases hcurrent.symm.trans hthere
    · cases hcurrent.symm.trans hcompletes.there
  | some node =>
    have hsame : ∀ {other}, ev.Completes other → other = node := fun hcompletes =>
      Option.some.inj (hcompletes.there.symm.trans hcurrent)
    rcases h.enters_or_continues hkeys horder hcurrent with henters | ⟨hgoes, hbefore, hafter⟩
    · obtain ⟨hreveal, hshown⟩ := h.isShown_of_enters hkeys horder henters
      rw [hshown]
      constructor
      · rintro ⟨hempty, hnot⟩
        exact ⟨node, ⟨hcurrent, hreveal.mpr hempty, .inl henters⟩, hnot⟩
      · rintro ⟨other, hcompletes, hnot⟩
        obtain rfl := hsame hcompletes
        exact ⟨hreveal.mp hcompletes.revealed, hnot⟩
    · rw [h.isShown_of_continues hbefore hafter]
      constructor
      · rintro ⟨hrevealing, hrevealed⟩
        refine ⟨node, ⟨hcurrent, hrevealed, .inr hrevealing⟩, ?_⟩
        rintro ⟨hempty, -⟩
        have hbound := hbefore.at.progress
        have hfull := hbefore.at.reveal
        rw [hempty] at hbound hfull
        cases hrevealing.symm.trans (hfull.mpr (Nat.le_zero.mp hbound))
      · rintro ⟨other, hcompletes, -⟩
        refine ⟨hcompletes.first.resolve_left ?_, hcompletes.revealed⟩
        intro henters
        rcases henters.entered with hbegins | hhistory
        · exact hgoes.begun hbegins
        · exact hhistory hgoes.history

/-- A text that has come up in full stays while the visit goes on. -/
theorem Event.Occurs.revealed_of_continues {ev : Event τ ν} (h : ev.Occurs) {s : Script}
    {node : Node} (hkeys : s.KeysAreIds) (hvisits : ev.before.Visits s node)
    (hcontinues : ev.Continues) (hrevealed : ev.before.session.reveal = .revealed) :
    ev.change.engine.session.reveal = .revealed := by
  have hafter := h.stays hkeys hvisits hcontinues
  by_cases htold : ev.change.told = true
  · have hfull := hvisits.at.reveal.mp hrevealed
    have hforward := (h.shows hkeys hvisits hcontinues htold).le hvisits.at.progress
    rw [hfull] at hforward
    exact hafter.at.reveal.mpr (Nat.le_antisymm hafter.at.progress hforward)
  · rw [h.reveal_of_untold hvisits hafter htold, hrevealed]

namespace Engine.Course

variable {e e' : Engine τ ν} {events : List (Event τ ν)} {s : Script} {node : Node}

/-- Once its text is complete, a node is not shown again in the same visit. -/
theorem showings_of_revealed (h : e.Course events e') (hkeys : s.KeysAreIds)
    (hvisits : e.Visits s node) (hcontinues : ∀ ev ∈ events, ev.Continues)
    (hrevealed : e.session.reveal = .revealed) : showings events = [] := by
  induction h with
  | nil => rfl
  | clock hquiet hrest ih => exact ih (hvisits.withAgenda _) hcontinues hrevealed
  | saves saves hrest ih => exact ih (hvisits.withSaves saves) hcontinues hrevealed
  | @event ev events last hoccurs hrest ih =>
    have hfirst := hcontinues ev List.mem_cons_self
    have hafter := hoccurs.stays hkeys hvisits hfirst
    have hstill := hoccurs.revealed_of_continues hkeys hvisits hfirst hrevealed
    have hhidden : ¬ ev.IsShown := by
      rw [hoccurs.isShown_of_continues hvisits hafter, hrevealed]
      exact fun hshown => (nomatch hshown.1)
    rw [showings_cons, if_neg hhidden, List.nil_append]
    exact ih hafter (fun later hlater => hcontinues later (List.mem_cons_of_mem ev hlater)) hstill

/-- A text that comes up is shown when it is complete. -/
theorem showings_of_revealing (h : e.Course events e') (hkeys : s.KeysAreIds)
    (hvisits : e.Visits s node) (hcontinues : ∀ ev ∈ events, ev.Continues)
    (hrevealing : e.session.reveal = .revealing) :
    ShownOnceIf (Revealed events) node (showings events) := by
  induction h with
  | nil => exact ⟨fun ⟨ev, hmem, _⟩ => (nomatch hmem), fun _ => rfl⟩
  | clock hquiet hrest ih => exact ih (hvisits.withAgenda _) hcontinues hrevealing
  | saves saves hrest ih => exact ih (hvisits.withSaves saves) hcontinues hrevealing
  | @event ev events last hoccurs hrest ih =>
    have hfirst := hcontinues ev List.mem_cons_self
    have hlater : ∀ later ∈ events, later.Continues := fun later hlater =>
      hcontinues later (List.mem_cons_of_mem ev hlater)
    have hafter := hoccurs.stays hkeys hvisits hfirst
    have hshown := hoccurs.isShown_of_continues hvisits hafter
    rw [showings_cons, revealed_cons]
    by_cases hrevealed : ev.change.engine.session.reveal = .revealed
    · rw [if_pos (hshown.mpr ⟨hrevealing, hrevealed⟩),
        hrest.showings_of_revealed hkeys hafter hlater hrevealed]
      exact ⟨fun _ => ⟨_, rfl, hafter.tells hrevealed⟩, fun hnot => absurd (Or.inl hrevealed) hnot⟩
    · rw [if_neg fun hshows => hrevealed (hshown.mp hshows).2, List.nil_append,
        or_iff_right hrevealed]
      refine ih hafter hlater ?_
      cases hreveal : ev.change.engine.session.reveal with
      | revealing => rfl
      | revealed => exact absurd hreveal hrevealed

end Engine.Course

/-- During a visit the node is shown once if its text comes up in full, unless it has none and is
entered from itself. -/
theorem Visit.shownOnce {node : Node} {ev : Event τ ν} {during : List (Event τ ν)}
    (h : Visit node ev during) {s : Script} (hkeys : s.KeysAreIds) (hoccurs : ev.Occurs)
    (horder : ev.before.InOrder s) {e' : Engine τ ν}
    (hrest : ev.change.engine.Course during e') :
    ShownOnceIf (Revealed (ev :: during) ∧ ¬ ev.Overlooks node) node (showings (ev :: during)) := by
  have hvisits := hoccurs.visits hkeys horder.script horder.sound horder.armed h.enters.there
  obtain ⟨hreveal, hshown⟩ := hoccurs.isShown_of_enters hkeys horder h.enters
  rw [showings_cons, revealed_cons]
  cases hnow : ev.change.engine.session.reveal with
  | revealed =>
    rw [hrest.showings_of_revealed hkeys hvisits h.continues hnow, List.append_nil]
    constructor
    · rintro ⟨-, hnews⟩
      rw [if_pos (hshown.mpr ⟨hreveal.mp hnow, hnews⟩)]
      exact ⟨_, rfl, hvisits.tells hnow⟩
    · intro hnot
      rw [if_neg fun hshows => hnot ⟨Or.inl rfl, (hshown.mp hshows).2⟩]
  | revealing =>
    have htext : node.text ≠ "" := by
      intro hempty
      cases hnow.symm.trans (hreveal.mpr hempty)
    have hlater := hrest.showings_of_revealing hkeys hvisits h.continues hnow
    rw [if_neg fun hshows => htext (hshown.mp hshows).1, List.nil_append]
    constructor
    · rintro ⟨hrevealed, -⟩
      exact hlater.once (hrevealed.resolve_left fun hsame => (nomatch hsame))
    · intro hnot
      exact hlater.never fun hrevealed => hnot ⟨Or.inr hrevealed, fun hover => htext hover.1⟩

end Playback

namespace Terminal

open Playback

variable {τ ν : Type}

/-- One who was never given a frame counts as one who saw the title screen. -/
theorem isShown_getD (last : Option Frame) (f : Frame) :
    isShown last f = isShown (some (last.getD { view := .title })) f := by
  cases last <;> rfl

namespace Player

/-- The player has been given the frame that is to be shown. -/
def Watches (p : Player τ ν) : Prop := p.last.getD { view := .title } = p.engine.frame

def opening [Zero τ] (script : Script) (timing : Timing τ) (saves : Option (Save.Repository ν))
    (stamps : Stamps) : Player τ ν where
  engine := .opening script timing saves
  stamps := stamps

theorem Watches.showing_eq {p : Player τ ν} (h : p.Watches) {ev : Event τ ν}
    (hbefore : p.engine = ev.before) : p.showing ev.change = showings [ev] := by
  have hshows : (ev.change.told && isShown p.last ev.change.engine.frame) = true ↔ ev.IsShown := by
    rw [Bool.and_eq_true, isShown_getD, show p.last.getD _ = p.engine.frame from h, hbefore]
    exact Iff.rfl
  rw [showings_cons, showing]
  simp only [hshows]
  exact (List.append_nil _).symm

variable [Save.KeyValueStore ν]
variable [Zero τ] [Add τ] [Mul τ] [NatCast τ] [LT τ] [DecidableLT τ]

theorem Watches.take {p : Player τ ν} (h : p.Watches) {ev : Event τ ν} (hoccurs : ev.Occurs)
    (hbefore : p.engine = ev.before) : (p.take ev.change).Watches := by
  unfold Watches at h ⊢
  rw [take_engine, take_last, hoccurs.frame_eq, ← hbefore, ← h, Event.frame?]
  split <;> rfl

/-- The frames that a player shows are those that the events bring up for showing. -/
theorem Plays.shown_eq {p p' : Player τ ν} {events : List (Event τ ν)} {shown : List Frame}
    (h : p.Plays events shown p') (hwatches : p.Watches) :
    shown = showings events ∧ p'.Watches := by
  induction h with
  | refl => exact ⟨rfl, hwatches⟩
  | @event p p' ev events shown hoccurs hbefore hrest ih =>
    obtain ⟨hshown, hlast⟩ := ih (hwatches.take hoccurs hbefore)
    rw [hwatches.showing_eq hbefore, hshown, ← showings_append]
    exact ⟨rfl, hlast⟩
  | @aside p q p' events shown hcourse hlast hprinted hrest ih =>
    refine ih ?_
    unfold Watches at hwatches ⊢
    rw [hlast, hwatches]
    exact hcourse.frame_eq.symm

/-- Whatever lines are put in, a session is a performance, and in a performance the nodes are shown
in the order in which their texts are complete: each once in a visit in which its text comes up in
full, except exactly where a node without a text is entered from itself. -/
theorem visits_are_shown_once_iff [LE τ] [DecidableLE τ] {script : Script}
    (hkeys : script.KeysAreIds) (timing : Timing τ) (saves : Option (Save.Repository ν))
    (stamps : Stamps) :
    (∀ slot first p', (opening script timing saves stamps).begin slot = .ok first →
      first.Reaches p' →
      ∃ events shown, (opening script timing saves stamps).Plays events shown p') ∧
    ∀ events shown p', (opening script timing saves stamps).Plays events shown p' →
      shown = showings events ∧
      (shown.flatMap scene).Sublist p'.printed.toList ∧
      (∀ ev ∈ events, ev.IsShown ↔ ∃ node, ev.Completes node ∧ ¬ ev.Overlooks node) ∧
      ∀ before ev during after node, events = before ++ ev :: (during ++ after) →
        Visit node ev during →
        ShownOnceIf (Revealed (ev :: during) ∧ ¬ ev.Overlooks node) node
          (showings (ev :: during)) := by
  constructor
  · intro slot first p' hbegun hreached
    exact (begin_goesOn hbegun).trans hreached.goesOn
  · intro events shown p' hplays
    have horder : (opening script timing saves stamps).engine.InOrder script :=
      Engine.inOrder_opening script timing saves
    obtain ⟨more, hmore, hprinted⟩ := hplays.exists_printed
    refine ⟨(hplays.shown_eq rfl).1, ?_, ?_, ?_⟩
    · rw [hmore]
      exact hprinted.trans (List.sublist_append_right _ _)
    · intro ev hmem
      obtain ⟨before, later, rfl⟩ := List.append_of_mem hmem
      obtain ⟨hsteps, hoccurs, -⟩ := hplays.course.exists_event
      exact hoccurs.isShown_iff hkeys (horder.steps hkeys hsteps)
    · rintro before ev during after node rfl hvisit
      obtain ⟨hsteps, hoccurs, hlater⟩ := hplays.course.exists_event
      obtain ⟨last, hduring, -⟩ := hlater.exists_of_append
      exact hvisit.shownOnce hkeys hoccurs (horder.steps hkeys hsteps) hduring

/-- A question that can be asked again and again. -/
def againScript (line : String) : Script :=
  (({} : Compiler).compile (line ++ "\nA. Again >> start")).script

def againChoice : Choice := ⟨"A. Again", "start", .normal⟩

def wordyNode : Node := { id := "start", text := "Hi", choices := [againChoice] }

def wordlessNode : Node := { id := "start", speaker := some "A", choices := [againChoice] }

def againPlayer (line : String) : Player Nat Save.MemoryStore :=
  .opening (againScript line) Timing.usual none ⟨[], 0⟩

/-- The engine in a new game of `line`, which makes the node. -/
def againBegun (line : String) (node : Node) : Change Nat Save.MemoryStore :=
  (againPlayer line).engine.beginSession node

theorem againPlayer_begin {line : String} {node : Node}
    (hstart : (againScript line).start? = some node) :
    (againPlayer line).begin none = .ok ((againPlayer line).take (againBegun line node)) := by
  have hnew : (againPlayer line).engine.newGame = .ok (againBegun line node) :=
    Engine.newGame_of_start (e := (againPlayer line).engine) hstart
  unfold begin
  rw [hnew]
  rfl

theorem visits_are_shown_once_in_a_story :
    (againScript "Hi").KeysAreIds ∧ ∃ first again started advanced f,
      (againPlayer "Hi").begin none = .ok first ∧ first.handle 40 "" = some again ∧
      (againPlayer "Hi").Plays [started, advanced] [f] again ∧
      Visit wordyNode started [advanced] ∧ f.Tells wordyNode ∧
      (scene f).Sublist again.printed.toList := by
  have hkeys : (againScript "Hi").KeysAreIds := Compiler.keysAreIds_compile {} _
  have hstart : (againScript "Hi").start? = some wordyNode := by decide
  let begun := (againBegun "Hi" wordyNode).engine
  let started : Event Nat Save.MemoryStore :=
    ⟨.request .newGame, (againPlayer "Hi").engine, againBegun "Hi" wordyNode⟩
  let advanced : Event Nat Save.MemoryStore := ⟨.request .advance, begun, begun.advance⟩
  let first := (againPlayer "Hi").take started.change
  have hstarts : started.Occurs :=
    .request (Engine.outcome_newGame (e := (againPlayer "Hi").engine) hstart)
  have hadvances : advanced.Occurs := .request rfl
  have hplays := (Plays.single hstarts rfl).append
    (Plays.single (p := first) hadvances (take_engine _ _))
  have hvisit : Visit wordyNode started [advanced] := by
    refine ⟨⟨by decide, Or.inl trivial⟩, ?_⟩
    intro later hlater
    obtain rfl := List.mem_singleton.mp hlater
    exact ⟨id, by decide, by decide +kernel⟩
  have hrevealed : Revealed [started, advanced] :=
    ⟨advanced, List.mem_cons_of_mem _ List.mem_cons_self, by decide⟩
  have hnews : ¬ started.Overlooks wordyNode := fun hover => absurd hover.1 (by decide)
  have hhandled : first.handle 40 "" = some (first.take begun.advance) :=
    handle_of_idle (by decide) rfl (by decide) 39
  obtain ⟨-, hall⟩ :=
    visits_are_shown_once_iff (ν := Save.MemoryStore) hkeys Timing.usual none ⟨[], 0⟩
  obtain ⟨hshown, hprinted, -, hvisits⟩ := hall _ _ _ hplays
  obtain ⟨f, hf, htells⟩ :=
    (hvisits [] started [advanced] [] wordyNode rfl hvisit).once ⟨hrevealed, hnews⟩
  rw [hshown.trans hf] at hplays hprinted
  rw [List.flatMap_singleton] at hprinted
  exact ⟨hkeys, first, _, started, advanced, f, againPlayer_begin hstart, hhandled, hplays, hvisit,
    htells, hprinted⟩

/-- A line without words that leads back to itself: its choices are not shown when it is entered
again, although its text is complete. -/
theorem a_wordless_line_is_not_shown_again :
    ∃ first again ev, (againPlayer "A:").begin none = .ok first ∧
      first.handle 40 "1" = some again ∧ first.Plays [ev] [] again ∧
      Visit wordlessNode ev [] ∧ Revealed [ev] ∧ again.engine.session.history = ["start"] ∧
      again.printed = first.printed := by
  have hstart : (againScript "A:").start? = some wordlessNode := by decide
  let begun := (againBegun "A:" wordlessNode).engine
  let chosen : Event Nat Save.MemoryStore := ⟨.request (.choose 0), begun, begun.follow againChoice⟩
  let first := (againPlayer "A:").take (againBegun "A:" wordlessNode)
  have hchoice : begun.selectChoice 0 = .ok (begun.follow againChoice) := rfl
  have hoccurs : chosen.Occurs := .request (congrArg some (mapError_of_ok hchoice CallError.fault))
  have hplays := Plays.single (p := first) hoccurs (take_engine _ _)
  have hhidden : first.showing chosen.change = [] := by decide
  rw [hhidden] at hplays
  have hhandled : first.handle 40 "1" = some (first.take chosen.change) :=
    handle_of_idle (by decide) rfl (by decide) 39
  have hentered : chosen.change.engine.session.history = ["start"] := by decide
  refine ⟨first, _, chosen, againPlayer_begin hstart, hhandled, hplays, ⟨⟨?_, ?_⟩, ?_⟩, ?_, ?_, ?_⟩
  · decide
  · exact Or.inr (by decide)
  · exact fun later hlater => (nomatch hlater)
  · exact ⟨chosen, List.mem_cons_self, by decide⟩
  · exact hentered
  · decide

end Player

end Terminal

end VisualNovel
