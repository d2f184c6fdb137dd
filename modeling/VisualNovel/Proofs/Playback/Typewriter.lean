import VisualNovel.Proofs.Playback.Deliveries
import VisualNovel.Proofs.Playback.History

/-!
How the text of a node comes up. The frames that are issued during one visit to a node begin with an
empty text and never take back a character: each timer for the next one adds it, going on shows the
rest at once, and everything else leaves the text as it is. Every listener that is told before all
those who make calls of their own is given these frames in this order.
-/
namespace VisualNovel.Playback

variable {τ ν : Type}

theorem toList_prefixOf (text : String) (count : Nat) :
    (prefixOf text count).toList = text.toList.take count := String.toList_ofList

theorem length_prefixOf {text : String} {count : Nat} (h : count ≤ text.length) :
    (prefixOf text count).length = count := by
  rw [← String.length_toList, toList_prefixOf, List.length_take, String.length_toList]
  omega

theorem prefixOf_eq_iff {text : String} {count : Nat} (h : count ≤ text.length) :
    prefixOf text count = text ↔ count = text.length := by
  constructor
  · intro hsame
    rw [← length_prefixOf h, hsame]
  · rintro rfl
    rw [← String.toList_inj, toList_prefixOf, ← String.length_toList, List.take_length]

/-- The shown text is a first part of the whole one. It is the whole one exactly if the frame says
so, and before that no choices are shown. -/
structure Frame.Unrolls (f : Frame) : Prop where
  part : f.text.toList <+: f.fullText.toList
  complete : f.text = f.fullText ↔ f.isRevealed = true
  choices : f.choices ≠ [] → f.isRevealed = true

/-- How many characters are shown after an event, if there were `before` of `length`. -/
def Cause.Shows (cause : Cause τ) (length before after : Nat) : Prop :=
  match cause with
  | .timer .revealTick => after = before + 1
  | .request .advance => after = length
  | _ => after = before

theorem Cause.Shows.le {cause : Cause τ} {length before after : Nat}
    (h : cause.Shows length before after) (hbefore : before ≤ length) : before ≤ after := by
  unfold Cause.Shows at h
  split at h <;> omega

/-- One frame after another in the same visit. -/
structure Frame.GoesOn (cause : Cause τ) (f g : Frame) : Prop where
  forward : f.text.toList <+: g.text.toList
  shows : cause.Shows g.fullText.length f.text.length g.text.length

theorem Frame.GoesOn.of_shows {cause : Cause τ} {s s' : Session} {node : Node}
    (h : cause.Shows node.text.length s.progress s'.progress)
    (hbefore : s.progress ≤ node.text.length) (hafter : s'.progress ≤ node.text.length) :
    (s.frameAt node).GoesOn cause (s'.frameAt node) where
  forward := by
    simp only [Session.frameAt, toList_prefixOf]
    exact List.take_prefix_take_left (h.le hbefore)
  shows := by
    simp only [Session.frameAt, length_prefixOf hbefore, length_prefixOf hafter]
    exact h

theorem Session.At.unrolls {script : Script} {s : Session} {node : Node} (h : s.At script node) :
    (s.frameAt node).Unrolls where
  part := by
    simp only [Session.frameAt, toList_prefixOf]
    exact List.take_prefix _ _
  complete := by
    simp only [Session.frameAt, Frame.isRevealed, beq_iff_eq]
    rw [prefixOf_eq_iff h.progress, h.reveal]
  choices := by
    simp only [Session.frameAt, Frame.isRevealed, beq_iff_eq]
    intro hchoices
    by_contra hhidden
    exact hchoices (if_neg hhidden)

theorem Engine.frame_unrolls {e : Engine τ ν} (hsound : e.session.Sound e.script) :
    e.frame.Unrolls := by
  cases hcurrent : e.currentNode with
  | none =>
    rw [frame_of_none hcurrent]
    exact ⟨List.prefix_rfl, ⟨fun _ => rfl, fun _ => rfl⟩, fun hchoices => absurd rfl hchoices⟩
  | some node =>
    rw [frame_of_currentNode hcurrent]
    exact (at_of_currentNode hsound hcurrent).2.unrolls

def Cause.Begins : Cause τ → Prop
  | .request .newGame => True
  | .request (.load _ _) => True
  | _ => False

/-- A node is entered: at the beginning of a session, or as a step that the history tells of. -/
structure Event.Enters (ev : Event τ ν) (node : Node) : Prop where
  there : ev.change.engine.currentNode = some node
  entered : ev.cause.Begins ∨ ev.change.engine.session.history ≠ ev.before.session.history

/-- No node is entered, and the session goes on. -/
structure Event.Continues (ev : Event τ ν) : Prop where
  begun : ¬ ev.cause.Begins
  history : ev.change.engine.session.history = ev.before.session.history
  playing : ev.change.engine.session.view = .playing

/-- A node is entered by one event, and the visit lasts while others happen. -/
structure Visit (node : Node) (ev : Event τ ν) (during : List (Event τ ν)) : Prop where
  enters : ev.Enters node
  continues : ∀ later ∈ during, later.Continues

/-- The frames that events issue, each with what has brought it about. -/
def announcements (events : List (Event τ ν)) : List (Cause τ × Frame) :=
  events.filterMap fun ev => ev.frame?.map fun f => (ev.cause, f)

theorem map_announcements (events : List (Event τ ν)) :
    (announcements events).map (·.2) = issued events := by
  induction events with
  | nil => rfl
  | cons ev events ih =>
    rw [issued_cons, ← ih]
    unfold announcements
    cases hframe : ev.frame? <;> simp [hframe]

/-- The frames of a visit to a node, each with what has brought it about. -/
structure Typewriter (node : Node) (frames : List (Cause τ × Frame)) : Prop where
  first : frames.head?.map (·.2.text) = some ""
  unrolls : ∀ shown ∈ frames, shown.2.nodeId = some node.id ∧ shown.2.fullText = node.text ∧
    shown.2.Unrolls
  goesOn : frames.IsChain fun before after => before.2.GoesOn after.1 after.2
  forward : frames.Pairwise fun before after => before.2.text.length ≤ after.2.text.length

section Requests
variable [Zero τ] [Add τ] [Mul τ] [NatCast τ] [LT τ] [DecidableLT τ]

namespace Engine

theorem navigate_history_ne {e : Engine τ ν} {node : Node} (hcurrent : e.currentNode = some node)
    (target : Node) : (e.navigate target).engine.session.history ≠ e.session.history := by
  obtain ⟨-, id, hid, -⟩ := (currentNode_eq_some_iff e node).mp hcurrent
  rw [navigate_session, hid]
  simp

theorem setPacing_progress (e : Engine τ ν) (pacing : Pacing) :
    (e.setPacing pacing).engine.session.progress = e.session.progress := by
  rcases e.setPacing_session pacing with hsame | ⟨-, -, hnew⟩
  · rw [hsame]
  · rw [hnew]

theorem setPacing_reveal (e : Engine τ ν) (pacing : Pacing) :
    (e.setPacing pacing).engine.session.reveal = e.session.reveal := by
  rcases e.setPacing_session pacing with hsame | ⟨-, -, hnew⟩
  · rw [hsame]
  · rw [hnew]

theorem setMode_progress (e : Engine τ ν) (mode : Pacing) (enabled : Bool) :
    (e.setMode mode enabled).engine.session.progress = e.session.progress := by
  unfold setMode
  split
  · exact e.setPacing_progress mode
  · split
    · exact e.setPacing_progress .manual
    · rfl

theorem passVideo_cases (e : Engine τ ν) (node : Node) :
    e.passVideo node = e.quiet ∨ e.passVideo node = e.returnToTitle ∨
      ∃ target, e.passVideo node = e.navigate target := by
  unfold passVideo
  split
  · exact Or.inr (Or.inl rfl)
  · split
    · next target htarget => exact Or.inr (Or.inr ⟨target, rfl⟩)
    · exact Or.inl rfl

/-- Going on does nothing, leaves the node, or shows its whole text; once this is shown, it may also
stop automatic pacing or begin the ending. -/
theorem advance_cases {e : Engine τ ν} {node : Node} (hcurrent : e.currentNode = some node) :
    (e.advance = e.quiet ∨ e.advance = e.returnToTitle ∨
        ∃ target, e.advance = e.navigate target) ∨
      e.advance = e.completeReveal ∨
      e.session.reveal = .revealed ∧
        (e.advance = e.setPacing .manual ∨ e.advance = e.beginEnding) := by
  unfold advance
  rw [hcurrent]
  dsimp only
  split
  · exact Or.inl (Or.inl rfl)
  · split
    · exact Or.inl (e.passVideo_cases node)
    · split
      · exact Or.inr (Or.inl rfl)
      · next hreveal =>
        have hrevealed : e.session.reveal = .revealed := Reveal.eq_revealed hreveal
        split
        · exact Or.inr (Or.inr ⟨hrevealed, Or.inl rfl⟩)
        · split
          · next target htarget => exact Or.inl (Or.inr (Or.inr ⟨target, rfl⟩))
          · exact Or.inr (Or.inr ⟨hrevealed, Or.inr rfl⟩)

/-- Going on during a visit shows the whole text, if it is told of at all. -/
theorem advance_reveals {e : Engine τ ν} {node : Node} (hcurrent : e.currentNode = some node)
    (htold : e.advance.told = true) (hview : e.advance.engine.session.view = .playing)
    (hhistory : e.advance.engine.session.history = e.session.history) :
    e.advance.engine.session.reveal = .revealed := by
  obtain (hquiet | htitle | ⟨target, hnavigate⟩) | hcomplete | ⟨hrevealed, hpaced | hends⟩ :=
    advance_cases hcurrent
  · rw [hquiet] at htold
    cases htold
  · rw [htitle] at hview
    cases hview
  · rw [hnavigate] at hhistory
    exact absurd hhistory (navigate_history_ne hcurrent target)
  · rw [hcomplete, completeReveal_session]
  · rw [hpaced, setPacing_reveal, hrevealed]
  · rw [hends, beginEnding_session, hrevealed]

end Engine

end Requests

/-- A session is at a node of the script, with the timer that it waits for. -/
structure Engine.Visits (e : Engine τ ν) (s : Script) (node : Node) : Prop where
  script : e.script = s
  sound : e.session.Sound e.script
  armed : e.Armed
  current : e.currentNode = some node

theorem Engine.Visits.at {e : Engine τ ν} {s : Script} {node : Node} (h : e.Visits s node) :
    e.session.At e.script node := (at_of_currentNode h.sound h.current).2

theorem Cause.shows_of_request {call : Call τ} (hother : call ≠ .advance) {length count : Nat} :
    (Cause.request call).Shows length count count := by
  cases call with
  | advance => exact absurd rfl hother
  | _ => exact rfl

theorem Engine.Visits.frame_eq {e : Engine τ ν} {s : Script} {node : Node} (h : e.Visits s node) :
    e.frame = e.session.frameAt node := frame_of_currentNode h.current

theorem announcements_cons (ev : Event τ ν) (events : List (Event τ ν)) :
    announcements (ev :: events) =
      (ev.frame?.map fun f => (ev.cause, f)).toList ++ announcements events := by
  unfold announcements
  cases hframe : ev.frame? <;> simp [hframe]

theorem Engine.Visits.withAgenda {e : Engine τ ν} {s : Script} {node : Node} (h : e.Visits s node)
    (now : τ) : ({ e with agenda := { e.agenda with now } } : Engine τ ν).Visits s node :=
  ⟨h.script, h.sound, Engine.Sets.withClock h.armed now, h.current⟩

theorem Engine.Visits.withSaves {e : Engine τ ν} {s : Script} {node : Node} (h : e.Visits s node)
    (saves : Option (Save.Repository ν)) : ({ e with saves } : Engine τ ν).Visits s node :=
  ⟨h.script, h.sound, Engine.Sets.withSaves h.armed saves, h.current⟩

variable [Zero τ] [Add τ] [Mul τ] [NatCast τ] [LT τ] [DecidableLT τ]

/-- During a visit, the only timer that does something to the text adds a character. -/
theorem Engine.Visits.fire_shows {e : Engine τ ν} {s : Script} {node : Node} (h : e.Visits s node)
    {target : τ} {entry : Timer.Entry τ Alarm} {rest : Timer.Agenda τ Alarm}
    (hdue : e.agenda.pop? target = some (entry, rest)) (hcontinues : Event.Continues
      ⟨.timer entry.task.kind, e, ({ e with agenda := rest } : Engine τ ν).fire entry.task⟩) :
    (Cause.timer entry.task.kind : Cause τ).Shows node.text.length e.session.progress
      (({ e with agenda := rest } : Engine τ ν).fire entry.task).engine.session.progress := by
  obtain ⟨hawaited, hpopped⟩ := Engine.Sets.pop h.armed hdue
  have hcurrent : ({ e with agenda := rest } : Engine τ ν).currentNode = some node := h.current
  obtain ⟨-, hhistory, hview⟩ := hcontinues
  dsimp only at hhistory hview
  rw [hpopped.fire_eq] at hhistory hview ⊢
  cases hkind : entry.task.kind with
  | revealTick =>
    have hreveal := Engine.revealing_of_awaited (hawaited.trans (congrArg some hkind))
    have hpart : e.session.progress ≠ node.text.length := by
      intro hfull
      exact absurd (hreveal.symm.trans (h.at.reveal.mpr hfull)) (by simp)
    have hbound : e.session.progress ≤ node.text.length := h.at.progress
    have hmore : min (e.session.progress + 1) node.text.length = e.session.progress + 1 := by omega
    dsimp only
    rw [Engine.revealTick_session hcurrent]
    exact hmore
  | pacingFire =>
    obtain ⟨other, hother, hrevealed, hending, hvideo, hchoices⟩ :=
      Engine.eq_of_awaited_pacingFire (hawaited.trans (congrArg some hkind))
    have hplain := Engine.advance_of_plain (e := { e with agenda := rest, pacingTimer := none })
      hother hending hvideo hchoices hrevealed
    rw [hkind] at hhistory
    dsimp only at hhistory ⊢
    rw [hplain] at hhistory ⊢
    split at hhistory
    · next successor hsuccessor =>
      exact absurd hhistory (Engine.navigate_history_ne
        (e := { e with agenda := rest, pacingTimer := none }) hother successor)
    · exact rfl
  | titleReturn =>
    rw [hkind] at hview
    cases hview

/-- A turn that changes the history and leads to a node enters one. -/
theorem Turn.exists_enter {e : Engine τ ν} {c : Change τ ν} (h : Turn e c) {node : Node}
    (hthere : c.engine.currentNode = some node)
    (hentered : c.engine.session.history ≠ e.session.history) :
    ∃ session target, c = ({ e with session } : Engine τ ν).enter target := by
  cases h with
  | stay => exact absurd rfl hentered
  | title => cases hthere
  | follow pacing hcurrent hending hlink => exact ⟨_, _, rfl⟩
  | back hview hentry hnode => exact ⟨_, _, rfl⟩
  | complete hcurrent hending hreveal =>
    rw [Engine.completeReveal_session] at hentered
    exact absurd rfl hentered
  | finish hcurrent hending hvideo hreveal hchoices hnext => exact absurd rfl hentered
  | pace pacing =>
    rcases e.setPacing_session pacing with hsame | ⟨-, -, hnew⟩
    · rw [hsame] at hentered
      exact absurd rfl hentered
    · rw [hnew] at hentered
      exact absurd rfl hentered
  | cue => exact absurd rfl hentered
  | browse isOpen hview => exact absurd rfl hentered

theorem Engine.fire_exists_enter {e : Engine τ ν} {alarm : Alarm} {node : Node}
    (hthere : (e.fire alarm).engine.currentNode = some node)
    (hentered : (e.fire alarm).engine.session.history ≠ e.session.history) :
    alarm.kind = .pacingFire ∧ ∃ session target,
      e.fire alarm = ({ e with pacingTimer := none, session } : Engine τ ν).enter target := by
  unfold fire at hthere hentered ⊢
  split at hentered
  · exact absurd rfl hentered
  · next hgeneration =>
    rw [if_neg hgeneration] at hthere ⊢
    split at hentered
    · cases hcurrent : e.currentNode with
      | none =>
        rw [revealTick_of_none hcurrent] at hentered
        exact absurd rfl hentered
      | some present =>
        rw [revealTick_session hcurrent] at hentered
        exact absurd rfl hentered
    · next hkind =>
      rw [hkind] at hthere
      exact ⟨hkind, (turn_advance { e with pacingTimer := none }).exists_enter hthere hentered⟩
    · next hkind =>
      rw [hkind] at hthere
      cases hthere

variable [Save.KeyValueStore ν]

/-- Other requests than going on leave the text as it is during a visit. -/
theorem Engine.outcome_progress {e : Engine τ ν} {call : Call τ} {c : Change τ ν}
    (h : e.outcome call = some (.ok c)) (hother : call ≠ .advance)
    (hcontinues : Event.Continues ⟨.request call, e, c⟩) {node : Node}
    (hcurrent : e.currentNode = some node) : c.engine.session.progress = e.session.progress := by
  obtain ⟨hbegun, hhistory, hview⟩ := hcontinues
  cases call with
  | newGame | load slot => exact (hbegun trivial).elim
  | advance => exact absurd rfl hother
  | title =>
    cases h
    cases hview
  | choose index =>
    obtain ⟨node', choice, -, -, -, -, -, rfl⟩ := selectChoice_eq_ok (eq_ok_of_mapError h)
    unfold follow at hhistory hview ⊢
    split at hhistory
    · next target htarget =>
      exact absurd hhistory (navigate_history_ne
        (e := { e with session := { e.session with pacing := .manual } }) hcurrent target)
    · next hnone =>
      rw [hnone] at hview
      cases hview
  | jump index =>
    obtain ⟨-, hindex, id, hentry, rfl | ⟨target, -, rfl⟩⟩ :=
      jumpToHistory_eq_ok (eq_ok_of_mapError h)
    · cases hview
    · obtain ⟨hless, -⟩ := List.getElem?_eq_some_iff.mp hentry
      have hshorter := congrArg List.length hhistory
      rw [enter_session] at hshorter
      simp only [List.length_take] at hshorter
      omega
  | auto enabled => cases h; exact e.setMode_progress .auto enabled
  | fastForward enabled => cases h; exact e.setMode_progress .fastForward enabled
  | toggleAuto => cases h; exact e.setMode_progress .auto _
  | toggleFastForward => cases h; exact e.setMode_progress .fastForward _
  | acknowledge =>
    cases h
    unfold acknowledgeEffect
    split <;> rfl
  | openHistory =>
    cases h
    unfold openHistory
    split <;> rfl
  | closeHistory =>
    cases h
    unfold closeHistory
    split <;> rfl
  | _ => cases h

/-- A session that goes on without a node being entered stays at its node. -/
theorem Event.Occurs.current_eq {ev : Event τ ν} (h : ev.Occurs) (hcontinues : ev.Continues) :
    ev.change.engine.session.current = ev.before.session.current := by
  obtain ⟨call, hcall, hgoes⟩ : ∃ call, (ev.cause = .request call ∨ call = .advance) ∧
      ev.before.session.Goes ev.before.script call ev.change.engine.session := by
    cases h with
    | @request e call c hgranted => exact ⟨call, Or.inl rfl, Engine.outcome_goes hgranted⟩
    | @timer e target entry rest hdue =>
      exact ⟨.advance, Or.inr rfl, Engine.fire_goes .advance { e with agenda := rest } entry.task⟩
  obtain ⟨hbegun, hhistory, hview⟩ := hcontinues
  cases hgoes with
  | stays hhistory' hcurrent => exact hcurrent
  | follows hcurrent hnode hlink hgrown hthere =>
    rw [hgrown] at hhistory
    simp at hhistory
  | back hback hindex hentry hnode htaken hthere =>
    obtain ⟨hless, -⟩ := List.getElem?_eq_some_iff.mp hentry
    have hshorter := congrArg List.length (htaken.symm.trans hhistory)
    rw [List.length_take] at hshorter
    omega
  | begins hnew hnode hempty hthere =>
    rcases hcall with hcause | rfl
    · rw [hcause] at hbegun
      rcases hnew with rfl | ⟨slot, room, rfl⟩ <;> exact (hbegun trivial).elim
    · rcases hnew with hnew | ⟨slot, room, hnew⟩ <;> cases hnew
  | title htitle =>
    rw [htitle] at hview
    cases hview

/-- Whatever happens, a session is somewhere afterwards, if it still plays. -/
theorem Event.Occurs.visits {ev : Event τ ν} (h : ev.Occurs) {s : Script} {node : Node}
    (hkeys : s.KeysAreIds) (hscript : ev.before.script = s)
    (hsound : ev.before.session.Sound ev.before.script) (harmed : ev.before.Armed)
    (hthere : ev.change.engine.currentNode = some node) : ev.change.engine.Visits s node where
  script := h.step.script.trans hscript
  sound := h.step.sound (hscript ▸ hkeys) hsound
  armed := h.step.armed (hscript ▸ hkeys) hsound harmed
  current := hthere

theorem Event.Occurs.stays {ev : Event τ ν} (h : ev.Occurs) {s : Script} {node : Node}
    (hkeys : s.KeysAreIds) (hvisits : ev.before.Visits s node) (hcontinues : ev.Continues) :
    ev.change.engine.Visits s node := by
  refine h.visits hkeys hvisits.script hvisits.sound hvisits.armed ?_
  have hview := (Engine.at_of_currentNode hvisits.sound hvisits.current).1
  rw [← hvisits.current]
  exact Engine.currentNode_congr h.step.script (hcontinues.playing.trans hview.symm)
    (h.current_eq hcontinues)

/-- What an event that issues a frame does to the text during a visit. -/
theorem Event.Occurs.shows {ev : Event τ ν} (h : ev.Occurs) {s : Script} {node : Node}
    (hkeys : s.KeysAreIds) (hvisits : ev.before.Visits s node) (hcontinues : ev.Continues)
    (htold : ev.change.told = true) : ev.cause.Shows node.text.length
      ev.before.session.progress ev.change.engine.session.progress := by
  have hafter := (h.stays hkeys hvisits hcontinues).at
  cases h with
  | @request e call c hgranted =>
    by_cases hcall : call = .advance
    · subst hcall
      obtain rfl : e.advance = c := Except.ok.inj (Option.some.inj hgranted)
      exact hafter.reveal.mp (Engine.advance_reveals hvisits.current htold hcontinues.playing
        hcontinues.history)
    · rw [Engine.outcome_progress hgranted hcall hcontinues hvisits.current]
      exact Cause.shows_of_request hcall
  | timer hdue => exact hvisits.fire_shows hdue hcontinues

/-- From the frame that is shown, the frames issued during the rest of a visit go on. -/
theorem Engine.Course.goesOn {e e' : Engine τ ν} {events : List (Event τ ν)}
    (h : e.Course events e') {s : Script} {node : Node} (hkeys : s.KeysAreIds)
    (hvisits : e.Visits s node) (hcontinues : ∀ ev ∈ events, ev.Continues) (cause : Cause τ) :
    ((cause, e.frame) :: announcements events).IsChain
        (fun before after => before.2.GoesOn after.1 after.2) ∧
      ∀ shown ∈ announcements events, ∃ session : Session,
        shown.2 = session.frameAt node ∧ (session.frameAt node).Unrolls := by
  induction h generalizing cause with
  | nil => exact ⟨List.isChain_singleton _, fun shown hshown => (nomatch hshown)⟩
  | clock hquiet hrest ih => exact ih (hvisits.withAgenda _) hcontinues cause
  | saves saves hrest ih => exact ih (hvisits.withSaves saves) hcontinues cause
  | @event ev events last hoccurs hrest ih =>
    have hfirst := hcontinues ev List.mem_cons_self
    have hafter := hoccurs.stays hkeys hvisits hfirst
    have hrest := ih hafter fun later hlater => hcontinues later (List.mem_cons_of_mem ev hlater)
    rw [announcements_cons]
    cases htold : ev.change.told with
    | false =>
      have hnone : ev.frame? = none := if_neg (by simp [htold])
      have hsame := hoccurs.frame_eq
      rw [hnone] at hsame ⊢
      rw [← show ev.change.engine.frame = ev.before.frame from hsame]
      exact hrest cause
    | true =>
      have hsome : ev.frame? = some ev.change.engine.frame := if_pos htold
      have hshows := hoccurs.shows hkeys hvisits hfirst htold
      rw [hsome]
      refine ⟨List.isChain_cons_cons.mpr ⟨?_, (hrest ev.cause).1⟩, ?_⟩
      · rw [hvisits.frame_eq, hafter.frame_eq]
        exact .of_shows hshows hvisits.at.progress hafter.at.progress
      · intro shown hshown
        rcases List.mem_cons.mp hshown with rfl | hlater
        · exact ⟨_, hafter.frame_eq, hafter.at.unrolls⟩
        · exact (hrest ev.cause).2 shown hlater

/-- A request that begins a session enters a node. -/
theorem Engine.outcome_begins {e : Engine τ ν} {call : Call τ} {c : Change τ ν}
    (h : e.outcome call = some (.ok c)) (hbegins : (Cause.request call).Begins) :
    ∃ node, c = e.beginSession node := by
  cases call with
  | newGame =>
    have hnew : e.newGame = .ok c := eq_ok_of_mapError h
    unfold newGame at hnew
    split at hnew
    · next node hstart => exact ⟨node, (Except.ok.inj hnew).symm⟩
    · cases hnew
  | load slot =>
    obtain ⟨id, node, -, hc⟩ := load_eq_ok (eq_ok_of_mapError h)
    exact ⟨node, hc⟩
  | _ => exact hbegins.elim

/-- However a node is entered, this is done after all timers that were set before. -/
theorem Event.Occurs.exists_enter {ev : Event τ ν} (h : ev.Occurs) {node : Node}
    (henters : ev.Enters node) (harmed : ev.before.Armed) :
    ∃ (e : Engine τ ν) (target : Node), e.Clears ∧ ev.change = e.enter target := by
  obtain ⟨hthere, hentered⟩ := henters
  cases h with
  | @request e call c hgranted =>
    have hbegun : ∀ first, ∃ (e' : Engine τ ν) (target : Node),
        e'.Clears ∧ e.beginSession first = e'.enter target :=
      fun first => ⟨_, first, harmed.clears.cancelTimers.clears.withSession _, rfl⟩
    rcases hentered with hbegins | hentered
    · obtain ⟨first, rfl⟩ := Engine.outcome_begins hgranted hbegins
      exact hbegun first
    · rcases Engine.outcome_cases hgranted with hturn | ⟨id, first, -, rfl, -⟩
      · obtain ⟨session, target, hchange⟩ := hturn.exists_enter hthere hentered
        exact ⟨_, target, harmed.clears.withSession session, hchange⟩
      · exact hbegun first
  | @timer e target entry rest hdue =>
    obtain ⟨hkind, session, target, hchange⟩ :=
      Engine.fire_exists_enter hthere (hentered.resolve_left id)
    obtain ⟨-, hpopped⟩ := Engine.Sets.pop harmed hdue
    exact ⟨_, target, (hpopped.pacingTimer hkind).clears.withSession session, hchange⟩

/-- The frames of a visit, from the event by which the node is entered to whatever ends it. -/
theorem Visit.typewriter {node : Node} {ev : Event τ ν} {during : List (Event τ ν)}
    (h : Visit node ev during) {s : Script} (hkeys : s.KeysAreIds) (hscript : ev.before.script = s)
    (hsound : ev.before.session.Sound ev.before.script) (harmed : ev.before.Armed)
    (hoccurs : ev.Occurs) {e' : Engine τ ν} (hrest : ev.change.engine.Course during e') :
    Typewriter node (announcements (ev :: during)) := by
  obtain ⟨e, target, -, hchange⟩ := hoccurs.exists_enter h.enters harmed
  have htold : ev.change.told = true := hchange ▸ Engine.enter_told e target
  have hprogress : ev.change.engine.session.progress = 0 := by rw [hchange, Engine.enter_session]
  have hvisits := hoccurs.visits hkeys hscript hsound harmed h.enters.there
  obtain ⟨hchain, hunrolls⟩ := hrest.goesOn hkeys hvisits h.continues ev.cause
  have hall : announcements (ev :: during) =
      (ev.cause, ev.change.engine.frame) :: announcements during := by
    rw [announcements_cons, Event.frame?, if_pos htold]
    rfl
  rw [hall]
  refine ⟨?_, ?_, hchain, ?_⟩
  · rw [List.head?_cons, Option.map_some, hvisits.frame_eq]
    simp only [Session.frameAt, hprogress]
    rfl
  · intro shown hshown
    obtain ⟨session, hframe, hsession⟩ : ∃ session : Session,
        shown.2 = session.frameAt node ∧ (session.frameAt node).Unrolls := by
      rcases List.mem_cons.mp hshown with rfl | hlater
      · exact ⟨_, hvisits.frame_eq, hvisits.at.unrolls⟩
      · exact hunrolls shown hlater
    rw [hframe]
    exact ⟨rfl, rfl, hsession⟩
  · rw [← List.pairwise_map (f := fun shown : Cause τ × Frame => shown.2.text.length)
      (R := (· ≤ ·)), ← List.isChain_iff_pairwise, List.isChain_map]
    refine hchain.imp fun before after hgoes => ?_
    simpa only [String.length_toList] using hgoes.forward.length_le

/-- In every run, each single frame that anybody is given shows a first part of a text as it should,
and the frames that are issued during a visit to a node type its text. They are given in this order
to every listener before whom nobody makes calls of their own. -/
theorem text_only_moves_forward [LE τ] [DecidableLE τ] (script : Script)
    (hkeys : script.KeysAreIds) (timing : Timing τ) (saves : Option (Save.Repository ν)) :
    (∀ (stamps : Stamps) (fuel : Nat) (calls : List (Call τ)),
      (∃ events, (Engine.opening script timing saves).Course events
        ((House.opening (Engine.opening script timing saves) stamps).play fuel calls).engine) ∧
      ∀ told ∈ ((House.opening (Engine.opening script timing saves) stamps).play fuel
        calls).delivered, told.2.Unrolls) ∧
    (∀ (before during after : List (Event τ ν)) (ev : Event τ ν) (e : Engine τ ν),
      (Engine.opening script timing saves).Course (before ++ ev :: (during ++ after)) e →
        ∀ node, Visit node ev during → Typewriter node (announcements (ev :: during))) ∧
    ∀ (h : House τ ν) (listener : Listener τ), InFront h.listeners listener →
      ∀ (fuel : Nat) (calls : List (Call τ)), (∀ call ∈ calls, call.KeepsAudience) →
        ∃ events, h.engine.Course events (h.play fuel calls).engine ∧
          framesFor listener.name (h.play fuel calls).delivered =
            framesFor listener.name h.delivered ++ (announcements events).map (·.2) := by
  refine ⟨?_, ?_, ?_⟩
  · intro stamps fuel calls
    have hshown := House.shown_play (Engine.opening script timing saves) stamps fuel calls
    refine ⟨Steps.exists_course hshown.steps, ?_⟩
    intro told htold
    obtain ⟨e, hsteps, hframe⟩ := hshown.frames told htold
    rw [hframe]
    exact Engine.frame_unrolls (Steps.sound hsteps hkeys (Session.sound_initial script))
  · intro before during after ev e hcourse node hvisit
    obtain ⟨hreached, hoccurs, hlater⟩ := hcourse.exists_event
    obtain ⟨last, hduring, -⟩ := hlater.exists_of_append
    exact hvisit.typewriter hkeys (Steps.script hreached)
      (Steps.sound hreached hkeys (Session.sound_initial script))
      (Steps.armed hreached hkeys (Session.sound_initial script)
        (Engine.opening_sets script timing saves)) hoccurs hduring
  · intro h listener hfront fuel calls hcalls
    obtain ⟨events, hcourse, hgiven⟩ := hfront.play rfl fuel calls hcalls
    exact ⟨events, hcourse, by rw [hgiven, map_announcements]⟩

/-- One who watches a question come up, first by itself and then at once. -/
def eyedFork : House Nat Save.MemoryStore :=
  forkOpening.play 40 [.subscribe "eye" (fun _ => false) [] 0]

theorem text_only_moves_forward_in_a_story :
    forkScript.KeysAreIds ∧ InFront eyedFork.listeners ⟨0, "eye", fun _ => false, []⟩ ∧
      ∃ events, eyedFork.engine.Course events
          (eyedFork.play 40 [.newGame, .wait 45, .fastForward true, .advance]).engine ∧
        ((announcements events).map (·.2)).map (·.text) = ["", "H", "H", "Hi"] := by
  have hkeys : forkScript.KeysAreIds := Compiler.keysAreIds_compile {} forkText
  have haudience : eyedFork.listeners = [⟨0, "eye", fun _ => false, []⟩] := rfl
  have hfront : InFront eyedFork.listeners ⟨0, "eye", fun _ => false, []⟩ := by
    rw [haudience]
    refine ⟨⟨[], [], rfl, fun _ h => (nomatch h), fun _ h => (nomatch h)⟩, ?_⟩
    intro other hother call hcall
    rw [List.mem_singleton.mp hother] at hcall
    cases hcall
  obtain ⟨-, -, hgives⟩ :=
    text_only_moves_forward (ν := Save.MemoryStore) forkScript hkeys Timing.usual none
  obtain ⟨events, hcourse, hgiven⟩ := hgives eyedFork _ hfront 40
    [.newGame, .wait 45, .fastForward true, .advance] (by simp [Call.KeepsAudience])
  have hnothing : framesFor "eye" eyedFork.delivered = [] := rfl
  have htexts : (framesFor "eye" (eyedFork.play 40
      [.newGame, .wait 45, .fastForward true, .advance]).delivered).map (·.text) =
        ["", "H", "H", "Hi"] := by decide +kernel
  rw [hgiven, hnothing, List.nil_append] at htexts
  exact ⟨hkeys, hfront, events, hcourse, htexts⟩

/-- One who goes on as soon as a text begins to appear, and another one who is told afterwards. -/
def interruptedFork : House Nat Save.MemoryStore :=
  forkOpening.play 40 [.subscribe "first" (fun f => f.reveal == .revealing) [.advance] 1,
    .subscribe "second" (fun _ => false) [] 0]

/-- The empty text is issued first and the whole text after it, but the second listener is given the
whole text first. -/
theorem text_runs_backwards_for_a_later_listener :
    forkScript.KeysAreIds ∧
      (∃ events,
        interruptedFork.engine.Course events (interruptedFork.play 40 [.newGame]).engine ∧
          (issued events).map (·.text) = ["", "Hi"]) ∧
      (interruptedFork.play 40 [.newGame]).engine.session.history = [] ∧
      (framesFor "second" (interruptedFork.play 40 [.newGame]).delivered).map
        (fun f => (f.nodeId, f.text)) = [(some "start", "Hi"), (some "start", "")] ∧
      ¬ (framesFor "second" (interruptedFork.play 40 [.newGame]).delivered).Pairwise
        fun f g => f.text.length ≤ g.text.length := by
  have hkeys : forkScript.KeysAreIds := Compiler.keysAreIds_compile {} forkText
  have haudience : interruptedFork.listeners =
      [⟨0, "first", fun f => f.reveal == .revealing, [.advance]⟩,
        ⟨1, "second", fun _ => false, []⟩] := rfl
  have hfront : InFront interruptedFork.listeners
      ⟨0, "first", fun f => f.reveal == .revealing, [.advance]⟩ := by
    rw [haudience]
    refine ⟨⟨[], _, rfl, fun _ h => (nomatch h), ?_⟩, ?_⟩
    · simp
    · simp [Call.KeepsAudience]
  obtain ⟨events, hcourse, hgiven⟩ := hfront.play rfl 40 [.newGame] (by simp [Call.KeepsAudience])
  have hnothing : framesFor "first" interruptedFork.delivered = [] := rfl
  have htexts : (framesFor "first" (interruptedFork.play 40 [.newGame]).delivered).map (·.text) =
      ["", "Hi"] := by decide +kernel
  rw [hgiven, hnothing, List.nil_append] at htexts
  exact ⟨hkeys, ⟨events, hcourse, htexts⟩, by decide +kernel, by decide +kernel,
    by decide +kernel⟩

end VisualNovel.Playback
