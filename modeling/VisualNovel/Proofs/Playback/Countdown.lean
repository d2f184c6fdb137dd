import VisualNovel.Proofs.Playback.Delays
import VisualNovel.Proofs.Playback.Refusals
import VisualNovel.Proofs.Playback.TimeAlone

/-!
The countdown of an ending. From the moment an ending begins, one timer waits, which returns to the
title when the grace time is over. Nothing but a new session, a jump back or the title itself gets
out of it sooner or later than that: all other requests, and those that are refused, leave the timer
and the node as they are.
-/
namespace VisualNovel.Playback

variable {τ ν : Type}

/-- Calls that do not lead out of an ending: they begin no session, jump nowhere and do not return
to the title, and they never turn the clock back. -/
def Call.Steady [Zero τ] [LE τ] : Call τ → Prop
  | .newGame | .title | .jump _ | .load _ _ => False
  | .wait seconds => 0 ≤ seconds
  | .idle limit => 0 ≤ limit
  | _ => True

/-- An ending is under way, at the node where it began and with the pacing it began with, and
returns to the title at the deadline. -/
structure Engine.CountsDown [LE τ] (e : Engine τ ν) (began : Session) (deadline : τ) : Prop where
  remains : began.Remains e.session
  view : e.session.view = .playing
  ending : e.session.ending = true
  pacing : e.session.pacing = .manual
  timer : ∃ t, e.Holds (some t) ∧ t.task.kind = .titleReturn ∧ t.due = deadline
  now : e.agenda.now ≤ deadline

/-- The title screen is back since the deadline, and nothing waits any more. -/
structure Engine.Closed [LE τ] (e : Engine τ ν) (deadline : τ) : Prop where
  session : e.session = {}
  rests : e.Holds none
  now : deadline ≤ e.agenda.now

/-- Neither the player nor time moves such a session on to another node: the title is shown, or an
ending is under way. -/
def Session.Rests (s : Session) : Prop := s.view ≠ .playing ∨ s.ending = true

namespace Engine

section Requests
variable {e : Engine τ ν}

/-- The visit to the node, or the title screen, stays as it is, and so do the timers. -/
def Spares (e e' : Engine τ ν) : Prop :=
  ∃ session, e' = { e with session } ∧ e.session.Remains session ∧
    (e.session = {} → session = {})

theorem Spares.refl (e : Engine τ ν) : e.Spares e := ⟨e.session, rfl, .refl _, id⟩

theorem spares_acknowledgeEffect (e : Engine τ ν) : e.Spares e.acknowledgeEffect.engine := by
  unfold acknowledgeEffect
  split
  · exact .refl e
  · exact ⟨_, rfl, ⟨rfl, rfl, rfl, rfl, rfl⟩, fun htitle => by rw [htitle]⟩

theorem spares_openHistory (e : Engine τ ν) : e.Spares e.openHistory.engine := by
  unfold openHistory
  split
  · exact .refl e
  · next hopens =>
    simp only [not_or, ne_eq, Decidable.not_not] at hopens
    refine ⟨_, rfl, ⟨rfl, rfl, rfl, rfl, rfl⟩, fun htitle => ?_⟩
    rw [htitle] at hopens
    cases hopens.1

theorem spares_closeHistory (e : Engine τ ν) : e.Spares e.closeHistory.engine := by
  unfold closeHistory
  split
  · exact ⟨_, rfl, ⟨rfl, rfl, rfl, rfl, rfl⟩, fun htitle => by rw [htitle]⟩
  · exact .refl e

variable [Zero τ] [Add τ] [Mul τ] [NatCast τ] [LT τ] [DecidableLT τ]

theorem advance_of_rests (h : e.session.Rests) : e.advance = quiet e := by
  unfold advance
  split
  · rfl
  · next node hcurrent =>
    have hview := ((currentNode_eq_some_iff e node).mp hcurrent).1
    rw [if_pos (h.resolve_left (not_not_intro hview))]

theorem setPacing_of_rests (h : e.session.Rests) (pacing : Pacing) :
    e.setPacing pacing = quiet e := by
  unfold setPacing
  exact if_pos (h.imp_right .inl)

theorem setMode_of_rests (h : e.session.Rests) (mode : Pacing) (enabled : Bool) :
    e.setMode mode enabled = quiet e := by
  unfold setMode
  rw [setPacing_of_rests h, setPacing_of_rests h]
  split
  · rfl
  · split <;> rfl

theorem not_selectChoice_of_rests (h : e.session.Rests) {index : Int} {c : Change τ ν} :
    e.selectChoice index ≠ .ok c := by
  intro hchosen
  obtain ⟨node, -, hcurrent, hending, -⟩ := selectChoice_eq_ok hchosen
  have hview := ((currentNode_eq_some_iff e node).mp hcurrent).1
  cases hending.symm.trans (h.resolve_left (not_not_intro hview))

/-- A steady request spares a session that rests. -/
theorem spares_of_rests [Save.KeyValueStore ν] [LE τ] (h : e.session.Rests) {call : Call τ}
    (hsteady : call.Steady) {c : Change τ ν} (hgranted : e.outcome call = some (.ok c)) :
    e.Spares c.engine := by
  have hquiet : ∀ change : Change τ ν, change = quiet e →
      (some (.ok change) : Option (Except CallError (Change τ ν))) = some (.ok c) →
        e.Spares c.engine := by
    rintro change rfl hsame
    cases hsame
    exact .refl e
  cases call with
  | newGame | title | jump | load => exact hsteady.elim
  | choose index => exact absurd (eq_ok_of_mapError hgranted) (not_selectChoice_of_rests h)
  | advance => exact hquiet _ (advance_of_rests h) hgranted
  | auto | fastForward | toggleAuto | toggleFastForward =>
    exact hquiet _ (setMode_of_rests h _ _) hgranted
  | acknowledge => exact Except.ok.inj (Option.some.inj hgranted) ▸ spares_acknowledgeEffect e
  | openHistory => exact Except.ok.inj (Option.some.inj hgranted) ▸ spares_openHistory e
  | closeHistory => exact Except.ok.inj (Option.some.inj hgranted) ▸ spares_closeHistory e
  | _ => cases hgranted

end Requests

section Kept
variable {e e' : Engine τ ν} {began : Session} {deadline : τ}
variable [LE τ]

theorem CountsDown.rests (h : e.CountsDown began deadline) : e.session.Rests := .inr h.ending

theorem Closed.rests_session (h : e.Closed deadline) : e.session.Rests := by
  refine .inl ?_
  rw [h.session]
  simp

theorem CountsDown.spared (h : e.CountsDown began deadline) (hspares : e.Spares e') :
    e'.CountsDown began deadline := by
  obtain ⟨session, rfl, hremains, -⟩ := hspares
  obtain ⟨t, hholds, hkind, hdue⟩ := h.timer
  exact {
    remains := h.remains.trans hremains
    view := hremains.view.trans h.view
    ending := hremains.ending.trans h.ending
    pacing := hremains.pacing.trans h.pacing
    timer := ⟨t, ⟨⟨hholds.heeds, hholds.generation, hholds.slots⟩, hholds.queue⟩, hkind, hdue⟩
    now := h.now }

theorem Closed.spared (h : e.Closed deadline) (hspares : e.Spares e') : e'.Closed deadline := by
  obtain ⟨session, rfl, -, htitle⟩ := hspares
  exact ⟨htitle h.session, (h.rests.sets_none.withSession session).holds_none, h.now⟩

theorem CountsDown.withSaves (h : e.CountsDown began deadline)
    (saves : Option (Save.Repository ν)) :
    ({ e with saves } : Engine τ ν).CountsDown began deadline := by
  obtain ⟨t, hholds, hkind, hdue⟩ := h.timer
  exact { h with timer := ⟨t, ⟨⟨hholds.heeds, hholds.generation, hholds.slots⟩, hholds.queue⟩,
    hkind, hdue⟩ }

theorem Closed.withSaves (h : e.Closed deadline) (saves : Option (Save.Repository ν)) :
    ({ e with saves } : Engine τ ν).Closed deadline :=
  ⟨h.session, (h.rests.sets_none.withSaves saves).holds_none, h.now⟩

theorem CountsDown.nextDue?_eq (h : e.CountsDown began deadline) :
    e.agenda.nextDue? = some deadline := by
  obtain ⟨t, hholds, -, rfl⟩ := h.timer
  have hqueue : e.agenda.queue = [t] := hholds.queue
  unfold Timer.Agenda.nextDue?
  rw [hqueue]
  rfl

theorem Closed.nextDue?_eq_none (h : e.Closed deadline) : e.agenda.nextDue? = none := by
  unfold Timer.Agenda.nextDue?
  rw [h.rests.queue]
  rfl

theorem Closed.pop?_eq_none [LT τ] [DecidableLT τ] (h : e.Closed deadline) (target : τ) :
    e.agenda.pop? target = none := by
  have hqueue : e.agenda.queue = [] := h.rests.queue
  unfold Timer.Agenda.pop?
  rw [hqueue]

end Kept

section Clock
variable {e : Engine τ ν} {began : Session} {deadline target : τ}
variable [LinearOrder τ]

/-- While nothing is due, the deadline lies ahead. -/
theorem CountsDown.lt_of_quiet (h : e.CountsDown began deadline)
    (hquiet : e.agenda.pop? target = none) : target < deadline := by
  obtain ⟨t, hholds, -, hdue⟩ := h.timer
  have hqueue : e.agenda.queue = [t] := hholds.queue
  unfold Timer.Agenda.pop? at hquiet
  rw [hqueue] at hquiet
  simpa [hdue] using hquiet

theorem CountsDown.withClock (h : e.CountsDown began deadline) (hnow : target ≤ deadline) :
    ({ e with agenda := { e.agenda with now := target } } : Engine τ ν).CountsDown began
      deadline := by
  obtain ⟨t, hholds, hkind, hdue⟩ := h.timer
  exact { h with
    timer := ⟨t, ⟨⟨hholds.heeds, hholds.generation, hholds.slots⟩, hholds.queue⟩, hkind, hdue⟩
    now := hnow }

variable [AddZeroClass τ] [Mul τ] [NatCast τ]

/-- The timer that runs returns to the title, at the deadline. -/
theorem CountsDown.pop (h : e.CountsDown began deadline) {entry : Timer.Entry τ Alarm}
    {rest : Timer.Agenda τ Alarm} (hdue : e.agenda.pop? target = some (entry, rest)) :
    deadline ≤ target ∧
      (({ e with agenda := rest } : Engine τ ν).fire entry.task).engine.Closed deadline := by
  obtain ⟨t, hholds, hkind, htime⟩ := h.timer
  obtain ⟨queue, hqueue, htarget, hrest⟩ := Timer.Agenda.pop?_eq_some hdue
  obtain ⟨htask, hpopped⟩ := Engine.Sets.pop ⟨some t, hholds, rfl⟩ hdue
  have hwaiting : e.agenda.queue = [t] := hholds.queue
  obtain ⟨rfl, -⟩ : t = entry ∧ [] = queue := by
    rwa [hwaiting, List.cons.injEq] at hqueue
  have hfire : ({ e with agenda := rest } : Engine τ ν).fire t.task =
      ({ e with agenda := rest } : Engine τ ν).returnToTitle := by
    rw [hpopped.fire_eq, hkind]
  have hclock : rest.now = deadline := by
    rw [hrest, ← htime]
    exact Timer.later_eq_right (htime ▸ h.now)
  refine ⟨htime ▸ not_lt.mp htarget, ?_, ?_, ?_⟩
  · rw [hfire]
    rfl
  · rw [hfire]
    exact hpopped.clears.returnToTitle.holds_none
  · rw [(fire_sameTime _ t.task).now]
    exact hclock.ge

end Clock

/-- The countdown goes on, or is over. -/
def Concludes [LE τ] (e : Engine τ ν) (began : Session) (deadline : τ) : Prop :=
  e.CountsDown began deadline ∨ e.Closed deadline

theorem Concludes.rests [LE τ] {e : Engine τ ν} {began : Session} {deadline : τ}
    (h : e.Concludes began deadline) : e.session.Rests :=
  h.elim CountsDown.rests Closed.rests_session

end Engine

/-- Steady calls do not disturb a countdown, and nothing comes after it. -/
def House.Persists [Zero τ] [LE τ] (began : Session) (deadline : τ) (h h' : House τ ν) : Prop :=
  h.Within Call.Steady → h.engine.Concludes began deadline →
    h'.Within Call.Steady ∧ h'.engine.Concludes began deadline ∧
      (h.engine.Closed deadline → h'.engine.Closed deadline)

/-- What a move of the clock does to a countdown. If it comes to an end, it does so before the
deadline or on the title screen. -/
structure House.Elapses {ρ : Type} [Zero τ] [LinearOrder τ] (began : Session) (deadline : τ)
    (h : House τ ν) (r : Except (Timer.Halt CallError) ρ × House τ ν) : Prop where
  within : r.2.Within Call.Steady
  concludes : r.2.engine.Concludes began deadline
  closed : h.engine.Closed deadline → r.2.engine.Closed deadline
  decided : r.1 ≠ .error .outOfFuel →
    r.2.engine.agenda.now < deadline ∨ r.2.engine.Closed deadline

variable {began : Session} {deadline : τ} {h : House τ ν}
variable [AddZeroClass τ] [LinearOrder τ]

namespace House

theorem Persists.refl (h : House τ ν) : h.Persists began deadline h :=
  fun hw hconcludes => ⟨hw, hconcludes, id⟩

theorem Persists.trans {h h' h'' : House τ ν} (hfirst : h.Persists began deadline h')
    (hsecond : h'.Persists began deadline h'') : h.Persists began deadline h'' := by
  intro hw hconcludes
  obtain ⟨hw', hconcludes', hclosed'⟩ := hfirst hw hconcludes
  obtain ⟨hw'', hconcludes'', hclosed''⟩ := hsecond hw' hconcludes'
  exact ⟨hw'', hconcludes'', fun hclosed => hclosed'' (hclosed' hclosed)⟩

theorem Persists.of_saves {h' : House τ ν} (hlisteners : h'.listeners = h.listeners)
    (hsaves : ∃ saves, h'.engine = { h.engine with saves }) : h.Persists began deadline h' := by
  intro hw hconcludes
  obtain ⟨saves, hengine⟩ := hsaves
  rw [hengine]
  refine ⟨?_, hconcludes.imp (·.withSaves saves) (·.withSaves saves), (·.withSaves saves)⟩
  unfold House.Within
  rw [hlisteners]
  exact hw

variable [Save.KeyValueStore ν]
variable [Mul τ] [NatCast τ]

theorem persists_carried :
    House.Carried Call.Steady (House.Persists began deadline : House τ ν → House τ ν → Prop) where
  refl := .refl
  trans := .trans
  assume hpersists hw := hpersists hw hw
  request hsteady hgranted hw hconcludes := by
    have hspares := Engine.spares_of_rests hconcludes.rests hsteady hgranted
    exact ⟨hw, hconcludes.imp (·.spared hspares) (·.spared hspares), (·.spared hspares)⟩
  save _ := .of_saves (House.save_listeners _ _ _) (House.save_engine _ _ _)
  stored _ := .of_saves (House.setStoredText_listeners _ _ _) (House.setStoredText_engine _ _ _)
  told h _ _ := .refl h
  spent h _ _ := .refl h
  subscribed _ name awaits _ hreaction uses hw hconcludes :=
    ⟨hw.subscribe name awaits hreaction uses, hconcludes, id⟩
  unsubscribed _ id hw hconcludes := ⟨hw.removeListener id, hconcludes, fun hclosed => hclosed⟩

end House

namespace Engine

/-- Once the title is back, a move of the clock does nothing but that. -/
theorem Closed.elapses_runUntil (hclosed : h.engine.Closed deadline) (hw : h.Within Call.Steady)
    (fire : Alarm → HouseAction τ ν Unit) {target : τ} (htarget : deadline ≤ target)
    (steps ran : Nat) : h.Elapses began deadline (Timer.runUntil fire target steps ran h) := by
  cases steps with
  | zero => exact ⟨hw, .inr hclosed, id, fun hdone => absurd rfl hdone⟩
  | succ steps =>
    rw [Timer.runUntil_of_quiet (hclosed.pop?_eq_none target)]
    have hlater : ({ h.engine with agenda := { h.engine.agenda with now := target } } :
        Engine τ ν).Closed deadline :=
      ⟨hclosed.session, (hclosed.rests.sets_none.withClock target).holds_none, htarget⟩
    exact ⟨hw, .inr hlater, fun _ => hlater, fun _ => .inr hlater⟩

theorem Closed.elapses_runUntilQuiet (hclosed : h.engine.Closed deadline)
    (hw : h.Within Call.Steady) (fire : Alarm → HouseAction τ ν Unit) (limit : τ)
    (steps ran : Nat) : h.Elapses began deadline (Timer.runUntilQuiet fire limit steps ran h) := by
  cases steps with
  | zero => exact ⟨hw, .inr hclosed, id, fun hdone => absurd rfl hdone⟩
  | succ steps =>
    have hnothing : (Timer.agenda h).nextDue? = none := hclosed.nextDue?_eq_none
    have hidle : ∀ due, (Timer.agenda h).nextDue? = some due → ¬ due ≤ limit := by
      rw [hnothing]
      rintro due ⟨⟩
    rw [Timer.runUntilQuiet_of_idle hidle]
    exact ⟨hw, .inr hclosed, id, fun _ => .inr hclosed⟩

variable [Save.KeyValueStore ν]
variable [Mul τ] [NatCast τ]

section Moves
variable {perform : Call τ → HouseAction τ ν (Reply τ)}
  (hperform : Relates Call.Steady (House.Persists began deadline) perform)
include hperform

/-- When the timer of the countdown runs, the title is back, whatever is done about it. -/
theorem CountsDown.fireAlarm_closed (hcounts : h.engine.CountsDown began deadline)
    (hw : h.Within Call.Steady) {target : τ} {entry : Timer.Entry τ Alarm}
    {rest : Timer.Agenda τ Alarm} (hdue : h.engine.agenda.pop? target = some (entry, rest)) :
    (fireAlarm perform entry.task (Timer.withAgenda h rest)).2.Within Call.Steady ∧
      (fireAlarm perform entry.task (Timer.withAgenda h rest)).2.engine.Closed deadline := by
  obtain ⟨-, hclosed⟩ := hcounts.pop hdue
  -- Listeners are told of it when the engine has changed already.
  let taken : House τ ν :=
    { h with engine := (({ h.engine with agenda := rest } : Engine τ ν).fire entry.task).engine }
  have hpersists : taken.Persists began deadline
      (fireAlarm perform entry.task (Timer.withAgenda h rest)).2 :=
    publish_relates House.persists_carried hperform (h := taken) (.refl taken)
  obtain ⟨hw', -, hstays⟩ := hpersists hw (.inr hclosed)
  exact ⟨hw', hstays hclosed⟩

theorem CountsDown.elapses_runUntil (hcounts : h.engine.CountsDown began deadline)
    (hw : h.Within Call.Steady) (target : τ) (steps ran : Nat) :
    h.Elapses began deadline (Timer.runUntil (fireAlarm perform) target steps ran h) ∧
      ((Timer.runUntil (fireAlarm perform) target steps ran h).1 ≠ .error .outOfFuel →
        deadline ≤ target →
          (Timer.runUntil (fireAlarm perform) target steps ran h).2.engine.Closed deadline) := by
  have hopen : ¬ h.engine.Closed deadline := by
    intro hclosed
    have hview := hcounts.view
    rw [hclosed.session] at hview
    cases hview
  cases steps with
  | zero =>
    exact ⟨⟨hw, .inl hcounts, id, fun hdone => absurd rfl hdone⟩, fun hdone => absurd rfl hdone⟩
  | succ steps =>
    cases hpop : h.engine.agenda.pop? target with
    | none =>
      have hahead := hcounts.lt_of_quiet hpop
      rw [Timer.runUntil_of_quiet (s := h) hpop]
      exact ⟨⟨hw, .inl (hcounts.withClock hahead.le), fun hclosed => absurd hclosed hopen,
        fun _ => .inl hahead⟩, fun _ hpast => absurd hahead (not_lt.mpr hpast)⟩
    | some popped =>
      obtain ⟨entry, rest⟩ := popped
      obtain ⟨hpast, -⟩ := hcounts.pop hpop
      obtain ⟨hw', hclosed'⟩ := hcounts.fireAlarm_closed hperform hw hpop
      have hdue : (Timer.agenda h).pop? target = some (entry, rest) := hpop
      rw [Timer.runUntil_of_due hdue]
      rcases hrun : fireAlarm perform entry.task (Timer.withAgenda h rest) with ⟨halt | _, t⟩
      · rw [hrun] at hw' hclosed'
        rw [Timer.Action.seq_of_error hrun]
        exact ⟨⟨hw', .inr hclosed', fun _ => hclosed', fun _ => .inr hclosed'⟩,
          fun _ _ => hclosed'⟩
      · rw [hrun] at hw' hclosed'
        rw [Timer.Action.seq_of_ok hrun]
        have hrest : t.Elapses began deadline
            (Timer.runUntil (fireAlarm perform) target steps (ran + 1) t) :=
          hclosed'.elapses_runUntil hw' (fireAlarm perform) hpast steps (ran + 1)
        have hend := hrest.closed hclosed'
        exact ⟨⟨hrest.within, hrest.concludes, fun _ => hend, fun _ => .inr hend⟩,
          fun _ _ => hend⟩

theorem Concludes.elapses_advance [AddLeftMono τ] (hconcludes : h.engine.Concludes began deadline)
    (hw : h.Within Call.Steady) {seconds : τ} (hforward : 0 ≤ seconds) (steps : Nat) :
    h.Elapses began deadline (Timer.advance (fireAlarm perform) seconds steps h) := by
  rcases hconcludes with hcounts | hclosed
  · exact (hcounts.elapses_runUntil hperform hw _ steps 0).1
  · refine hclosed.elapses_runUntil hw _ ?_ steps 0
    exact hclosed.now.trans (le_add_of_nonneg_right hforward)

theorem Concludes.elapses_runUntilIdle [AddLeftMono τ]
    (hconcludes : h.engine.Concludes began deadline) (hw : h.Within Call.Steady) {limit : τ}
    (hforward : 0 ≤ limit) (steps : Nat) :
    h.Elapses began deadline (Timer.runUntilIdle (fireAlarm perform) limit steps h) := by
  unfold Timer.runUntilIdle
  cases steps with
  | zero => exact ⟨hw, hconcludes, id, fun hdone => absurd rfl hdone⟩
  | succ steps =>
    rcases hconcludes with hcounts | hclosed
    · have hnext : (Timer.agenda h).nextDue? = some deadline := hcounts.nextDue?_eq
      by_cases hle : deadline ≤ (Timer.agenda h).now + limit
      · rw [Timer.runUntilQuiet_of_due hnext hle]
        obtain ⟨hmove, hend⟩ := hcounts.elapses_runUntil hperform hw deadline steps 0
        rcases hrun : Timer.runUntil (fireAlarm perform) deadline steps 0 h with ⟨halt | more, h'⟩
        · rw [Timer.Action.seq_of_error hrun]
          rw [hrun] at hmove
          exact ⟨hmove.within, hmove.concludes, hmove.closed, hmove.decided⟩
        · rw [Timer.Action.seq_of_ok hrun]
          rw [hrun] at hmove hend
          have hclosed' : h'.engine.Closed deadline := hend (by simp) le_rfl
          have hrest : h'.Elapses began deadline (Timer.runUntilQuiet (fireAlarm perform)
              ((Timer.agenda h).now + limit) steps (0 + more) h') :=
            hclosed'.elapses_runUntilQuiet hmove.within _ _ _ _
          exact ⟨hrest.within, hrest.concludes, fun _ => hrest.closed hclosed', hrest.decided⟩
      · have hidle : ∀ due, (Timer.agenda h).nextDue? = some due →
            ¬ due ≤ (Timer.agenda h).now + limit := by
          rw [hnext]
          rintro due ⟨⟩
          exact hle
        rw [Timer.runUntilQuiet_of_idle hidle]
        refine ⟨hw, .inl hcounts, id, fun _ => .inl ?_⟩
        exact (le_add_of_nonneg_right hforward).trans_lt (not_le.mp hle)
    · exact hclosed.elapses_runUntilQuiet hw _ _ _ _

end Moves

end Engine

section Runs

theorem Call.MovesClock.steady {call : Call τ} {P : Prop} (hclock : call.MovesClock)
    (hcall : call.Within Call.Steady ∨ call.Refusable ∧ P) : call.Steady := by
  rcases hcall with ⟨hsteady, -⟩ | ⟨hrefusable, -⟩
  · exact hsteady
  · cases hclock <;> cases hrefusable

variable [Mul τ] [NatCast τ]

theorem exists_runUntil_of_silent (hsilent : h.Silent)
    (hconcludes : h.engine.Concludes began deadline)
    (perform : Call τ → HouseAction τ ν (Reply τ)) (target : τ) (steps ran : Nat) :
    ∃ more h', Timer.runUntil (fireAlarm perform) target (steps + 2) ran h = (.ok more, h') := by
  cases hpop : h.engine.agenda.pop? target with
  | none => exact ⟨_, _, Timer.runUntil_of_quiet (s := h) hpop _ _⟩
  | some popped =>
    obtain ⟨entry, rest⟩ := popped
    have hcounts : h.engine.CountsDown began deadline := by
      refine hconcludes.resolve_right fun hclosed => ?_
      rw [hclosed.pop?_eq_none] at hpop
      cases hpop
    obtain ⟨-, hclosed⟩ := hcounts.pop hpop
    obtain ⟨h', hengine, -, hrun⟩ := hsilent.exists_fired perform hpop
    have hquiet : h'.engine.agenda.pop? target = none := by
      rw [hengine]
      exact hclosed.pop?_eq_none target
    rw [hrun]
    exact ⟨_, _, Timer.runUntil_of_quiet (s := h') hquiet _ _⟩

variable [Save.KeyValueStore ν]

/-- Calls made one after the other, each of which is steady or refused when it is made. -/
def House.Bears (fuel : Nat) : House τ ν → List (Call τ) → Prop
  | _, [] => True
  | h, call :: rest =>
      (call.Within Call.Steady ∨ call.Refusable ∧ h.engine.Refuses call) ∧
        House.Bears fuel (perform fuel call h).2 rest

theorem House.bears_append {fuel : Nat} {before after : List (Call τ)} :
    h.Bears fuel (before ++ after) ↔
      h.Bears fuel before ∧ (h.play fuel before).Bears fuel after := by
  induction before generalizing h with
  | nil => exact ⟨fun hafter => ⟨trivial, hafter⟩, And.right⟩
  | cons call rest ih => exact (and_congr_right fun _ => ih).trans and_assoc.symm

/-- A refused call changes nothing, with or without fuel. -/
theorem perform_snd_of_refused {call : Call τ} (hcall : call.Refusable)
    (hrefused : h.engine.Refuses call) (fuel : Nat) : (perform fuel call h).2 = h := by
  cases fuel with
  | zero => rfl
  | succ fuel =>
    obtain ⟨err, hfails⟩ := perform_of_refused hcall hrefused fuel
    rw [hfails]

variable [AddLeftMono τ]

theorem perform_persists (fuel : Nat) : Relates Call.Steady (House.Persists began deadline)
    (perform fuel : Call τ → HouseAction τ ν (Reply τ)) := by
  refine perform_relates House.persists_carried ?_ ?_ fuel
  · intro perform hperform seconds hforward fuel h hw hconcludes
    have helapses := hconcludes.elapses_advance hperform hw hforward fuel
    exact ⟨helapses.within, helapses.concludes, helapses.closed⟩
  · intro perform hperform limit hforward fuel h hw hconcludes
    have helapses := hconcludes.elapses_runUntilIdle hperform hw hforward fuel
    exact ⟨helapses.within, helapses.concludes, helapses.closed⟩

/-- A call that moves the clock on ends before the deadline or on the title screen. -/
theorem perform_elapses {call : Call τ} (hclock : call.MovesClock) (hsteady : call.Steady)
    (hw : h.Within Call.Steady) (hconcludes : h.engine.Concludes began deadline) (fuel : Nat) :
    h.Elapses began deadline (perform fuel call h) := by
  cases fuel with
  | zero => exact ⟨hw, hconcludes, id, fun hdone => absurd rfl hdone⟩
  | succ fuel =>
    cases hclock with
    | wait seconds =>
      have helapses := hconcludes.elapses_advance (perform_persists fuel) hw hsteady fuel
      exact ⟨helapses.within, helapses.concludes, helapses.closed,
        fun hdone => helapses.decided (ne_outOfFuel_of_replying hdone)⟩
    | idle limit =>
      have helapses := hconcludes.elapses_runUntilIdle (perform_persists fuel) hw hsteady fuel
      exact ⟨helapses.within, helapses.concludes, helapses.closed,
        fun hdone => helapses.decided (ne_outOfFuel_of_replying hdone)⟩

theorem House.Bears.persists {fuel : Nat} {calls : List (Call τ)} (hbears : h.Bears fuel calls) :
    h.Persists began deadline (h.play fuel calls) := by
  induction calls generalizing h with
  | nil => exact .refl h
  | cons call rest ih =>
    obtain ⟨hcall, hrest⟩ := hbears
    have hfirst : h.Persists began deadline (perform fuel call h).2 := by
      rcases hcall with hsteady | ⟨hrefusable, hrefused⟩
      · exact perform_persists fuel call hsteady h
      · rw [perform_snd_of_refused hrefusable hrefused]
        exact .refl h
    exact hfirst.trans (ih hrest)

theorem exists_runUntilIdle_of_silent (hsilent : h.Silent)
    (hconcludes : h.engine.Concludes began deadline) (fuel : Nat) (limit : τ) (steps : Nat) :
    ∃ more h', Timer.runUntilIdle (fireAlarm (perform fuel)) limit (steps + 3) h =
      (.ok more, h') := by
  unfold Timer.runUntilIdle
  by_cases hidle : ∀ due, (Timer.agenda h).nextDue? = some due →
      ¬ due ≤ (Timer.agenda h).now + limit
  · exact ⟨_, _, Timer.runUntilQuiet_of_idle hidle _ _⟩
  · simp only [Classical.not_forall, Decidable.not_not] at hidle
    obtain ⟨due, hnext, hle⟩ := hidle
    have hcounts : h.engine.CountsDown began deadline := by
      refine hconcludes.resolve_right fun hclosed => ?_
      have hnothing : (Timer.agenda h).nextDue? = none := hclosed.nextDue?_eq_none
      rw [hnothing] at hnext
      cases hnext
    obtain rfl : deadline = due := Option.some.inj (hcounts.nextDue?_eq.symm.trans hnext)
    obtain ⟨more, h', hrun⟩ :=
      exists_runUntil_of_silent hsilent hconcludes (perform fuel) deadline steps 0
    obtain ⟨-, hend⟩ := hcounts.elapses_runUntil (perform_persists fuel) hsilent.within deadline
      (steps + 2) 0
    rw [hrun] at hend
    have hclosed : h'.engine.Closed deadline := hend (by simp) le_rfl
    have hnothing : (Timer.agenda h').nextDue? = none := hclosed.nextDue?_eq_none
    rw [Timer.runUntilQuiet_of_due hnext hle, Timer.Action.seq_of_ok hrun]
    refine ⟨_, _, Timer.runUntilQuiet_of_idle ?_ _ _⟩
    rw [hnothing]
    rintro due ⟨⟩

theorem ne_outOfFuel_of_silent {call : Call τ} (hclock : call.MovesClock) (hsilent : h.Silent)
    (hconcludes : h.engine.Concludes began deadline) {fuel : Nat} (hfuel : 4 ≤ fuel) :
    (perform fuel call h).1 ≠ .error .outOfFuel := by
  obtain ⟨more, rfl⟩ : ∃ more, fuel = more + 4 := ⟨fuel - 4, by omega⟩
  cases hclock with
  | wait seconds =>
    obtain ⟨count, h', hrun⟩ := exists_runUntil_of_silent hsilent hconcludes (perform (more + 3))
      ((Timer.agenda h).now + seconds) (more + 1) 0
    have hdone : perform (more + 4) (.wait seconds) h = (.ok (.count count), h') :=
      congrArg (replying .count) hrun
    simp [hdone]
  | idle limit =>
    obtain ⟨count, h', hrun⟩ :=
      exists_runUntilIdle_of_silent hsilent hconcludes (more + 3) limit more
    have hdone : perform (more + 4) (.idle limit) h = (.ok (.count count), h') :=
      congrArg (replying .count) hrun
    simp [hdone]

end Runs

variable [Mul τ] [NatCast τ]

/-- The title is due when the grace time has passed. -/
theorem Engine.Clears.beginEnding_countsDown {e : Engine τ ν} (h : e.Clears)
    (hview : e.session.view = .playing) (hgrace : 0 ≤ e.timing.endGrace) [AddLeftMono τ] :
    e.beginEnding.engine.CountsDown e.beginEnding.engine.session
      (e.agenda.now + e.timing.endGrace) := by
  have hnow : e.beginEnding.engine.agenda.now = e.agenda.now :=
    (Engine.SameTime.cancelTimers (e := e) ⟨rfl, rfl⟩).now
  obtain ⟨waiting, hholds, hkind⟩ := h.beginEnding
  obtain ⟨t, rfl, htask⟩ := Option.map_eq_some_iff.mp hkind
  have hset : e.beginEnding.engine.JustSet :=
    (h.cancelTimers.sets_none.withSession _).holds_none.setTimer_justSet .titleReturn
  have hdue : t.due = e.agenda.now + e.timing.endGrace := by
    rw [hset t (by rw [hholds.queue]; simp), hnow, htask, Timer.later_eq_right]
    · rfl
    · exact hgrace
  exact {
    remains := .refl _
    view := hview
    ending := rfl
    pacing := rfl
    timer := ⟨t, hholds, htask, hdue⟩
    now := hnow.le.trans (le_add_of_nonneg_right hgrace) }

theorem Engine.Popped.fire_beginsEnding {e : Engine τ ν} {t : Timer.Entry τ Alarm}
    (h : e.Popped t) (hbefore : e.session.ending = false)
    (hafter : (e.fire t.task).engine.session.ending = true) :
    ∃ b : Engine τ ν, b.Clears ∧ b.session.view = .playing ∧ b.timing = e.timing ∧
      (e.fire t.task).engine = b.beginEnding.engine := by
  rw [h.fire_eq] at hafter ⊢
  cases hkind : t.task.kind with
  | revealTick =>
    simp only [hkind] at hafter
    cases hcurrent : e.currentNode with
    | none =>
      rw [revealTick_of_none hcurrent] at hafter
      cases hbefore.symm.trans hafter
    | some node =>
      rw [revealTick_session hcurrent] at hafter
      cases hbefore.symm.trans hafter
  | pacingFire =>
    simp only [hkind] at hafter
    obtain ⟨hbegins, hview⟩ :=
      (turn_advance ({ e with pacingTimer := none } : Engine τ ν)).eq_beginEnding hbefore hafter
    exact ⟨_, (h.pacingTimer hkind).clears, hview, rfl, congrArg Change.engine hbegins⟩
  | titleReturn =>
    simp only [hkind] at hafter
    cases hafter

variable [Save.KeyValueStore ν]

/-- Where an ending has just been set under way, the countdown begins at that moment. -/
theorem Step.countsDown [AddLeftMono τ] {permitted : Call τ → Prop} {e₀ e : Engine τ ν}
    (hstep : Step permitted e₀ e) (harmed : e₀.Armed) (hbefore : e₀.session.ending = false)
    (hafter : e.session.ending = true) (hgrace : 0 ≤ e₀.timing.endGrace) :
    e.CountsDown e.session (e.agenda.now + e₀.timing.endGrace) := by
  have hbegins : ∃ b : Engine τ ν, b.Clears ∧ b.session.view = .playing ∧
      b.timing = e₀.timing ∧ e = b.beginEnding.engine := by
    cases hstep with
    | request hcall hgranted =>
      rcases Engine.outcome_cases hgranted with hturn | ⟨id, node, hnode, rfl, horigin⟩
      · obtain ⟨rfl, hview⟩ := hturn.eq_beginEnding hbefore hafter
        exact ⟨e₀, harmed.clears, hview, rfl, rfl⟩
      · unfold Engine.beginSession at hafter
        rw [Engine.enter_session] at hafter
        cases hafter
    | alarm hdue =>
      obtain ⟨-, hpopped⟩ := Engine.Sets.pop harmed hdue
      exact hpopped.fire_beginsEnding hbefore hafter
    | clock hquiet => cases hbefore.symm.trans hafter
    | saves saves => cases hbefore.symm.trans hafter
  obtain ⟨b, hclears, hview, htiming, rfl⟩ := hbegins
  have hnow : b.beginEnding.engine.agenda.now = b.agenda.now :=
    (Engine.SameTime.cancelTimers (e := b) ⟨rfl, rfl⟩).now
  rw [hnow, ← htiming]
  exact hclears.beginEnding_countsDown hview (htiming ▸ hgrace)

/-- The countdown of an ending cannot be disturbed except by leaving it. Once an ending has been set
under way, the session stays at its node, with the ending under way and manual pacing, whatever
steady or refused calls are made while the clock is short of the deadline, which comes when the
grace time has passed. A move of the clock that comes to an end at the deadline or later leaves the
title screen, and it stays; the rest of a move during which the ending began is such a move too. -/
theorem nothing_disturbs_an_ending [AddLeftMono τ] (script : Script) (hkeys : script.KeysAreIds)
    (timing : Timing τ) (hgrace : 0 ≤ timing.endGrace) (saves : Option (Save.Repository ν)) :
    (∀ (stamps : Stamps) (fuel : Nat) (calls : List (Call τ)),
      Steps (fun _ => True) (Engine.opening script timing saves)
        ((House.opening (Engine.opening script timing saves) stamps).play fuel calls).engine) ∧
      ∀ e₀ e : Engine τ ν, Steps (fun _ => True) (Engine.opening script timing saves) e₀ →
        Step (fun _ => True) e₀ e → e₀.session.ending = false → e.session.ending = true →
          e.CountsDown e.session (e.agenda.now + timing.endGrace) ∧
          ∀ h : House τ ν, h.Within Call.Steady →
            h.engine.Concludes e.session (e.agenda.now + timing.endGrace) →
            (h.engine.CountsDown e.session (e.agenda.now + timing.endGrace) →
              ∀ fuel target steps ran, h.Elapses e.session (e.agenda.now + timing.endGrace)
                (Timer.runUntil (fireAlarm (perform fuel)) target steps ran h)) ∧
            ∀ fuel calls, h.Bears fuel calls →
              ((h.play fuel calls).engine.agenda.now < e.agenda.now + timing.endGrace →
                (h.play fuel calls).engine.CountsDown e.session
                  (e.agenda.now + timing.endGrace)) ∧
              ∀ before call after, calls = before ++ call :: after → call.MovesClock →
                ((h.play fuel before).Silent → 4 ≤ fuel →
                  (perform fuel call (h.play fuel before)).1 ≠ .error .outOfFuel) ∧
                ((perform fuel call (h.play fuel before)).1 ≠ .error .outOfFuel →
                  e.agenda.now + timing.endGrace ≤
                    (perform fuel call (h.play fuel before)).2.engine.agenda.now →
                  (h.play fuel calls).engine.session = {}) := by
  constructor
  · intro stamps fuel calls
    exact House.play_steps fuel calls (fun call _ => call.within_any) _ stamps
  · intro e₀ e hsteps hstep hbefore hafter
    have htiming : e₀.timing = timing := Steps.timing hsteps
    have harmed : e₀.Armed := Steps.armed hsteps hkeys (Session.sound_initial script)
      (Engine.opening_sets script timing saves)
    have hbegins := hstep.countsDown harmed hbefore hafter (htiming.symm ▸ hgrace)
    rw [htiming] at hbegins
    refine ⟨hbegins, fun h hw hconcludes => ⟨?_, ?_⟩⟩
    · intro hcounts fuel target steps ran
      exact (hcounts.elapses_runUntil (perform_persists fuel) hw target steps ran).1
    · intro fuel calls hbears
      refine ⟨?_, ?_⟩
      · intro hearly
        obtain ⟨-, hconcludes', -⟩ := hbears.persists hw hconcludes
        exact hconcludes'.resolve_right fun hclosed => absurd hearly (not_lt.mpr hclosed.now)
      · rintro before call after rfl hclock
        obtain ⟨hbears', hcall, hrest⟩ := House.bears_append.mp hbears
        obtain ⟨hw', hconcludes', -⟩ := hbears'.persists hw hconcludes
        refine ⟨fun hsilent hfuel => ne_outOfFuel_of_silent hclock hsilent hconcludes' hfuel, ?_⟩
        intro hdone hlate
        have helapses := perform_elapses hclock (hclock.steady hcall) hw' hconcludes' fuel
        have hclosed := (helapses.decided hdone).resolve_left (not_lt.mpr hlate)
        obtain ⟨-, -, hstays⟩ := hrest.persists helapses.within helapses.concludes
        have hsplit : h.play fuel (before ++ call :: after) =
            (perform fuel call (h.play fuel before)).2.play fuel after := List.foldl_append
        rw [hsplit]
        exact (hstays hclosed).session

/-- The story with its last line shown. -/
def forkLastLine : House Nat Save.MemoryStore :=
  forkOpening.play 40 [.newGame, .wait 45, .advance, .choose 0, .advance]

/-- The story with the ending under way. -/
def forkEnding : House Nat Save.MemoryStore := forkLastLine.play 40 [.advance]

theorem forkEnding_bears : forkEnding.Bears 40
    ([.choose 0, .fastForward true, .wait 2999] ++ [.load 1, .wait 1]) := by
  refine ⟨.inl ?_, .inl ?_, .inl ?_, .inr ⟨.load 1 _, .inl ?_⟩, .inl ?_, trivial⟩
  · exact Call.within_of_plain rfl trivial
  · exact Call.within_of_plain rfl trivial
  · exact Call.within_of_plain rfl (Nat.zero_le 2999)
  · exact Option.isNone_iff_eq_none.mp (by decide +kernel)
  · exact Call.within_of_plain rfl (Nat.zero_le 1)

theorem nothing_disturbs_an_ending_in_a_story :
    forkScript.KeysAreIds ∧ 0 ≤ Timing.usual.endGrace ∧ forkLastLine.engine.session.ending = false ∧
      forkEnding.engine.session.ending = true ∧
      (forkEnding.play 40 [.choose 0, .fastForward true, .wait 2999]).engine.session.current =
        some "left" ∧
      (forkEnding.play 40 [.choose 0, .fastForward true, .wait 2999, .load 1,
        .wait 1]).engine.session = {} := by
  have hkeys : forkScript.KeysAreIds := Compiler.keysAreIds_compile {} forkText
  have hgrace : 0 ≤ Timing.usual.endGrace := Nat.zero_le _
  have hbefore : forkLastLine.engine.session.ending = false := by decide +kernel
  have hafter : forkEnding.engine.session.ending = true := by decide +kernel
  have hplace : forkEnding.engine.session.current = some "left" := by decide +kernel
  have hmoment : forkEnding.engine.agenda.now = 45 := by decide +kernel
  refine ⟨hkeys, hgrace, hbefore, hafter, ?_⟩
  obtain ⟨hruns, hendings⟩ := nothing_disturbs_an_ending (ν := Save.MemoryStore) forkScript hkeys
    Timing.usual hgrace none
  have hreached : Steps (fun _ => True) (Engine.opening forkScript Timing.usual none)
      forkLastLine.engine := hruns ⟨[], 0⟩ 40 _
  have hunwatched : forkLastLine.listeners.isEmpty = true := by decide +kernel
  have hsilent : forkLastLine.Silent := by
    intro listener hmem
    rw [List.isEmpty_iff.mp hunwatched] at hmem
    cases hmem
  have hgranted : forkLastLine.engine.outcome .advance = some (.ok forkLastLine.engine.advance) :=
    rfl
  obtain ⟨hengine, hlisteners⟩ := hsilent.play_request hgranted 39
  have hstep : Step (fun _ => True) forkLastLine.engine forkEnding.engine := by
    unfold forkEnding
    rw [hengine]
    exact .request trivial hgranted
  have hquiet : forkEnding.Silent := hsilent.of_listeners hlisteners
  obtain ⟨hbegins, hlasts⟩ := hendings _ _ hreached hstep hbefore hafter
  obtain ⟨-, hcalls⟩ := hlasts forkEnding hquiet.within (.inl hbegins)
  obtain ⟨hearly, -⟩ := hcalls 40 _ (House.bears_append.mp forkEnding_bears).1
  obtain ⟨-, hlate⟩ := hcalls 40 _ forkEnding_bears
  rw [hmoment] at hearly hlate
  have hcounts := hearly (by decide +kernel)
  have hstays := hcounts.remains.current
  obtain ⟨-, htitle⟩ := hlate [.choose 0, .fastForward true, .wait 2999, .load 1] (.wait 1) [] rfl
    (.wait 1)
  have hclosed := htitle (ne_outOfFuel_of_isOk (by decide +kernel)) (by decide +kernel)
  have hcalls : [Call.choose 0, .fastForward true, .wait 2999, .load 1, .wait 1] =
      ([.choose 0, .fastForward true, .wait 2999] ++ [.load 1, .wait 1] : List (Call Nat)) := rfl
  constructor
  · rw [hstays, hplace]
  · rw [hcalls, hclosed]

end VisualNovel.Playback
