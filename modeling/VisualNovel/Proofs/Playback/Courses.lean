import VisualNovel.Proofs.Playback.Waits

/-!
The events of a run, in order: requests that are granted and timers that run. Only events change
what is shown, and one that does issues the new frame, once it has had its effect.
-/
namespace VisualNovel.Playback

inductive Cause (τ : Type) where
  | request (call : Call τ)
  | timer (kind : AlarmKind)

structure Event (τ ν : Type) where
  cause : Cause τ
  before : Engine τ ν
  change : Change τ ν

variable {τ ν : Type}

/-- The frame that an event issues, if those who watch are to be told of it. -/
def Event.frame? (ev : Event τ ν) : Option Frame :=
  if ev.change.told then some ev.change.engine.frame else none

def issued (events : List (Event τ ν)) : List Frame := events.filterMap Event.frame?

theorem issued_cons (ev : Event τ ν) (events : List (Event τ ν)) :
    issued (ev :: events) = ev.frame?.toList ++ issued events := by
  unfold issued
  cases hframe : ev.frame? <;> simp [hframe]

theorem issued_append (events events' : List (Event τ ν)) :
    issued (events ++ events') = issued events ++ issued events' := List.filterMap_append

variable [Zero τ] [Add τ] [Mul τ] [NatCast τ] [LT τ] [DecidableLT τ]

section Courses
variable [Save.KeyValueStore ν]

inductive Event.Occurs : Event τ ν → Prop
  | request {e : Engine τ ν} {call : Call τ} {c : Change τ ν}
      (hgranted : e.outcome call = some (.ok c)) : Event.Occurs ⟨.request call, e, c⟩
  | timer {e : Engine τ ν} {target : τ} {entry : Timer.Entry τ Alarm} {rest : Timer.Agenda τ Alarm}
      (hdue : e.agenda.pop? target = some (entry, rest)) :
      Event.Occurs
        ⟨.timer entry.task.kind, e, ({ e with agenda := rest } : Engine τ ν).fire entry.task⟩

/-- A run, with its events. In between, the clock is set and saves are written. -/
inductive Engine.Course : Engine τ ν → List (Event τ ν) → Engine τ ν → Prop
  | nil (e : Engine τ ν) : Engine.Course e [] e
  | event {ev : Event τ ν} {events : List (Event τ ν)} {e' : Engine τ ν} (hoccurs : ev.Occurs)
      (hrest : Engine.Course ev.change.engine events e') : Engine.Course ev.before (ev :: events) e'
  | clock {e e' : Engine τ ν} {events : List (Event τ ν)} {target : τ}
      (hquiet : e.agenda.pop? target = none)
      (hrest : Engine.Course { e with agenda := { e.agenda with now := target } } events e') :
      Engine.Course e events e'
  | saves {e e' : Engine τ ν} {events : List (Event τ ν)} (saves : Option (Save.Repository ν))
      (hrest : Engine.Course { e with saves } events e') : Engine.Course e events e'

theorem Event.Occurs.step {ev : Event τ ν} (h : ev.Occurs) :
    Step (fun _ => True) ev.before ev.change.engine := by
  cases h with
  | request hgranted => exact .request trivial hgranted
  | timer hdue => exact .alarm hdue

namespace Engine.Course

variable {e e' e'' : Engine τ ν} {events events' : List (Event τ ν)}

theorem single {ev : Event τ ν} (h : ev.Occurs) : ev.before.Course [ev] ev.change.engine :=
  .event h (.nil _)

theorem append (h : e.Course events e') (h' : e'.Course events' e'') :
    e.Course (events ++ events') e'' := by
  induction h with
  | nil => exact h'
  | event hoccurs hrest ih => exact .event hoccurs (ih h')
  | clock hquiet hrest ih => exact .clock hquiet (ih h')
  | saves saves hrest ih => exact .saves saves (ih h')

theorem exists_of_append (h : e.Course (events ++ events') e') :
    ∃ between, e.Course events between ∧ between.Course events' e' := by
  generalize hall : events ++ events' = all at h
  induction h generalizing events with
  | nil last =>
    obtain ⟨rfl, rfl⟩ := List.append_eq_nil_iff.mp hall
    exact ⟨last, .nil last, .nil last⟩
  | @event ev rest last hoccurs hrest ih =>
    cases events with
    | nil =>
      obtain rfl : events' = ev :: rest := hall
      exact ⟨_, .nil _, .event hoccurs hrest⟩
    | cons first events =>
      obtain ⟨rfl, hmore⟩ := List.cons.inj hall
      obtain ⟨between, hbefore, hafter⟩ := ih hmore
      exact ⟨between, .event hoccurs hbefore, hafter⟩
  | clock hquiet hrest ih =>
    obtain ⟨between, hbefore, hafter⟩ := ih hall
    exact ⟨between, .clock hquiet hbefore, hafter⟩
  | saves saves hrest ih =>
    obtain ⟨between, hbefore, hafter⟩ := ih hall
    exact ⟨between, .saves saves hbefore, hafter⟩

/-- Before the first event, only the clock is set and saves are written. -/
theorem exists_of_cons {ev : Event τ ν} (h : e.Course (ev :: events) e') :
    Steps (fun _ => True) e ev.before ∧ ev.Occurs ∧ ev.change.engine.Course events e' := by
  generalize hall : ev :: events = all at h
  induction h with
  | nil => cases hall
  | event hoccurs hrest ih =>
    obtain ⟨rfl, rfl⟩ := List.cons.inj hall
    exact ⟨.refl, hoccurs, hrest⟩
  | clock hquiet hrest ih =>
    obtain ⟨hbefore, hafter⟩ := ih hall
    exact ⟨hbefore.head (.clock hquiet), hafter⟩
  | saves saves hrest ih =>
    obtain ⟨hbefore, hafter⟩ := ih hall
    exact ⟨hbefore.head (.saves saves), hafter⟩

theorem steps (h : e.Course events e') : Steps (fun _ => True) e e' := by
  induction h with
  | nil => exact .refl
  | event hoccurs hrest ih => exact ih.head hoccurs.step
  | clock hquiet hrest ih => exact ih.head (.clock hquiet)
  | saves saves hrest ih => exact ih.head (.saves saves)

/-- A run leads to each of its events. -/
theorem exists_event {ev : Event τ ν} {later : List (Event τ ν)}
    (h : e.Course (events ++ ev :: later) e') :
    Steps (fun _ => True) e ev.before ∧ ev.Occurs ∧ ev.change.engine.Course later e' := by
  obtain ⟨between, hbefore, hafter⟩ := h.exists_of_append
  obtain ⟨hsteps, hoccurs, hlater⟩ := hafter.exists_of_cons
  exact ⟨hbefore.steps.trans hsteps, hoccurs, hlater⟩

end Engine.Course

theorem Steps.exists_course {permitted : Call τ → Prop} {e e' : Engine τ ν}
    (h : Steps permitted e e') : ∃ events, e.Course events e' := by
  induction h with
  | refl => exact ⟨[], .nil e⟩
  | tail hsteps hstep ih =>
    obtain ⟨events, hcourse⟩ := ih
    cases hstep with
    | request hcall hgranted => exact ⟨_, hcourse.append (.single (.request hgranted))⟩
    | alarm hdue => exact ⟨_, hcourse.append (.single (.timer hdue))⟩
    | clock hquiet => exact ⟨_, hcourse.append (.clock hquiet (.nil _))⟩
    | saves saves => exact ⟨_, hcourse.append (.saves saves (.nil _))⟩

end Courses

namespace Engine

theorem enter_told (e : Engine τ ν) (node : Node) : (e.enter node).told = true := by
  unfold enter
  dsimp only
  split <;> rfl

end Engine

/-- A turn of which nobody is told changes nothing. -/
theorem Turn.told_or_stays {e : Engine τ ν} {c : Change τ ν} (h : Turn e c) :
    c.told = true ∨ c = e.quiet := by
  cases h with
  | stay => exact Or.inr rfl
  | follow pacing hcurrent hending hlink => exact Or.inl (Engine.enter_told _ _)
  | back hview hentry hnode => exact Or.inl (Engine.enter_told _ _)
  | pace pacing =>
    unfold Engine.setPacing
    split
    · exact Or.inr rfl
    · exact Or.inl rfl
  | title | complete | finish | cue | browse => exact Or.inl rfl

/-- A timer of which nobody is told when it runs leaves the frame as it was. -/
theorem Engine.fire_told_or_same (e : Engine τ ν) (alarm : Alarm) :
    (e.fire alarm).told = true ∨ (e.fire alarm).engine.frame = e.frame := by
  unfold fire
  split
  · exact Or.inr rfl
  · split
    · cases hcurrent : e.currentNode with
      | none =>
        rw [revealTick_of_none hcurrent]
        exact Or.inr rfl
      | some node =>
        rw [revealTick_of_some hcurrent]
        split <;> exact Or.inl rfl
    · rcases (turn_advance { e with pacingTimer := none }).told_or_stays with htold | hstays
      · exact Or.inl htold
      · rw [hstays]
        exact Or.inr rfl
    · exact Or.inl rfl

variable [Save.KeyValueStore ν]

/-- An event issues the frame that is to be shown from then on, or leaves it as it was. -/
theorem Event.Occurs.frame_eq {ev : Event τ ν} (h : ev.Occurs) :
    ev.change.engine.frame = ev.frame?.getD ev.before.frame := by
  have hcases : ev.change.told = true ∨ ev.change.engine.frame = ev.before.frame := by
    cases h with
    | request hgranted =>
      rcases Engine.outcome_cases hgranted with hturn | ⟨id, node, hnode, rfl, horigin⟩
      · rcases hturn.told_or_stays with htold | rfl
        · exact Or.inl htold
        · exact Or.inr rfl
      · exact Or.inl (Engine.enter_told _ _)
    | @timer e target entry rest hdue =>
      exact ({ e with agenda := rest } : Engine τ ν).fire_told_or_same entry.task
  unfold frame?
  rcases hcases with htold | hsame
  · rw [htold]
    rfl
  · rw [hsame]
    split <;> rfl

/-- What is shown at the end of a run is what it has issued last, or what was shown before. -/
theorem Engine.Course.frame_eq {e e' : Engine τ ν} {events : List (Event τ ν)}
    (h : e.Course events e') : e'.frame = (issued events).getLast?.getD e.frame := by
  induction h with
  | nil => rfl
  | clock hquiet hrest ih => exact ih
  | saves saves hrest ih => exact ih
  | @event ev events last hoccurs hrest ih =>
    rw [ih, hoccurs.frame_eq, issued_cons, List.getLast?_append]
    cases (issued events).getLast? with
    | some f => rfl
    | none => cases ev.frame? <;> rfl

end VisualNovel.Playback
