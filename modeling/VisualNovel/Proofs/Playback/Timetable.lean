import Mathlib.Algebra.Order.Ring.Nat
import Mathlib.Order.Monotone.Basic
import VisualNovel.Proofs.Playback.Pace
import VisualNovel.Proofs.Playback.TimeAlone
import VisualNovel.Proofs.Playback.Typewriter

/-!
When play by itself does what. From the moment at which a node is entered, a timetable tells when
each character of its text appears and when the node is left, and play keeps to it, into however
many moves of the clock the time is cut.
-/
namespace VisualNovel.Playback

open Relation

variable {τ ν : Type}

/-- When the characters of a text are to appear, and when play is to go on. -/
structure Timetable (τ : Type) where
  start : τ
  /-- How long it takes until the next character. -/
  interval : τ
  length : Nat
  /-- How long the complete text stays, if play goes on by itself. -/
  pause : Option τ

/-- No delay turns the clock back. -/
structure Timing.NonNegative [Zero τ] [LE τ] (t : Timing τ) : Prop where
  revealInterval : 0 ≤ t.revealInterval
  fastRevealInterval : 0 ≤ t.fastRevealInterval
  fastForwardDelay : 0 ≤ t.fastForwardDelay
  autoMinDelay : 0 ≤ t.autoMinDelay
  autoMaxDelay : 0 ≤ t.autoMaxDelay

section Times
variable [Semiring τ]

/-- How long a complete text stays. Without automatic pacing it stays for good. -/
def Timing.pauseAfter [LinearOrder τ] (t : Timing τ) (length : Nat) : Pacing → Option τ
  | .manual => none
  | .auto => some (min (max (length * t.autoSecondsPerChar) t.autoMinDelay) t.autoMaxDelay)
  | .fastForward => some t.fastForwardDelay

namespace Timetable

/-- When so many characters are to be there. -/
def shown (t : Timetable τ) (count : Nat) : τ := t.start + count * t.interval

/-- When play is to go on. -/
def left? (t : Timetable τ) : Option τ := t.pause.map fun pause => t.shown t.length + pause

/-- What is to come next when so many characters are there. -/
def next? (t : Timetable τ) (count : Nat) : Option τ :=
  if count < t.length then some (t.shown (count + 1)) else t.left?

/-- Nothing is to happen before what it follows. -/
structure Ordered [LinearOrder τ] (t : Timetable τ) : Prop where
  interval : 0 ≤ t.interval
  pause : ∀ pause, t.pause = some pause → 0 ≤ pause

variable {t : Timetable τ}

theorem shown_zero : t.shown 0 = t.start := by
  simp [shown]

theorem shown_succ (count : Nat) : t.shown (count + 1) = t.shown count + t.interval := by
  simp only [shown, Nat.cast_succ, add_mul, one_mul, add_assoc]

theorem next?_of_lt {count : Nat} (h : count < t.length) :
    t.next? count = some (t.shown (count + 1)) := if_pos h

theorem next?_length : t.next? t.length = t.left? := if_neg (Nat.lt_irrefl _)

variable [LinearOrder τ] [AddLeftMono τ]

theorem Ordered.shown_mono (h : t.Ordered) : Monotone t.shown := by
  refine monotone_nat_of_le_succ fun count => ?_
  rw [shown_succ]
  exact le_add_of_nonneg_right h.interval

theorem Ordered.shown_le_left (h : t.Ordered) {due : τ} (hdue : t.left? = some due) :
    t.shown t.length ≤ due := by
  obtain ⟨pause, hpause, rfl⟩ := Option.map_eq_some_iff.mp hdue
  exact le_add_of_nonneg_right (h.pause pause hpause)

/-- What comes next is no later than the end. -/
theorem Ordered.next?_le_left (h : t.Ordered) {count : Nat} (hcount : count ≤ t.length)
    {next due : τ} (hnext : t.next? count = some next) (hdue : t.left? = some due) :
    next ≤ due := by
  rcases Nat.lt_or_eq_of_le hcount with hless | rfl
  · rw [next?_of_lt hless, Option.some.injEq] at hnext
    rw [← hnext]
    exact (h.shown_mono hless).trans (h.shown_le_left hdue)
  · rw [next?_length, hdue, Option.some.injEq] at hnext
    exact hnext.ge

end Timetable

variable [LinearOrder τ]

theorem Timing.NonNegative.interval {t : Timing τ} (h : t.NonNegative) (pacing : Pacing) :
    0 ≤ t.revealIntervalFor pacing := by
  unfold revealIntervalFor
  split
  · exact h.fastRevealInterval
  · exact h.revealInterval

theorem Timing.NonNegative.pause {t : Timing τ} (h : t.NonNegative) {length : Nat}
    {pacing : Pacing} {pause : τ} (hpause : t.pauseAfter length pacing = some pause) :
    0 ≤ pause := by
  cases pacing with
  | manual => cases hpause
  | auto =>
    cases hpause
    exact le_min (le_max_of_le_right h.autoMinDelay) h.autoMaxDelay
  | fastForward =>
    cases hpause
    exact h.fastForwardDelay

namespace Engine

/-- The timetable of a node that has just been entered. -/
def timetable (e : Engine τ ν) (node : Node) : Timetable τ where
  start := e.agenda.now
  interval := e.timing.revealIntervalFor e.session.pacing
  length := node.text.length
  pause := e.timing.pauseAfter node.text.length e.session.pacing

theorem timetable_ordered {e : Engine τ ν} (h : e.timing.NonNegative) (node : Node) :
    (e.timetable node).Ordered where
  interval := h.interval _
  pause _ hpause := h.pause hpause

end Engine

end Times

theorem Session.SameSpot.of_unfolds {x y : Session} {text : String} (h : x.Unfolds y text) :
    x.SameSpot y := by
  rw [h.only]
  exact ⟨rfl, rfl, rfl, rfl⟩

section Engines

namespace Engine

theorem Stands.awaited_eq {e : Engine τ ν} {s : Script} {node : Node} (h : e.Stands s node)
    (hchoices : node.choices = []) (hvideo : node.hasVideo = false) :
    e.awaited = if e.session.reveal = .revealing then some .revealTick
      else if e.session.pacing = .manual then none else some .pacingFire := by
  unfold awaited
  rw [h.current]
  simp [h.ending, Node.isDecision, hchoices, hvideo]

variable [Semiring τ] [LinearOrder τ]

/-- Nothing stops play at a node of a script, and its delays do not turn the clock back. -/
structure Flows (origin : Engine τ ν) (node : Node) : Prop where
  keys : origin.script.KeysAreIds
  delays : origin.timing.NonNegative
  choices : node.choices = []
  video : node.hasVideo = false

/-- The node that has been entered in `origin` is still shown, and what its timetable says has come
so far. The next timer is due when the next thing is to come. -/
structure OnTime (origin e : Engine τ ν) (node : Node) : Prop
    extends e.Stands origin.script node where
  unfolds : origin.session.Unfolds e.session node.text
  timing : e.timing = origin.timing
  shown : (origin.timetable node).shown e.session.progress ≤ e.agenda.now
  due : e.agenda.nextDue? = (origin.timetable node).next? e.session.progress
  prompt : ∀ t ∈ e.agenda.queue, e.agenda.now ≤ t.due

/-- The node that has been entered in `origin` has just been left, when its timetable says so. -/
structure LeftOnTime (origin e : Engine τ ν) (node : Node) : Prop where
  onward : (origin.session.onward (origin.successor node)).SameSpot e.session
  moment : (origin.timetable node).left? = some e.agenda.now

theorem pauseAfter_eq {e : Engine τ ν} {node : Node} (hcurrent : e.currentNode = some node) :
    e.timing.pauseAfter node.text.length e.session.pacing =
      if e.session.pacing = .manual then none else some (e.delayFor .pacingFire) := by
  unfold delayFor
  cases e.session.pacing <;>
    simp [Timing.pauseAfter, Timing.autoDelay, Timer.earlier_eq_min, Timer.later_eq_max, hcurrent]

variable {origin e : Engine τ ν} {node : Node}

theorem OnTime.progress_le (h : origin.OnTime e node) : e.session.progress ≤ node.text.length :=
  h.unfolds.within

/-- What is set at a moment at which something has come is set for what comes next. -/
theorem OnTime.of_justSet [AddLeftMono τ] (hflows : origin.Flows node)
    (hstands : e.Stands origin.script node)
    (hunfolds : origin.session.Unfolds e.session node.text) (htiming : e.timing = origin.timing)
    (hset : e.JustSet)
    (hnow : e.agenda.now = (origin.timetable node).shown e.session.progress) :
    origin.OnTime e node where
  toStands := hstands
  unfolds := hunfolds
  timing := htiming
  shown := hnow.ge
  prompt t ht := by
    rw [hset t ht]
    exact le_add_of_nonneg_right (Timer.later_nonneg _)
  due := by
    have hpacing : e.session.pacing = origin.session.pacing := by rw [hunfolds.only]
    obtain ⟨-, hat⟩ := at_of_currentNode hstands.sound hstands.current
    rw [hset.nextDue? hstands.armed, hstands.awaited_eq hflows.choices hflows.video, hnow]
    cases hreveal : e.session.reveal with
    | revealing =>
      have hinterval : e.delayFor .revealTick = (origin.timetable node).interval := by
        rw [timetable, ← htiming, ← hpacing]
        rfl
      have hforward : 0 ≤ (origin.timetable node).interval := hflows.delays.interval _
      rw [if_pos rfl, Option.map_some, hinterval, Timer.later_eq_right hforward,
        ← Timetable.shown_succ]
      exact (Timetable.next?_of_lt (hstands.progress_lt hreveal)).symm
    | revealed =>
      have hfull : e.session.progress = (origin.timetable node).length := hat.reveal.mp hreveal
      have hpause : (origin.timetable node).pause =
          if e.session.pacing = .manual then none else some (e.delayFor .pacingFire) := by
        rw [timetable, ← htiming, ← hpacing]
        exact pauseAfter_eq hstands.current
      rw [if_neg (by simp), hfull, Timetable.next?_length, Timetable.left?, hpause]
      split
      · rfl
      · next hgoes =>
        rw [if_neg hgoes] at hpause
        have hwaits : 0 ≤ e.delayFor .pacingFire :=
          (timetable_ordered hflows.delays node).pause _ hpause
        rw [Option.map_some, Option.map_some, Timer.later_eq_right hwaits]

namespace OnTime

theorem now_le_next (h : origin.OnTime e node) {due : τ}
    (hnext : e.agenda.nextDue? = some due) : e.agenda.now ≤ due := by
  obtain ⟨t, hhead, rfl⟩ := Option.map_eq_some_iff.mp hnext
  exact h.prompt t (List.mem_of_mem_head? hhead)

theorem withClock (h : origin.OnTime e node) {target : τ}
    (hquiet : e.agenda.pop? target = none) (hnow : e.agenda.now ≤ target) :
    origin.OnTime { e with agenda := { e.agenda with now := target } } node where
  toStands := h.toStands.withClock target
  unfolds := h.unfolds
  timing := h.timing
  shown := h.shown.trans hnow
  due := h.due
  prompt t ht := (h.armed.coming hquiet t ht).le

theorem withSaves (h : origin.OnTime e node) (saves : Option (Save.Repository ν)) :
    origin.OnTime { e with saves } node where
  toStands := h.toStands.withSaves saves
  unfolds := h.unfolds
  timing := h.timing
  shown := h.shown
  due := h.due
  prompt := h.prompt

variable [AddLeftMono τ]

theorem le_progress_iff (h : origin.OnTime e node) (hflows : origin.Flows node) {clock : τ}
    (hclock : e.agenda.now ≤ clock)
    (hcoming : ∀ due, e.agenda.nextDue? = some due → clock < due) {count : Nat}
    (hcount : count ≤ node.text.length) :
    count ≤ e.session.progress ↔ (origin.timetable node).shown count ≤ clock := by
  have hmono := (timetable_ordered hflows.delays node).shown_mono
  constructor
  · intro hshown
    exact (hmono hshown).trans (h.shown.trans hclock)
  · intro hshown
    by_contra hmissing
    have hless : e.session.progress < count := Nat.lt_of_not_le hmissing
    have hnext := h.due.trans (Timetable.next?_of_lt (hless.trans_le hcount))
    exact absurd ((hmono hless).trans hshown) (not_le.mpr (hcoming _ hnext))

theorem lt_left (h : origin.OnTime e node) (hflows : origin.Flows node) {clock : τ}
    (hcoming : ∀ due, e.agenda.nextDue? = some due → clock < due) {due : τ}
    (hdue : (origin.timetable node).left? = some due) : clock < due := by
  have hordered := timetable_ordered hflows.delays node
  cases hnext : (origin.timetable node).next? e.session.progress with
  | none =>
    rcases Nat.lt_or_eq_of_le h.progress_le with hless | hfull
    · rw [Timetable.next?_of_lt hless] at hnext
      cases hnext
    · rw [hfull] at hnext
      exact absurd (hdue.symm.trans (Timetable.next?_length.symm.trans hnext)) (by simp)
  | some next =>
    exact (hcoming next (h.due.trans hnext)).trans_le
      (hordered.next?_le_left h.progress_le hnext hdue)

/-- A timer runs when the next thing is to come, and brings it about: one more character, or the end
of the visit. -/
theorem fire (h : origin.OnTime e node) (hflows : origin.Flows node) {target : τ}
    {entry : Timer.Entry τ Alarm} {rest : Timer.Agenda τ Alarm}
    (hdue : e.agenda.pop? target = some (entry, rest)) {e' : Engine τ ν}
    (hfired : e' = (({ e with agenda := rest } : Engine τ ν).fire entry.task).engine) :
    e.agenda.now ≤ e'.agenda.now ∧ e'.agenda.now ≤ target ∧
      (origin.OnTime e' node ∧ e'.session.progress = e.session.progress + 1 ∧
          e'.agenda.now = (origin.timetable node).shown e'.session.progress ∨
        origin.LeftOnTime e' node) := by
  obtain ⟨hawaited, hpopped⟩ := Engine.Sets.pop h.armed hdue
  obtain ⟨queue, hqueue, htarget, rfl⟩ := Timer.Agenda.pop?_eq_some hdue
  -- The clock moves to the due time, which has not passed, and stands there while the timer runs.
  have hahead : e.agenda.now ≤ entry.due := h.prompt entry (hqueue ▸ List.mem_cons_self)
  have hsame := Engine.fire_sameTime ({ e with agenda := { e.agenda with
    now := Timer.later e.agenda.now entry.due, queue } } : Engine τ ν) entry.task
  have hnow : e'.agenda.now = entry.due := by
    rw [hfired, hsame.now]
    exact Timer.later_eq_right hahead
  have hnext : (origin.timetable node).next? e.session.progress = some entry.due := by
    rw [← h.due, Timer.Agenda.nextDue?, hqueue]
    rfl
  rw [hnow]
  refine ⟨hahead, not_lt.mp htarget, ?_⟩
  cases hreveal : e.session.reveal with
  | revealing =>
    obtain ⟨hstands, hremains, hprogress⟩ := h.tick hflows.keys hreveal hdue
    rw [← hfired] at hstands hremains hprogress
    have hmoment : entry.due = (origin.timetable node).shown e'.session.progress := by
      rw [Timetable.next?_of_lt (h.progress_lt hreveal), Option.some.injEq] at hnext
      rw [← hnext, hprogress]
    refine Or.inl ⟨.of_justSet hflows hstands ?_ ?_ ?_ (hnow.trans hmoment), hprogress, hmoment⟩
    · rw [hfired]
      exact h.unfolds.trans (h.unfolds_tick hreveal hdue)
    · rw [hfired]
      exact hsame.timing.trans h.timing
    · rw [hfired]
      exact hpopped.fire_justSet
  | revealed =>
    obtain ⟨-, hat⟩ := at_of_currentNode h.sound h.current
    have hfull : e.session.progress = (origin.timetable node).length := hat.reveal.mp hreveal
    rw [hfull, Timetable.next?_length] at hnext
    have hkind : entry.task.kind = .pacingFire := by
      rw [h.awaited_eq hflows.choices hflows.video, if_neg (by simp [hreveal])] at hawaited
      split at hawaited
      · cases hawaited
      · exact (Option.some.inj hawaited).symm
    have hspot : origin.session.SameSpot e.session := .of_unfolds h.unfolds
    refine Or.inr ⟨(hspot.onward _).trans ?_, hnow ▸ hnext⟩
    rw [hfired, hpopped.fire_eq, hkind, ← successor_congr h.script]
    exact advance_onward (e := { e with
      agenda := { e.agenda with now := Timer.later e.agenda.now entry.due, queue }
      pacingTimer := none }) h.current h.ending hflows.video hflows.choices hreveal

end OnTime

variable [Save.KeyValueStore ν]

/-- Time passes, and nobody does anything. -/
def Lapse (e e' : Engine τ ν) : Prop := Step Call.MovesClock e e' ∧ e.agenda.now ≤ e'.agenda.now

abbrev Lapses : Engine τ ν → Engine τ ν → Prop := ReflTransGen Lapse

variable [AddLeftMono τ]

/-- What can be seen to happen while time passes: nothing, one more character at its time, or the
end of the visit at its time. -/
theorem OnTime.lapse (h : origin.OnTime e node) (hflows : origin.Flows node) {e' : Engine τ ν}
    (hlapse : e.Lapse e') :
    origin.OnTime e' node ∧ (e'.session = e.session ∨
        e'.session.progress = e.session.progress + 1 ∧
          e'.agenda.now = (origin.timetable node).shown e'.session.progress) ∨
      origin.LeftOnTime e' node := by
  obtain ⟨hstep, hnow⟩ := hlapse
  cases hstep with
  | request hcall hgranted =>
    cases hcall with
    | wait seconds => cases hgranted
    | idle limit => cases hgranted
  | alarm hdue =>
    obtain ⟨-, -, ⟨htime, hgrows⟩ | hleft⟩ := h.fire hflows hdue rfl
    · exact Or.inl ⟨htime, Or.inr hgrows⟩
    · exact Or.inr hleft
  | clock hquiet => exact Or.inl ⟨h.withClock hquiet hnow, Or.inl rfl⟩
  | saves saves => exact Or.inl ⟨h.withSaves saves, Or.inl rfl⟩

/-- The visit goes on, or has come to its end at its time. -/
theorem OnTime.lapses (h : origin.OnTime e node) (hflows : origin.Flows node) {e' : Engine τ ν}
    (hlapses : e.Lapses e') : origin.OnTime e' node ∨
      ∃ e₁ : Engine τ ν, e.Lapses e₁ ∧ origin.LeftOnTime e₁ node ∧ e₁.Lapses e' := by
  induction hlapses with
  | refl => exact Or.inl h
  | tail hlapses hlapse ih =>
    rcases ih with htime | ⟨e₁, hbefore, hleft, hafter⟩
    · rcases htime.lapse hflows hlapse with ⟨htime', -⟩ | hleft
      · exact Or.inl htime'
      · exact Or.inr ⟨_, hlapses.tail hlapse, hleft, .refl⟩
    · exact Or.inr ⟨e₁, hbefore, hleft, hafter.tail hlapse⟩

end Engine

end Engines

end VisualNovel.Playback
