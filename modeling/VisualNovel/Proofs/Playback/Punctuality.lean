import Mathlib.Algebra.Order.BigOperators.Group.List
import VisualNovel.Proofs.Playback.Timetable

/-!
Play by itself is punctual. Whoever looks on, each move of the clock shows the characters of a text
that its timetable has for the time gone by, and no more, and leaves the node when the timetable
says so. It does not matter into how many moves the time is cut.
-/
namespace VisualNovel.Playback

open Relation

variable {τ ν : Type}
variable [Save.KeyValueStore ν]
variable [Semiring τ] [LinearOrder τ]

section Moves

/-- By a deadline the node is still shown on time, and nothing more is due. -/
structure House.StaysOn (h : House τ ν) (origin : Engine τ ν) (node : Node) (deadline : τ)
    (h' : House τ ν) : Prop where
  silent : h'.Silent
  lapses : h.engine.Lapses h'.engine
  onTime : origin.OnTime h'.engine node
  coming : ∀ due, h'.engine.agenda.nextDue? = some due → deadline < due
  now : h'.engine.agenda.now ≤ deadline

/-- By a deadline the node has been left on time, whatever has come afterwards. -/
structure House.HasLeft (h : House τ ν) (origin : Engine τ ν) (node : Node) (deadline : τ)
    (h' : House τ ν) : Prop where
  within : h'.Within Call.MovesClock
  left : ∃ e : Engine τ ν, h.engine.Lapses e ∧ origin.LeftOnTime e node ∧
    e.agenda.now ≤ deadline ∧ Steps Call.MovesClock e h'.engine

variable {origin : Engine τ ν} {node : Node} {deadline : τ} {h h₁ h' : House τ ν}

theorem House.StaysOn.head (hlapses : h.engine.Lapses h₁.engine)
    (hstays : h₁.StaysOn origin node deadline h') : h.StaysOn origin node deadline h' :=
  { hstays with lapses := hlapses.trans hstays.lapses }

theorem House.HasLeft.head (hlapses : h.engine.Lapses h₁.engine)
    (hleft : h₁.HasLeft origin node deadline h') : h.HasLeft origin node deadline h' where
  within := hleft.within
  left := by
    obtain ⟨e, hbefore, hleft, hnow, hafter⟩ := hleft.left
    exact ⟨e, hlapses.trans hbefore, hleft, hnow, hafter⟩

theorem House.HasLeft.follows (hleft : h.HasLeft origin node deadline h₁)
    (hfollows : h₁.Follows Call.MovesClock h') : h.HasLeft origin node deadline h' where
  within := (hfollows hleft.within).within hleft.within
  left := by
    obtain ⟨e, hbefore, hgone, hnow, hafter⟩ := hleft.left
    exact ⟨e, hbefore, hgone, hnow, hafter.trans (hfollows hleft.within).steps⟩

theorem House.HasLeft.later {deadline' : τ} (hleft : h.HasLeft origin node deadline h')
    (hle : deadline ≤ deadline') : h.HasLeft origin node deadline' h' where
  within := hleft.within
  left := by
    obtain ⟨e, hbefore, hgone, hnow, hafter⟩ := hleft.left
    exact ⟨e, hbefore, hgone, hnow.trans hle, hafter⟩

namespace Engine.OnTime

variable [AddLeftMono τ]

section Clock
variable {perform : Call τ → HouseAction τ ν (Reply τ)}

/-- With fuel for each character that is still to come, for going on and for the clock, a move
reaches its target or the end of the visit. -/
theorem runUntil (htime : origin.OnTime h.engine node) (hflows : origin.Flows node)
    (hsilent : h.Silent) (hperform : Faithful Call.MovesClock perform)
    (hnow : h.engine.agenda.now ≤ deadline) {steps : Nat}
    (hsteps : node.text.length + 2 ≤ h.engine.session.progress + steps) (ran : Nat) :
    (∃ count h', Timer.runUntil (fireAlarm perform) deadline steps ran h = (.ok count, h') ∧
        h.StaysOn origin node deadline h' ∧ h'.engine.agenda.now = deadline) ∨
      h.HasLeft origin node deadline
        (Timer.runUntil (fireAlarm perform) deadline steps ran h).2 := by
  -- Each timer that runs takes one unit of fuel, and shows a character or ends the visit.
  induction steps generalizing h ran with
  | zero =>
    have hbound := htime.progress_le
    omega
  | succ steps ih =>
    cases hpop : h.engine.agenda.pop? deadline with
    | none =>
      refine Or.inl ⟨ran, _, Timer.runUntil_of_quiet (s := h) hpop steps ran, ?_, rfl⟩
      exact {
        silent := hsilent
        lapses := .single ⟨.clock hpop, hnow⟩
        onTime := htime.withClock hpop hnow
        coming := fun due hdue => Timer.Agenda.lt_of_nextDue? hpop hdue
        now := le_rfl }
    | some popped =>
      obtain ⟨entry, rest⟩ := popped
      obtain ⟨h₁, hengine, hsame, hrun⟩ := hsilent.exists_fired perform hpop
      obtain ⟨hforward, hbound, hcame⟩ := htime.fire hflows hpop hengine
      have hlapses : h.engine.Lapses h₁.engine := .single ⟨hengine ▸ .alarm hpop, hforward⟩
      have hsilent₁ : h₁.Silent := hsilent.of_listeners hsame
      rw [hrun]
      rcases hcame with ⟨htime₁, hprogress, -⟩ | hleft
      · rcases ih htime₁ hsilent₁ hbound (by omega) (ran + 1) with
          ⟨count, h', hdone, hstays, hclock⟩ | hgone
        · exact Or.inl ⟨count, h', hdone, hstays.head hlapses, hclock⟩
        · exact Or.inr (hgone.head hlapses)
      · have hfollows := runUntil_follows hperform deadline steps (ran + 1) h₁
        have hmoves := hfollows hsilent₁.within
        exact Or.inr ⟨hmoves.within hsilent₁.within, h₁.engine, hlapses, hleft, hbound,
          hmoves.steps⟩

theorem runUntilQuiet (htime : origin.OnTime h.engine node) (hflows : origin.Flows node)
    (hsilent : h.Silent) (hperform : Faithful Call.MovesClock perform)
    (hnow : h.engine.agenda.now ≤ deadline) {steps : Nat}
    (hsteps : node.text.length + 3 ≤ h.engine.session.progress + steps) (ran : Nat) :
    (∃ count h', Timer.runUntilQuiet (fireAlarm perform) deadline steps ran h = (.ok count, h') ∧
        h.StaysOn origin node deadline h') ∨
      h.HasLeft origin node deadline
        (Timer.runUntilQuiet (fireAlarm perform) deadline steps ran h).2 := by
  induction steps generalizing h ran with
  | zero =>
    have hbound := htime.progress_le
    omega
  | succ steps ih =>
    by_cases hidle : ∀ due, h.engine.agenda.nextDue? = some due → ¬ due ≤ deadline
    · refine Or.inl ⟨ran, h, Timer.runUntilQuiet_of_idle (s := h) hidle steps ran, ?_⟩
      exact ⟨hsilent, .refl, htime, fun due hdue => not_le.mp (hidle due hdue), hnow⟩
    · simp only [Classical.not_forall, Decidable.not_not] at hidle
      obtain ⟨due, hnext, hle⟩ := hidle
      have hahead : h.engine.agenda.now ≤ due := htime.now_le_next hnext
      rw [Timer.runUntilQuiet_of_due (s := h) hnext hle]
      have henough : node.text.length + 2 ≤ h.engine.session.progress + steps := by omega
      rcases htime.runUntil hflows hsilent hperform hahead henough 0 with
        ⟨more, h₁, hrun, hstays, hclock⟩ | hleft
      · rw [Timer.Action.seq_of_ok hrun]
        -- What was due has run, and it was a character, for the visit goes on.
        have hmore : h.engine.session.progress < h₁.engine.session.progress := by
          refine lt_of_le_of_ne ?_ ?_
          · exact (hstays.onTime.le_progress_iff hflows hstays.now hstays.coming
              htime.progress_le).mpr (htime.shown.trans hahead)
          · intro hsame
            have hnext₁ := hstays.onTime.due.trans (hsame ▸ htime.due.symm.trans hnext)
            exact lt_irrefl due (hstays.coming due hnext₁)
        rcases ih hstays.onTime hstays.silent (hclock.trans_le hle) (by omega) (ran + more) with
          ⟨count, h', hdone, hstays'⟩ | hleft
        · exact Or.inl ⟨count, h', hdone, hstays'.head hstays.lapses⟩
        · exact Or.inr (hleft.head hstays.lapses)
      · right
        rcases hrun : Timer.runUntil (fireAlarm perform) due steps 0 h with ⟨halt | more, h₁⟩
        · rw [hrun] at hleft
          rw [Timer.Action.seq_of_error hrun]
          exact hleft.later hle
        · rw [hrun] at hleft
          rw [Timer.Action.seq_of_ok hrun]
          exact (hleft.follows (runUntilQuiet_follows hperform _ _ _ _)).later hle

end Clock

/-- A wait, with fuel enough, takes the clock to its end or past the end of the visit. -/
theorem wait (htime : origin.OnTime h.engine node) (hflows : origin.Flows node)
    (hsilent : h.Silent) {fuel : Nat} (hfuel : node.text.length + 4 ≤ fuel) {seconds : τ}
    (hforward : 0 ≤ seconds) :
    (∃ count h', perform fuel (.wait seconds) h = (.ok (.count count), h') ∧
        h.StaysOn origin node (h.engine.agenda.now + seconds) h' ∧
        h'.engine.agenda.now = h.engine.agenda.now + seconds) ∨
      h.HasLeft origin node (h.engine.agenda.now + seconds) (perform fuel (.wait seconds) h).2 := by
  obtain ⟨less, rfl⟩ : ∃ less, fuel = less + 1 := ⟨fuel - 1, by omega⟩
  have henough : node.text.length + 2 ≤ h.engine.session.progress + less := by omega
  rcases htime.runUntil hflows hsilent (perform_faithful less) (le_add_of_nonneg_right hforward)
    henough 0 with ⟨count, h', hrun, hstays⟩ | hleft
  · exact Or.inl ⟨count, h', congrArg (replying .count) hrun, hstays⟩
  · exact Or.inr hleft

theorem idle (htime : origin.OnTime h.engine node) (hflows : origin.Flows node)
    (hsilent : h.Silent) {fuel : Nat} (hfuel : node.text.length + 4 ≤ fuel) {limit : τ}
    (hforward : 0 ≤ limit) :
    (∃ count h', perform fuel (.idle limit) h = (.ok (.count count), h') ∧
        h.StaysOn origin node (h.engine.agenda.now + limit) h') ∨
      h.HasLeft origin node (h.engine.agenda.now + limit) (perform fuel (.idle limit) h).2 := by
  obtain ⟨less, rfl⟩ : ∃ less, fuel = less + 1 := ⟨fuel - 1, by omega⟩
  have henough : node.text.length + 3 ≤ h.engine.session.progress + less := by omega
  rcases htime.runUntilQuiet hflows hsilent (perform_faithful less)
    (le_add_of_nonneg_right hforward) henough 0 with ⟨count, h', hrun, hstays⟩ | hleft
  · exact Or.inl ⟨count, h', congrArg (replying .count) hrun, hstays⟩
  · exact Or.inr hleft

/-- Waits one after the other come out as one for the whole time. -/
theorem waits (htime : origin.OnTime h.engine node) (hflows : origin.Flows node)
    (hsilent : h.Silent) {fuel : Nat} (hfuel : node.text.length + 4 ≤ fuel) {seconds : τ}
    {rest : List τ} (hspans : ∀ span ∈ seconds :: rest, 0 ≤ span) :
    (h.StaysOn origin node (h.engine.agenda.now + (seconds :: rest).sum)
        (h.play fuel ((seconds :: rest).map .wait)) ∧
      (h.play fuel ((seconds :: rest).map .wait)).engine.agenda.now =
        h.engine.agenda.now + (seconds :: rest).sum) ∨
      h.HasLeft origin node (h.engine.agenda.now + (seconds :: rest).sum)
        (h.play fuel ((seconds :: rest).map .wait)) := by
  induction rest generalizing h seconds with
  | nil =>
    rw [List.sum_singleton]
    rcases htime.wait hflows hsilent hfuel (hspans seconds List.mem_cons_self) with
      ⟨count, h', hrun, hstays⟩ | hleft
    · have hplay : h.play fuel [.wait seconds] = h' := congrArg Prod.snd hrun
      exact Or.inl (hplay ▸ hstays)
    · exact Or.inr hleft
  | cons next rest ih =>
    have hrest : ∀ span ∈ next :: rest, 0 ≤ span :=
      fun span hspan => hspans span (List.mem_cons_of_mem _ hspan)
    rw [List.sum_cons, ← add_assoc]
    rcases htime.wait hflows hsilent hfuel (hspans seconds List.mem_cons_self) with
      ⟨count, h₁, hrun, hstays, hclock⟩ | hleft
    · have hplay : h.play fuel ((seconds :: next :: rest).map .wait) =
          h₁.play fuel ((next :: rest).map .wait) :=
        congrArg (fun r => House.play fuel r.2 ((next :: rest).map .wait)) hrun
      rw [hplay, ← hclock]
      rcases ih hstays.onTime hstays.silent hrest with ⟨hstays', hclock'⟩ | hleft
      · exact Or.inl ⟨hstays'.head hstays.lapses, hclock'⟩
      · exact Or.inr (hleft.head hstays.lapses)
    · right
      have hlater : h.engine.agenda.now + seconds ≤
          h.engine.agenda.now + seconds + (next :: rest).sum :=
        le_add_of_nonneg_right (List.sum_nonneg hrest)
      have hcalls : ∀ call ∈ (next :: rest).map Call.wait, call.Within Call.MovesClock := by
        intro call hcall
        obtain ⟨span, -, rfl⟩ := List.mem_map.mp hcall
        exact (Call.MovesClock.wait span).within (.wait span)
      exact (hleft.follows (House.play_follows fuel _ hcalls _)).later hlater

end Engine.OnTime

/-- What has become of a node after time has passed up to a deadline. -/
structure Engine.Keeps (origin : Engine τ ν) (node : Node) (deadline : τ) (e e' : Engine τ ν) :
    Prop where
  /-- Before its end the visit goes on, and the characters are there that should be. -/
  stays : (∀ due, (origin.timetable node).left? = some due → deadline < due) →
    origin.OnTime e' node ∧ ∀ count ≤ node.text.length,
      (count ≤ e'.session.progress ↔ (origin.timetable node).shown count ≤ deadline)
  /-- The visit has ended at its end. -/
  leaves : ∀ due, (origin.timetable node).left? = some due → due ≤ deadline →
    ∃ e₁ : Engine τ ν, e.Lapses e₁ ∧ origin.LeftOnTime e₁ node ∧ Steps Call.MovesClock e₁ e'

theorem House.HasLeft.le_deadline (hleft : h.HasLeft origin node deadline h') :
    ∃ due, (origin.timetable node).left? = some due ∧ due ≤ deadline := by
  obtain ⟨e, -, hgone, hnow, -⟩ := hleft.left
  exact ⟨_, hgone.moment, hnow⟩

theorem House.HasLeft.keeps (hleft : h.HasLeft origin node deadline h') :
    origin.Keeps node deadline h.engine h'.engine where
  stays hearly := by
    obtain ⟨due, hdue, hle⟩ := hleft.le_deadline
    exact absurd (hearly due hdue) (not_lt.mpr hle)
  leaves _ _ _ := by
    obtain ⟨e, hbefore, hgone, -, hafter⟩ := hleft.left
    exact ⟨e, hbefore, hgone, hafter⟩

variable [AddLeftMono τ]

theorem House.StaysOn.keeps (hstays : h.StaysOn origin node deadline h')
    (hflows : origin.Flows node) : origin.Keeps node deadline h.engine h'.engine where
  stays _ := ⟨hstays.onTime, fun _ hcount =>
    hstays.onTime.le_progress_iff hflows hstays.now hstays.coming hcount⟩
  leaves _ hdue hle :=
    absurd (hstays.onTime.lt_left hflows hstays.coming hdue) (not_lt.mpr hle)

/-- A move of the clock by some time, if so much is needed. -/
inductive Call.MovesBy : Call τ → τ → Prop
  | wait (seconds : τ) : MovesBy (.wait seconds) seconds
  | idle (limit : τ) : MovesBy (.idle limit) limit

/-- The timetable of a node that has been entered in `origin` is kept. -/
structure Engine.KeepsTimetable (origin : Engine τ ν) (node : Node) : Prop where
  entered : origin.OnTime origin node
  /-- Whatever steps time takes, the node is shown on time until it is left on time. -/
  always : ∀ e, origin.Lapses e → origin.OnTime e node ∨
    ∃ e₁ : Engine τ ν, origin.Lapses e₁ ∧ origin.LeftOnTime e₁ node ∧ e₁.Lapses e
  /-- In each step nothing can be seen to happen, or one more character appears at its time, or the
  node is left at its time. -/
  lapse : ∀ e e', origin.OnTime e node → e.Lapse e' →
    origin.OnTime e' node ∧ (e'.session = e.session ∨
        e'.session.progress = e.session.progress + 1 ∧
          e'.agenda.now = (origin.timetable node).shown e'.session.progress) ∨
      origin.LeftOnTime e' node
  /-- The rest of a move of the clock, from wherever it has got to. -/
  rest : ∀ (h : House τ ν) (fuel steps ran : Nat) (target : τ), h.Silent →
    origin.OnTime h.engine node → h.engine.agenda.now ≤ target → node.text.length + 3 ≤ steps →
      origin.Keeps node target h.engine
        (Timer.runUntil (fireAlarm (perform fuel)) target steps ran h).2.engine ∧
      origin.Keeps node target h.engine
        (Timer.runUntilQuiet (fireAlarm (perform fuel)) target steps ran h).2.engine
  /-- A move of the clock comes to an end while the visit goes on. -/
  moves : ∀ (h : House τ ν) (fuel : Nat) (call : Call τ) (span : τ), h.Silent →
    origin.OnTime h.engine node → node.text.length + 4 ≤ fuel → call.MovesBy span → 0 ≤ span →
      origin.Keeps node (h.engine.agenda.now + span) h.engine (perform fuel call h).2.engine ∧
      ((∀ due, (origin.timetable node).left? = some due → h.engine.agenda.now + span < due) →
        (∃ count, (perform fuel call h).1 = .ok (.count count)) ∧ (perform fuel call h).2.Silent)
  /-- Into however many waits the time is cut. -/
  waits : ∀ (h : House τ ν) (fuel : Nat) (spans : List τ), h.Silent → h.engine = origin →
    node.text.length + 4 ≤ fuel → spans ≠ [] → (∀ span ∈ spans, 0 ≤ span) →
      origin.Keeps node (origin.agenda.now + spans.sum) origin
        (h.play fuel (spans.map .wait)).engine ∧
      ((∀ due, (origin.timetable node).left? = some due → origin.agenda.now + spans.sum < due) →
        (h.play fuel (spans.map .wait)).engine.agenda.now = origin.agenda.now + spans.sum)

theorem Engine.OnTime.keepsTimetable {origin : Engine τ ν} {node : Node}
    (htime : origin.OnTime origin node) (hflows : origin.Flows node) :
    origin.KeepsTimetable node where
  entered := htime
  always _ hlapses := htime.lapses hflows hlapses
  lapse _ _ hhere hlapse := hhere.lapse hflows hlapse
  rest h fuel steps ran target hsilent hhere hnow hsteps := by
    have henough : node.text.length + 3 ≤ h.engine.session.progress + steps := by omega
    constructor
    · rcases hhere.runUntil hflows hsilent (perform_faithful fuel) hnow
        (Nat.le_of_succ_le henough) ran with ⟨count, h', hrun, hstays, -⟩ | hleft
      · rw [hrun]
        exact hstays.keeps hflows
      · exact hleft.keeps
    · rcases hhere.runUntilQuiet hflows hsilent (perform_faithful fuel) hnow henough ran with
        ⟨count, h', hrun, hstays⟩ | hleft
      · rw [hrun]
        exact hstays.keeps hflows
      · exact hleft.keeps
  moves h fuel call span hsilent hhere hfuel hmoves hspan := by
    have hends : (∃ count h', perform fuel call h = (.ok (.count count), h') ∧
        h.StaysOn origin node (h.engine.agenda.now + span) h') ∨
          h.HasLeft origin node (h.engine.agenda.now + span) (perform fuel call h).2 := by
      cases hmoves with
      | wait =>
        refine (hhere.wait hflows hsilent hfuel hspan).imp_left ?_
        rintro ⟨count, h', hrun, hstays, -⟩
        exact ⟨count, h', hrun, hstays⟩
      | idle => exact hhere.idle hflows hsilent hfuel hspan
    rcases hends with ⟨count, h', hrun, hstays⟩ | hleft
    · rw [hrun]
      exact ⟨hstays.keeps hflows, fun _ => ⟨⟨count, rfl⟩, hstays.silent⟩⟩
    · refine ⟨hleft.keeps, fun hearly => ?_⟩
      obtain ⟨due, hdue, hle⟩ := hleft.le_deadline
      exact absurd (hearly due hdue) (not_lt.mpr hle)
  waits h fuel spans hsilent hengine hfuel hsome hspans := by
    subst hengine
    obtain ⟨seconds, rest, rfl⟩ := List.exists_cons_of_ne_nil hsome
    rcases htime.waits hflows hsilent hfuel hspans with ⟨hstays, hclock⟩ | hleft
    · exact ⟨hstays.keeps hflows, fun _ => hclock⟩
    · refine ⟨hleft.keeps, fun hearly => ?_⟩
      obtain ⟨due, hdue, hle⟩ := hleft.le_deadline
      exact absurd (hearly due hdue) (not_lt.mpr hle)

/-- A node is on time when it is entered. -/
theorem Event.Occurs.onTime {ev : Event τ ν} (hoccurs : ev.Occurs) {script : Script} {node : Node}
    (hkeys : script.KeysAreIds) (hscript : ev.before.script = script)
    (hsound : ev.before.session.Sound ev.before.script) (harmed : ev.before.Armed)
    (henters : ev.Enters node) (hflows : ev.change.engine.Flows node) :
    ev.change.engine.OnTime ev.change.engine node := by
  have hvisits := hoccurs.visits hkeys hscript hsound harmed henters.there
  obtain ⟨e, target, hclears, hchange⟩ := hoccurs.exists_enter henters harmed
  have hsession : ev.change.engine.session = (e.enter target).engine.session := by rw [hchange]
  rw [Engine.enter_session] at hsession
  have hprogress : ev.change.engine.session.progress = 0 := by rw [hsession]
  refine .of_justSet hflows ⟨rfl, hvisits.sound, hvisits.armed, hvisits.current, ?_⟩
    ⟨rfl, Nat.le_refl _, hvisits.at.progress⟩ rfl ?_ ?_
  · rw [hsession]
  · rw [hchange]
    exact hclears.enter_justSet target
  · rw [hprogress, Timetable.shown_zero]
    rfl

/-- With delays that do not turn the clock back, play by itself keeps its timetable wherever a run
enters a node without choices and video: each character appears when it should, and automatic pacing
leaves the node when it should, while without it the complete text stays. -/
theorem play_keeps_its_timetable (script : Script) (hkeys : script.KeysAreIds) (timing : Timing τ)
    (hdelays : timing.NonNegative) (saves : Option (Save.Repository ν)) :
    (∀ (stamps : Stamps) (fuel : Nat) (calls : List (Call τ)),
      Steps (fun _ => True) (Engine.opening script timing saves)
        ((House.opening (Engine.opening script timing saves) stamps).play fuel calls).engine) ∧
      ∀ (ev : Event τ ν) (node : Node),
        Steps (fun _ => True) (Engine.opening script timing saves) ev.before → ev.Occurs →
          ev.Enters node → node.choices = [] → node.hasVideo = false →
            ev.change.engine.timing = timing ∧ ev.change.engine.KeepsTimetable node := by
  constructor
  · intro stamps fuel calls
    exact House.play_steps fuel calls (fun call _ => call.within_any) _ stamps
  · intro ev node hsteps hoccurs henters hchoices hvideo
    have hscript : ev.before.script = script := Steps.script hsteps
    have hafter := hsteps.tail hoccurs.step
    have hscript' : ev.change.engine.script = script := Steps.script hafter
    have htiming : ev.change.engine.timing = timing := Steps.timing hafter
    have hflows : ev.change.engine.Flows node :=
      ⟨hscript'.symm ▸ hkeys, htiming.symm ▸ hdelays, hchoices, hvideo⟩
    have htime := hoccurs.onTime hkeys hscript
      (Steps.sound hsteps hkeys (Session.sound_initial script))
      (Steps.armed hsteps hkeys (Session.sound_initial script)
        (Engine.opening_sets script timing saves)) henters hflows
    exact ⟨htiming, htime.keepsTimetable hflows⟩

end Moves

/-- Two lines in auto play. The player goes on to the second one once the first is complete. -/
def duetText : String := "Hi\nBye"

def duetScript : Script := (({} : Compiler).compile duetText).script

def duet : House Nat Save.MemoryStore :=
  (House.opening (.opening duetScript Timing.usual none) ⟨[], 0⟩).play 40
    [.newGame, .auto true, .wait 100]

theorem play_keeps_its_timetable_in_a_story :
    duetScript.KeysAreIds ∧ Timing.usual.NonNegative ∧
      ∃ node : Node, node.choices = [] ∧ node.hasVideo = false ∧
        Event.Enters ⟨.request .advance, duet.engine, duet.engine.advance⟩ node ∧
        (duet.engine.advance.engine.timetable node).left? = some 1190 ∧
        ∀ h : House Nat Save.MemoryStore, h.Silent → h.engine = duet.engine.advance.engine →
          (h.play 40 [.wait 45, .wait 15]).engine.session.progress = 2 ∧
          ∃ e : Engine Nat Save.MemoryStore,
            duet.engine.advance.engine.LeftOnTime e node ∧ e.agenda.now = 1190 ∧
              Steps Call.MovesClock e (h.play 40 [.wait 45, .wait 1045]).engine := by
  have hkeys : duetScript.KeysAreIds := Compiler.keysAreIds_compile {} duetText
  have hdelays : Timing.usual.NonNegative := by constructor <;> exact Nat.zero_le _
  have hplain : duet.engine.advance.engine.currentNode.map
      (fun node => (node.choices.isEmpty, node.hasVideo, node.text.length)) =
        some (true, false, 3) := by decide +kernel
  obtain ⟨node, hcurrent, hnode⟩ := Option.map_eq_some_iff.mp hplain
  simp only [Prod.mk.injEq, List.isEmpty_iff] at hnode
  obtain ⟨hchoices, hvideo, hlength⟩ := hnode
  have henters : Event.Enters ⟨.request .advance, duet.engine, duet.engine.advance⟩ node :=
    ⟨hcurrent, Or.inr (by decide +kernel)⟩
  obtain ⟨hruns, hkeeps⟩ := play_keeps_its_timetable (ν := Save.MemoryStore) duetScript hkeys
    Timing.usual hdelays none
  have hreached : Steps (fun _ => True) (Engine.opening duetScript Timing.usual none)
      duet.engine := hruns ⟨[], 0⟩ 40 _
  obtain ⟨htiming, hpunctual⟩ := hkeeps ⟨.request .advance, duet.engine, duet.engine.advance⟩ node
    hreached (.request rfl) henters hchoices hvideo
  dsimp only at htiming hpunctual
  have hnow : duet.engine.advance.engine.agenda.now = 100 := by decide +kernel
  have hpacing : duet.engine.advance.engine.session.pacing = .auto := by decide +kernel
  have htable : duet.engine.advance.engine.timetable node = ⟨100, 30, 3, some 1000⟩ := by
    rw [Engine.timetable, htiming, hnow, hpacing, hlength]
    rfl
  have hleft : (duet.engine.advance.engine.timetable node).left? = some 1190 := by
    rw [htable]
    rfl
  refine ⟨hkeys, hdelays, node, hchoices, hvideo, henters, hleft, fun h hsilent hengine => ?_⟩
  have hfuel : node.text.length + 4 ≤ 40 := by omega
  have hforward : ∀ spans : List Nat, ∀ span ∈ spans, 0 ≤ span := fun _ span _ => Nat.zero_le span
  have hwaits (spans : List Nat) (hsome : spans ≠ []) :=
    (hpunctual.waits h 40 spans hsilent hengine hfuel hsome (hforward spans)).1
  rw [hnow] at hwaits
  constructor
  · have hearly : ∀ due, (duet.engine.advance.engine.timetable node).left? = some due →
        100 + [45, 15].sum < due := by
      rw [hleft]
      rintro due ⟨⟩
      decide
    obtain ⟨-, hshown⟩ := (hwaits [45, 15] (by simp)).stays hearly
    rw [htable] at hshown
    have htwo := (hshown 2 (by omega)).mpr (by decide)
    have hthree := mt (hshown 3 (by omega)).mp (by decide)
    exact Nat.le_antisymm (Nat.le_of_lt_succ (Nat.lt_of_not_le hthree)) htwo
  · obtain ⟨e, -, hgone, hafter⟩ := (hwaits [45, 1045] (by simp)).leaves 1190 hleft (by decide)
    exact ⟨e, hgone, Option.some.inj (hgone.moment.symm.trans hleft), hafter⟩

end VisualNovel.Playback
