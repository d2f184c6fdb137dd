import VisualNovel.Proofs.Playback.Courses
import VisualNovel.Terminal.Player

/-!
What happens to a player in a terminal. Whatever lines are put in, the engine goes through events,
and the player takes delivery of each one in its turn; in between, the player prints other things,
the clock is set and saves are written.
-/
namespace VisualNovel.Terminal

open Playback

/-- Whether a frame is shown in full, after the frame before it. -/
def isShown (last : Option Frame) (f : Frame) : Bool :=
  isPlaying f && !(f.ending && !last.any (·.ending)) && f.isRevealed && !last.any (hasShown · f)

/-- What there is to see of a frame that is not shown in full. -/
def notice (last : Option Frame) (f : Frame) : List Printed :=
  match f.view with
  | .title => if last.any isPlaying then [titleLine] else []
  | .playing => if f.ending && !last.any (·.ending) then [endingLine] else []

theorem additions_eq (last : Option Frame) (f : Frame) :
    additions last f = if isShown last f then scene f else notice last f := by
  unfold additions isShown notice isPlaying
  cases f.view with
  | title => rfl
  | playing =>
    cases hends : f.ending && !last.any (·.ending) with
    | true => simp
    | false => cases f.isRevealed <;> cases last.any (hasShown · f) <;> simp

namespace Player

variable {τ ν : Type}

@[simp] theorem take_engine (p : Player τ ν) (c : Change τ ν) : (p.take c).engine = c.engine := by
  unfold take
  dsimp only
  split <;> rfl

theorem take_last (p : Player τ ν) (c : Change τ ν) :
    (p.take c).last = if c.told then some c.engine.frame else p.last := by
  unfold take
  dsimp only
  split <;> rfl

theorem print_printed (p : Player τ ν) (lines : List Printed) :
    (p.print lines).printed.toList = p.printed.toList ++ lines := Array.toList_append

theorem take_printed (p : Player τ ν) (c : Change τ ν) :
    (p.take c).printed.toList =
      p.printed.toList ++ if c.told then additions p.last c.engine.frame else [] := by
  unfold take render
  dsimp only
  split
  · exact print_printed _ _
  · exact (List.append_nil _).symm

/-- The frame that the player shows on a change of the engine. -/
def showing (p : Player τ ν) (c : Change τ ν) : List Frame :=
  if c.told && isShown p.last c.engine.frame then [c.engine.frame] else []

variable [Zero τ] [Add τ] [Mul τ] [NatCast τ] [LT τ] [DecidableLT τ]

section Playing
variable [Save.KeyValueStore ν]

/-- A player goes through events, and shows some of the frames that these bring up. -/
inductive Plays : Player τ ν → List (Event τ ν) → List Frame → Player τ ν → Prop
  | refl (p : Player τ ν) : Plays p [] [] p
  | event {p p' : Player τ ν} {ev : Event τ ν} {events : List (Event τ ν)} {shown : List Frame}
      (hoccurs : ev.Occurs) (hbefore : p.engine = ev.before)
      (hrest : Plays (p.take ev.change) events shown p') :
      Plays p (ev :: events) (p.showing ev.change ++ shown) p'
  | aside {p q p' : Player τ ν} {events : List (Event τ ν)} {shown : List Frame}
      (hcourse : p.engine.Course [] q.engine) (hlast : q.last = p.last)
      (hprinted : p.printed.toList <+: q.printed.toList) (hrest : Plays q events shown p') :
      Plays p events shown p'

namespace Plays

variable {p p' p'' : Player τ ν} {events events' : List (Event τ ν)} {shown shown' : List Frame}

theorem single {ev : Event τ ν} (hoccurs : ev.Occurs) (hbefore : p.engine = ev.before) :
    p.Plays [ev] (p.showing ev.change) (p.take ev.change) :=
  List.append_nil (p.showing ev.change) ▸ .event hoccurs hbefore (.refl _)

theorem append (h : p.Plays events shown p') (h' : p'.Plays events' shown' p'') :
    p.Plays (events ++ events') (shown ++ shown') p'' := by
  induction h with
  | refl => exact h'
  | event hoccurs hbefore hrest ih =>
    rw [List.append_assoc]
    exact .event hoccurs hbefore (ih h')
  | aside hcourse hlast hprinted hrest ih => exact .aside hcourse hlast hprinted (ih h')

/-- The events are those of a run of the engine. -/
theorem course (h : p.Plays events shown p') : p.engine.Course events p'.engine := by
  induction h with
  | refl => exact .nil _
  | @event p p' ev events shown hoccurs hbefore hrest ih =>
    rw [take_engine] at ih
    rw [hbefore]
    exact .event hoccurs ih
  | aside hcourse hlast hprinted hrest ih => exact hcourse.append ih

/-- What is shown is printed. -/
theorem exists_printed (h : p.Plays events shown p') :
    ∃ more, p'.printed.toList = p.printed.toList ++ more ∧ (shown.flatMap scene).Sublist more := by
  induction h with
  | refl p => exact ⟨[], (List.append_nil _).symm, List.Sublist.refl _⟩
  | @event p p' ev events shown hoccurs hbefore hrest ih =>
    obtain ⟨more, hmore, hshown⟩ := ih
    rw [take_printed, List.append_assoc] at hmore
    refine ⟨_, hmore, ?_⟩
    rw [List.flatMap_append]
    refine List.Sublist.append ?_ hshown
    unfold showing
    split
    · next hshows =>
      rw [Bool.and_eq_true] at hshows
      have hadded : (if ev.change.told then additions p.last ev.change.engine.frame else []) =
          [ev.change.engine.frame].flatMap scene := by
        rw [if_pos hshows.1, additions_eq, if_pos hshows.2, List.flatMap_singleton]
      exact hadded ▸ List.Sublist.refl _
    · exact List.nil_sublist _
  | @aside p q p' events shown hcourse hlast hprinted hrest ih =>
    obtain ⟨more, hmore, hshown⟩ := ih
    obtain ⟨between, hbetween⟩ := hprinted
    rw [← hbetween, List.append_assoc] at hmore
    exact ⟨_, hmore, hshown.trans (List.sublist_append_right _ _)⟩

end Plays

def GoesOn (p p' : Player τ ν) : Prop := ∃ events shown, p.Plays events shown p'

namespace GoesOn

variable {p p' p'' : Player τ ν}

theorem refl (p : Player τ ν) : p.GoesOn p := ⟨[], [], .refl p⟩

theorem trans (h : p.GoesOn p') (h' : p'.GoesOn p'') : p.GoesOn p'' := by
  obtain ⟨events, shown, hplays⟩ := h
  obtain ⟨events', shown', hplays'⟩ := h'
  exact ⟨_, _, hplays.append hplays'⟩

theorem aside (hcourse : p.engine.Course [] p'.engine) (hlast : p'.last = p.last)
    (hprinted : p.printed.toList <+: p'.printed.toList) : p.GoesOn p' :=
  ⟨[], [], .aside hcourse hlast hprinted (.refl p')⟩

theorem print (p : Player τ ν) (lines : List Printed) : p.GoesOn (p.print lines) :=
  .aside (.nil _) rfl (p.print_printed lines ▸ List.prefix_append _ _)

theorem steps (h : p.GoesOn p') : Steps (fun _ => True) p.engine p'.engine := by
  obtain ⟨events, shown, hplays⟩ := h
  exact hplays.course.steps

end GoesOn

theorem take_goesOn (p : Player τ ν) (call : Call τ) {c : Change τ ν}
    (h : p.engine.outcome call = some (.ok c)) : p.GoesOn (p.take c) :=
  ⟨_, _, .single (.request h) rfl⟩

theorem attempt_goesOn (p : Player τ ν) (call : Call τ) {r : Except Fault (Change τ ν)}
    (h : p.engine.outcome call = some (r.mapError .fault)) : p.GoesOn (p.attempt r) := by
  cases r with
  | ok c => exact p.take_goesOn call h
  | error f => exact .print p _

theorem fail_goesOn (p : Player τ ν) (f : Save.Failure) : p.GoesOn (p.fail f) := by
  cases f <;> exact .print p _

theorem save_goesOn (p : Player τ ν) (slot : Int) : p.GoesOn (p.save slot) := by
  have hstamps : p.GoesOn { p with stamps := p.stamps.rest } :=
    .aside (.nil _) rfl List.prefix_rfl
  unfold save
  split
  · exact .print p _
  · dsimp only
    split
    · next s engine hsaved =>
      obtain ⟨r, node, r', -, -, -, rfl⟩ := Engine.save_eq_ok hsaved
      have hsaves : p.GoesOn { p with
          engine := { p.engine with saves := some r' }, stamps := p.stamps.rest } :=
        .aside (.saves _ (.nil _)) rfl List.prefix_rfl
      exact hsaves.trans (.print _ _)
    · exact hstamps.trans (fail_goesOn _ _)
    · exact hstamps.trans (.print _ _)

theorem load_goesOn (p : Player τ ν) (slot : Int) : p.GoesOn (p.load slot) := by
  unfold load
  split
  · next c hload =>
    exact p.take_goesOn (.load slot p.room) (congrArg some (mapError_of_ok hload _))
  · exact fail_goesOn p _

theorem jump_goesOn (p : Player τ ν) (index : Int) : p.GoesOn (p.jump index) := by
  unfold jump
  split
  · next c hjump =>
    exact p.take_goesOn (.jump index) (congrArg some (mapError_of_ok hjump _))
  · exact .print p _
  · exact .print p _

/-- At most one thing happens to the engine on a command. -/
theorem perform_goesOn (p : Player τ ν) (command : Command) : p.GoesOn (p.perform command) := by
  cases command with
  | advance =>
    unfold perform
    dsimp only
    split
    · exact (GoesOn.print p _).trans (take_goesOn _ .advance rfl)
    · exact take_goesOn _ .advance rfl
  | toggleAuto => exact (p.take_goesOn .toggleAuto rfl).trans (.print _ _)
  | toggleFastForward => exact (p.take_goesOn .toggleFastForward rfl).trans (.print _ _)
  | title => exact p.take_goesOn .title rfl
  | choose index => exact p.attempt_goesOn (.choose index) rfl
  | newGame => exact p.attempt_goesOn .newGame rfl
  | load slot => exact p.load_goesOn slot
  | save slot => exact p.save_goesOn slot
  | jump index => exact p.jump_goesOn index
  | history =>
    show p.GoesOn p.showHistory
    unfold showHistory
    split <;> exact .print p _
  | quit => exact .refl p
  | help | notANumber | unknown => exact .print p _

theorem perform_steps (p : Player τ ν) (command : Command) :
    Steps (fun _ => True) p.engine (p.perform command).engine := (p.perform_goesOn command).steps

theorem begin_goesOn {p first : Player τ ν} {slot : Option Int} (h : p.begin slot = .ok first) :
    p.GoesOn first := by
  cases slot with
  | none =>
    cases hnew : p.engine.newGame with
    | error f =>
      rw [begin, hnew] at h
      cases h
    | ok c =>
      rw [begin, hnew] at h
      cases h
      exact p.take_goesOn .newGame (congrArg some (mapError_of_ok hnew _))
  | some slot =>
    cases hload : p.engine.load p.room slot with
    | error f =>
      rw [begin, hload] at h
      cases h
    | ok c =>
      rw [begin, hload] at h
      cases h
      exact p.take_goesOn (.load slot p.room) (congrArg some (mapError_of_ok hload _))

end Playing

variable [LE τ] [DecidableLE τ]

section Pump

open Timer (Action Agenda agenda runUntilIdle runUntilQuiet runUntilQuiet_relates)

theorem pump_of_idle {p : Player τ ν} (h : p.engine.agenda.nextDue? = none) (fuel : Nat) :
    p.pump (fuel + 1) = p := by
  have hidle : (agenda p : Agenda τ Alarm).nextDue? = none := h
  unfold pump runUntilIdle runUntilQuiet
  rw [hidle]

def whenDue (alarm : Alarm) : Action Empty (Player τ ν) Unit := fun p =>
  (.ok (), p.take (p.engine.fire alarm))

variable [Save.KeyValueStore ν]

theorem handle_of_idle {p : Player τ ν} {line : String} (hstays : Command.ofLine line ≠ .quit)
    (hsound : p.breakdown? (Command.ofLine line) = none)
    (h : (p.perform (Command.ofLine line)).engine.agenda.nextDue? = none) (fuel : Nat) :
    p.handle (fuel + 1) line = some (p.perform (Command.ofLine line)) := by
  unfold handle
  split
  · next hquit => exact absurd hquit hstays
  · rw [hsound, Option.isSome_none, if_neg Bool.false_ne_true, pump_of_idle h fuel]

theorem pump_goesOn (p : Player τ ν) (fuel : Nat) : p.GoesOn (p.pump fuel) := by
  change p.GoesOn (runUntilQuiet whenDue (p.engine.agenda.now + (3600 : Nat)) fuel 0 p).2
  refine runUntilQuiet_relates (R := GoesOn) .refl .trans ?_ ?_ _ fuel 0 p
  · intro q target entry rest hdue
    exact ⟨_, _, .single (.timer hdue) rfl⟩
  · intro q target hquiet
    exact .aside (.clock hquiet (.nil _)) rfl List.prefix_rfl

theorem handle_goesOn {p p' : Player τ ν} {fuel : Nat} {line : String}
    (h : p.handle fuel line = some p') : p.GoesOn p' := by
  unfold handle at h
  split at h
  · cases h
  · split at h
    · cases h
    · cases h
      exact (p.perform_goesOn _).trans (pump_goesOn _ fuel)

/-- What becomes of a player as lines are put in. -/
inductive Reaches (p : Player τ ν) : Player τ ν → Prop
  | refl : Reaches p p
  | handle {q q' : Player τ ν} {fuel : Nat} {line : String} (hreached : Reaches p q)
      (hhandled : q.handle fuel line = some q') : Reaches p q'
  | pump {q : Player τ ν} (fuel : Nat) (hreached : Reaches p q) : Reaches p (q.pump fuel)
  | print {q : Player τ ν} (lines : List Printed) (hreached : Reaches p q) :
      Reaches p (q.print lines)

theorem Reaches.goesOn {p p' : Player τ ν} (h : p.Reaches p') : p.GoesOn p' := by
  induction h with
  | refl => exact .refl p
  | handle hreached hhandled ih => exact ih.trans (handle_goesOn hhandled)
  | pump fuel hreached ih => exact ih.trans (pump_goesOn _ fuel)
  | print lines hreached ih => exact ih.trans (.print _ lines)

end Pump

end Player

end VisualNovel.Terminal
