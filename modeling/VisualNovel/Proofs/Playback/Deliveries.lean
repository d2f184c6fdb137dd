import VisualNovel.Proofs.Playback.Courses

/-!
How frames come to those who watch. If nobody makes calls of their own, everybody is given each
frame that is issued, one frame after the other. If some do, this still holds of every listener that
is told before them.
-/
namespace VisualNovel.Playback

variable {τ ν : Type}

def Call.KeepsAudience : Call τ → Prop
  | .subscribe .. => False
  | .unsubscribe _ => False
  | _ => True

theorem Call.KeepsAudience.within {call : Call τ} (h : call.KeepsAudience) :
    call.Within Call.KeepsAudience := by
  refine Call.within_of_plain ?_ h
  cases call with
  | subscribe => exact h.elim
  | _ => rfl

section Hearing
variable [Save.KeyValueStore ν]

theorem House.save_delivered (h : House τ ν) (room : Nat) (slot : Int) :
    (h.save room slot).2.delivered = h.delivered := by
  obtain ⟨saves, stamps, heq⟩ := h.save_eq room slot
  rw [heq]

theorem House.setStoredText_delivered (h : House τ ν) (room : Nat) (text : Text.RawText) :
    (h.setStoredText room text).2.delivered = h.delivered := by
  obtain ⟨saves, heq⟩ := h.setStoredText_eq room text
  rw [heq]

variable [Zero τ] [Add τ] [Mul τ] [NatCast τ] [LT τ] [DecidableLT τ]

section Audience
variable {α : Type} (audience : List (Listener τ)) (pick : List (String × Frame) → List α)
variable (gets : Frame → List α)

/-- A house with this audience goes on through a course of events, and keeps the audience. What
`pick` finds among the deliveries has grown, for each frame issued, by what `gets` tells. -/
def House.Hears (h h' : House τ ν) : Prop :=
  h.listeners = audience → h'.listeners = audience ∧
    ∃ events, h.engine.Course events h'.engine ∧
      pick h'.delivered = pick h.delivered ++ (issued events).flatMap gets

variable {audience pick gets}

namespace House.Hears

theorem refl (h : House τ ν) : House.Hears audience pick gets h h :=
  fun haudience => ⟨haudience, [], .nil _, (List.append_nil _).symm⟩

theorem trans {h h' h'' : House τ ν} (hfirst : House.Hears audience pick gets h h')
    (hsecond : House.Hears audience pick gets h' h'') : House.Hears audience pick gets h h'' := by
  intro haudience
  obtain ⟨haudience', events, hcourse, hheard⟩ := hfirst haudience
  obtain ⟨haudience'', events', hcourse', hheard'⟩ := hsecond haudience'
  refine ⟨haudience'', events ++ events', hcourse.append hcourse', ?_⟩
  rw [hheard', hheard, issued_append, List.flatMap_append, List.append_assoc]

theorem of_saves {h h' : House τ ν} (hengine : ∃ saves, h'.engine = { h.engine with saves })
    (hlisteners : h'.listeners = h.listeners) (hdelivered : h'.delivered = h.delivered) :
    House.Hears audience pick gets h h' := by
  obtain ⟨saves, hengine⟩ := hengine
  intro haudience
  refine ⟨hlisteners.trans haudience, [], ?_, ?_⟩
  · rw [hengine]
    exact .saves saves (.nil _)
  · rw [hdelivered]
    exact (List.append_nil _).symm

/-- A timer that runs makes an event, whatever the agenda was in the meantime. -/
theorem of_fire {perform : Call τ → HouseAction τ ν (Reply τ)}
    (hpublish : ∀ {h : House τ ν} {ev : Event τ ν}, ev.Occurs → h.engine = ev.before →
      House.Hears audience pick gets h (publish perform ev.change h).2)
    (h : House τ ν) (target : τ) (entry : Timer.Entry τ Alarm) (rest : Timer.Agenda τ Alarm)
    (hdue : (Timer.agenda h).pop? target = some (entry, rest)) :
    House.Hears audience pick gets h (fireAlarm perform entry.task (Timer.withAgenda h rest)).2 :=
  hpublish (h := h) (.timer hdue) rfl

theorem of_clock (h : House τ ν) (target : τ) (hquiet : (Timer.agenda h).pop? target = none) :
    House.Hears audience pick gets h
      (Timer.withAgenda h { Timer.agenda h with now := target }) :=
  fun haudience => ⟨haudience, [], .clock hquiet (.nil _), (List.append_nil _).symm⟩

/-- Those who make no calls of their own are all given what is issued, one after the other. -/
theorem of_silent (hsilent : ∀ listener ∈ audience, listener.reaction = [])
    (perform : Call τ → HouseAction τ ν (Reply τ)) {h : House τ ν} {ev : Event τ ν}
    (hoccurs : ev.Occurs) (hbefore : h.engine = ev.before) :
    House.Hears audience id (fun f => audience.map fun listener => (listener.name, f)) h
      (publish perform ev.change h).2 := by
  rintro rfl
  obtain ⟨h', hdone, hengine, hsame, hdelivered⟩ := publish_of_silent perform hsilent ev.change
  rw [hdone]
  refine ⟨hsame, [ev], ?_, ?_⟩
  · rw [hbefore, hengine]
    exact .single hoccurs
  · rw [id, id, hdelivered, issued_cons]
    unfold Event.frame?
    cases ev.change.told <;> simp [issued]

variable [LE τ] [DecidableLE τ]

/-- If events are heard in this way, then so is every call that leaves the audience as it is. -/
theorem tracked
    (hpublish : ∀ {perform : Call τ → HouseAction τ ν (Reply τ)},
      Relates Call.KeepsAudience (House.Hears audience pick gets) perform →
        ∀ {h : House τ ν} {ev : Event τ ν}, ev.Occurs → h.engine = ev.before →
          House.Hears audience pick gets h (publish perform ev.change h).2) :
    House.Tracked Call.KeepsAudience
      (House.Hears audience pick gets : House τ ν → House τ ν → Prop) where
  refl := refl
  granted hperform _ _ _ _ hgranted := hpublish hperform (.request hgranted) rfl
  save {h slot room} _ := of_saves (h.save_engine room slot) (h.save_listeners room slot)
    (h.save_delivered room slot)
  stored {h text room} _ := of_saves (h.setStoredText_engine room text)
    (h.setStoredText_listeners room text) (h.setStoredText_delivered room text)
  subscribed _ _ _ _ _ hcall := hcall.elim
  unsubscribed _ _ hcall := hcall.elim
  wait hperform _ _ fuel h := Timer.runUntil_relates (R := House.Hears audience pick gets)
    refl trans (of_fire (hpublish hperform)) of_clock _ fuel 0 h
  idle hperform _ _ fuel h := Timer.runUntilQuiet_relates (R := House.Hears audience pick gets)
    refl trans (of_fire (hpublish hperform)) of_clock _ fuel 0 h

end House.Hears

end Audience

end Hearing

/-- What an audience is told of what has happened to a house: everybody is given the same frames in
turn, the last of them shows how things are now, and there is one if that has changed. -/
structure House.Informs (h h' : House τ ν) (frames : List Frame) : Prop where
  delivered : h'.delivered =
    h.delivered ++ frames.flatMap fun f => h.listeners.map fun listener => (listener.name, f)
  last : ∀ f ∈ frames.getLast?, f = h'.engine.frame
  changed : h'.engine.frame ≠ h.engine.frame → frames ≠ []

theorem House.informs_of_same {h h' : House τ ν} (hdelivered : h'.delivered = h.delivered)
    (hframe : h'.engine.frame = h.engine.frame) : h.Informs h' [] :=
  ⟨hdelivered.trans (List.append_nil _).symm, fun _ hlast => (nomatch hlast),
    fun hchanged => absurd hframe hchanged⟩

theorem deliver_append (perform : Call τ → HouseAction τ ν (Reply τ)) (f : Frame)
    (front back : List (Listener τ)) :
    deliver perform f (front ++ back) =
      (deliver perform f front).seq fun _ => deliver perform f back := by
  induction front with
  | nil => rfl
  | cons listener rest ih =>
    funext h
    rw [List.cons_append]
    cases hreacts : (h.record listener f).reacts listener f with
    | none =>
      rw [deliver_of_quiet hreacts, ih]
      unfold Timer.Action.seq
      rw [deliver_of_quiet hreacts]
    | some left =>
      rw [deliver_of_reacting hreacts, ih]
      unfold Timer.Action.seq
      rw [deliver_of_reacting hreacts]
      unfold Timer.Action.seq
      rcases makeCalls perform listener.reaction _ with ⟨halt | _, t⟩ <;> rfl

def framesFor (name : String) (delivered : List (String × Frame)) : List Frame :=
  (delivered.filter (·.1 == name)).map (·.2)

/-- A listener before whom nobody makes calls, in an audience that stays as it is. -/
structure InFront (audience : List (Listener τ)) (listener : Listener τ) : Prop where
  seat : ∃ front back, audience = front ++ listener :: back ∧
    (∀ other ∈ front, other.reaction = []) ∧ ∀ other ∈ front ++ back, other.name ≠ listener.name
  keeps : ∀ other ∈ audience, ∀ call ∈ other.reaction, call.KeepsAudience

theorem framesFor_append (name : String) (delivered delivered' : List (String × Frame)) :
    framesFor name (delivered ++ delivered') =
      framesFor name delivered ++ framesFor name delivered' := by
  simp [framesFor]

theorem framesFor_others {name : String} {others : List (Listener τ)} (f : Frame)
    (hothers : ∀ other ∈ others, other.name ≠ name) :
    framesFor name (others.map fun other => (other.name, f)) = [] := by
  unfold framesFor
  rw [List.map_eq_nil_iff, List.filter_eq_nil_iff]
  intro told htold
  obtain ⟨other, hother, rfl⟩ := List.mem_map.mp htold
  simpa using hothers other hother

variable [Save.KeyValueStore ν]
variable [Zero τ] [Add τ] [Mul τ] [NatCast τ] [LT τ] [DecidableLT τ]

theorem House.Hears.exists_informs {h h' : House τ ν}
    (hhears : House.Hears h.listeners id
      (fun f => h.listeners.map fun listener => (listener.name, f)) h h') :
    ∃ frames, h.Informs h' frames := by
  obtain ⟨-, events, hcourse, hdelivered⟩ := hhears rfl
  refine ⟨issued events, hdelivered, ?_, ?_⟩
  · intro f hlast
    rw [hcourse.frame_eq, Option.mem_def.mp hlast]
    rfl
  · intro hchanged hnone
    refine hchanged ?_
    rw [hcourse.frame_eq, hnone]
    rfl

/-- As long as nobody in the audience makes calls, every call, whether or not it succeeds, and every
single timer that runs informs the whole audience. -/
theorem observers_never_miss_a_change [LE τ] [DecidableLE τ] (h : House τ ν) (hsilent : h.Silent) :
    (∀ (fuel : Nat) (call : Call τ), ∃ frames, h.Informs (perform fuel call h).2 frames) ∧
      ∀ (perform : Call τ → HouseAction τ ν (Reply τ)) (target : τ) (entry : Timer.Entry τ Alarm)
        (rest : Timer.Agenda τ Alarm), h.engine.agenda.pop? target = some (entry, rest) →
          ∃ frames,
            h.Informs (fireAlarm perform entry.task (Timer.withAgenda h rest)).2 frames := by
  constructor
  · intro fuel call
    cases call with
    | subscribe name awaits reaction uses =>
      cases fuel with
      | zero => exact ⟨[], House.informs_of_same rfl rfl⟩
      | succ fuel => exact ⟨[], House.informs_of_same rfl rfl⟩
    | unsubscribe name =>
      refine ⟨[], ?_⟩
      cases fuel with
      | zero => exact House.informs_of_same rfl rfl
      | succ fuel =>
        unfold perform
        dsimp only
        split <;> exact House.informs_of_same rfl rfl
    | _ =>
      refine House.Hears.exists_informs (perform_tracks (House.Hears.tracked ?_) fuel _ ?_ h)
      · exact fun {perform} _ => House.Hears.of_silent hsilent perform
      · exact Call.KeepsAudience.within trivial
  · intro perform target entry rest hdue
    exact (House.Hears.of_fire (House.Hears.of_silent hsilent perform) h target entry rest
      hdue).exists_informs

/-- Two who watch, while two characters of a text appear. -/
def watchedFork : House Nat Save.MemoryStore :=
  forkOpening.play 40 [.subscribe "left" (fun _ => false) [] 0,
    .subscribe "right" (fun _ => false) [] 0, .newGame]

theorem observers_never_miss_a_change_in_a_story :
    watchedFork.Silent ∧ ∃ frames, frames.length = 2 ∧
      watchedFork.Informs (perform 40 (.wait 60) watchedFork).2 frames := by
  have hquiet : watchedFork.listeners.all (·.reaction.isEmpty) = true := by decide +kernel
  have hsilent : watchedFork.Silent := by
    intro listener hmem
    exact List.isEmpty_iff.mp (List.all_eq_true.mp hquiet listener hmem)
  obtain ⟨frames, hinforms⟩ := (observers_never_miss_a_change watchedFork hsilent).1 40 (.wait 60)
  refine ⟨hsilent, frames, ?_, hinforms⟩
  have hbefore : watchedFork.delivered.length = 2 := by decide +kernel
  have hafter : (perform 40 (.wait 60) watchedFork).2.delivered.length = 6 := by decide +kernel
  have hboth : watchedFork.listeners.length = 2 := by decide +kernel
  rw [hinforms.delivered, List.length_append, List.length_flatMap, hbefore] at hafter
  simp only [List.length_map, hboth, List.map_const', List.sum_replicate_nat] at hafter
  omega

namespace InFront

variable {audience : List (Listener τ)} {listener : Listener τ}

/-- Frames that others are given, and uses that are spent, do not matter to the listener. -/
theorem hears_told {other : Listener τ} (hother : other.name ≠ listener.name) (f : Frame)
    (h : House τ ν) :
    House.Hears audience (framesFor listener.name) (fun f => [f]) h (h.record other f) := by
  intro haudience
  refine ⟨haudience, [], .nil _, ?_⟩
  have hnone : framesFor listener.name ([other].map fun other => (other.name, f)) = [] :=
    framesFor_others f (by simpa using hother)
  simp only [House.record, framesFor_append]
  rw [List.map_singleton] at hnone
  rw [hnone]
  rfl

theorem hears_spent (h : House τ ν) (other : Listener τ) (left : Nat) :
    House.Hears audience (framesFor listener.name) (fun f => [f]) h (h.spend other left) :=
  fun haudience => ⟨haudience, [], .nil _, (List.append_nil _).symm⟩

/-- Once the listener has been given a frame, whatever calls are made go on from there. -/
theorem hears_deliver {perform : Call τ → HouseAction τ ν (Reply τ)}
    (hperform : Relates Call.KeepsAudience
      (House.Hears audience (framesFor listener.name) fun f => [f]) perform)
    {back : List (Listener τ)} (hback : ∀ other ∈ back, other.name ≠ listener.name)
    (hkeeps : ∀ other ∈ listener :: back, ∀ call ∈ other.reaction, call.KeepsAudience) (f : Frame)
    (h : House τ ν) :
    House.Hears audience (framesFor listener.name) (fun f => [f]) (h.record listener f)
      (deliver perform f (listener :: back) h).2 := by
  have hcalls : ∀ other ∈ listener :: back, ∀ call ∈ other.reaction,
      call.Within Call.KeepsAudience :=
    fun other hother call hcall => (hkeeps other hother call hcall).within
  have hrest := deliver_relates (R := House.Hears audience (framesFor listener.name) fun f => [f])
    House.Hears.refl House.Hears.trans hperform f back
    (fun other hother => hears_told (hback other hother) f) hears_spent
    (fun other hother => hcalls other (List.mem_cons_of_mem listener hother))
  cases hreacts : (h.record listener f).reacts listener f with
  | none =>
    rw [deliver_of_quiet hreacts]
    exact hrest _
  | some left =>
    rw [deliver_of_reacting hreacts]
    refine (hears_spent _ listener left).trans (Timer.Action.seq_relates
      (R := House.Hears audience (framesFor listener.name) fun f => [f]) House.Hears.trans ?_
      (fun _ => hrest))
    exact makeCalls_relates House.Hears.refl House.Hears.trans hperform listener.reaction
      (hcalls listener List.mem_cons_self) _

/-- The listener is given what is issued, one frame after the other. -/
theorem hears (hfront : InFront audience listener)
    {perform : Call τ → HouseAction τ ν (Reply τ)}
    (hperform : Relates Call.KeepsAudience
      (House.Hears audience (framesFor listener.name) fun f => [f]) perform)
    {h : House τ ν} {ev : Event τ ν} (hoccurs : ev.Occurs) (hbefore : h.engine = ev.before) :
    House.Hears audience (framesFor listener.name) (fun f => [f]) h
      (publish perform ev.change h).2 := by
  intro haudience
  unfold publish
  dsimp only
  split
  · next htold =>
    obtain ⟨front, back, hseat, hquiet, hnamed⟩ := hfront.seat
    have hkeeps : ∀ other ∈ listener :: back, ∀ call ∈ other.reaction, call.KeepsAudience :=
      fun other hother => hfront.keeps other (hseat ▸ List.mem_append_right front hother)
    obtain ⟨h₁, hrun, hengine, hsame, hdelivered⟩ := deliver_of_silent perform
      ev.change.engine.frame hquiet { h with engine := ev.change.engine }
    have hnone := framesFor_others ev.change.engine.frame
      fun other hother => hnamed other (List.mem_append_left back hother)
    have hrest : (deliver perform ev.change.engine.frame front).seq
        (fun _ => deliver perform ev.change.engine.frame (listener :: back))
          ({ h with engine := ev.change.engine } : House τ ν) =
        deliver perform ev.change.engine.frame (listener :: back) h₁ :=
      Timer.Action.seq_of_ok hrun
    rw [← deliver_append, ← hseat, ← haudience] at hrest
    rw [hrest]
    obtain ⟨haudience', events, hcourse, hheard⟩ := hears_deliver hperform
      (fun other hother => hnamed other (List.mem_append_right front hother)) hkeeps
      ev.change.engine.frame h₁ (hsame.trans haudience)
    refine ⟨haudience', ev :: events, ?_, ?_⟩
    · rw [hbefore]
      refine .event hoccurs ?_
      have hstart : (h₁.record listener ev.change.engine.frame).engine = ev.change.engine := hengine
      rw [hstart] at hcourse
      exact hcourse
    · have hframe : ev.frame? = some ev.change.engine.frame := if_pos htold
      rw [hheard, issued_cons, hframe]
      simp only [House.record, framesFor_append, hdelivered, hnone]
      simp [framesFor]
  · next hquiet =>
    refine ⟨haudience, [ev], ?_, ?_⟩
    · rw [hbefore]
      exact .single hoccurs
    · have hframe : ev.frame? = none := if_neg hquiet
      rw [issued_cons, hframe]
      exact (List.append_nil _).symm

variable [LE τ] [DecidableLE τ]

/-- However calls are made, the listener goes on to be given what is issued. -/
theorem play (hfront : InFront audience listener) {h : House τ ν}
    (haudience : h.listeners = audience) (fuel : Nat) (calls : List (Call τ))
    (hcalls : ∀ call ∈ calls, call.KeepsAudience) :
    ∃ events, h.engine.Course events (h.play fuel calls).engine ∧
      framesFor listener.name (h.play fuel calls).delivered =
        framesFor listener.name h.delivered ++ issued events := by
  have htracked : House.Tracked Call.KeepsAudience (House.Hears audience
      (framesFor listener.name) (fun f => [f]) : House τ ν → House τ ν → Prop) :=
    House.Hears.tracked fun hperform => hfront.hears hperform
  obtain ⟨-, events, hcourse, hheard⟩ := House.play_relates
    (R := House.Hears audience (framesFor listener.name) fun f => [f]) .refl .trans
    (perform_tracks htracked fuel) calls (fun call hcall => (hcalls call hcall).within) h haudience
  exact ⟨events, hcourse, by rw [hheard, List.flatMap_singleton']⟩

end InFront

/-- An engine has come this far from `start`, and so had it whenever somebody was given a frame. -/
structure House.Shown (start : Engine τ ν) (h : House τ ν) : Prop where
  steps : Steps (fun _ => True) start h.engine
  frames : ∀ told ∈ h.delivered, ∃ e : Engine τ ν, Steps (fun _ => True) start e ∧
    told.2 = e.frame

/-- If frames have been given to others in this way, they still are. -/
def House.KeepsShown (start : Engine τ ν) (h h' : House τ ν) : Prop :=
  h.Shown start → h'.Shown start

namespace House.Shown

variable {start : Engine τ ν} {h : House τ ν}

theorem record (hshown : h.Shown start) (listener : Listener τ) {e : Engine τ ν}
    (he : Steps (fun _ => True) start e) : (h.record listener e.frame).Shown start where
  steps := hshown.steps
  frames := by
    intro told htold
    rcases List.mem_append.mp htold with hold | hnew
    · exact hshown.frames told hold
    · obtain rfl := List.mem_singleton.mp hnew
      exact ⟨e, he, rfl⟩

theorem of_saves (hshown : h.Shown start) {h' : House τ ν}
    (hengine : ∃ saves, h'.engine = { h.engine with saves })
    (hdelivered : h'.delivered = h.delivered) : h'.Shown start := by
  obtain ⟨saves, hengine⟩ := hengine
  refine ⟨?_, hdelivered ▸ hshown.frames⟩
  rw [hengine]
  exact hshown.steps.tail (.saves saves)

end House.Shown

namespace House.KeepsShown

variable {start : Engine τ ν}

theorem refl (h : House τ ν) : House.KeepsShown start h h := id

theorem trans {h h' h'' : House τ ν} (hfirst : House.KeepsShown start h h')
    (hsecond : House.KeepsShown start h' h'') : House.KeepsShown start h h'' :=
  fun hshown => hsecond (hfirst hshown)

/-- Frames that are given to an audience are those of the engine at that moment, even if it has been
moved on by calls in between. -/
theorem of_step {perform : Call τ → HouseAction τ ν (Reply τ)}
    (hperform : Relates (fun _ => True) (House.KeepsShown start) perform) {h : House τ ν}
    {c : Change τ ν} (hstep : Step (fun _ => True) h.engine c.engine) :
    House.KeepsShown start h (publish perform c h).2 := by
  intro hshown
  have hreached := hshown.steps.tail hstep
  unfold publish
  dsimp only
  split
  · exact deliver_relates (R := House.KeepsShown start) refl trans hperform c.engine.frame
      h.listeners (fun listener _ _ hbefore => hbefore.record listener hreached)
      (fun _ _ _ hbefore => ⟨hbefore.steps, hbefore.frames⟩)
      (fun _ _ call _ => call.within_any) _ ⟨hreached, hshown.frames⟩
  · exact ⟨hreached, hshown.frames⟩

theorem of_fire {perform : Call τ → HouseAction τ ν (Reply τ)}
    (hperform : Relates (fun _ => True) (House.KeepsShown start) perform) (h : House τ ν)
    (target : τ) (entry : Timer.Entry τ Alarm) (rest : Timer.Agenda τ Alarm)
    (hdue : (Timer.agenda h).pop? target = some (entry, rest)) :
    House.KeepsShown start h (fireAlarm perform entry.task (Timer.withAgenda h rest)).2 :=
  of_step hperform (h := h) (.alarm hdue)

theorem of_clock (h : House τ ν) (target : τ) (hquiet : (Timer.agenda h).pop? target = none) :
    House.KeepsShown start h (Timer.withAgenda h { Timer.agenda h with now := target }) :=
  fun hshown => ⟨hshown.steps.tail (.clock hquiet), hshown.frames⟩

variable [LE τ] [DecidableLE τ]

theorem tracked :
    House.Tracked (fun _ => True) (House.KeepsShown start : House τ ν → House τ ν → Prop) where
  refl := refl
  granted hperform _ _ _ _ hgranted := of_step hperform (.request trivial hgranted)
  save {h slot room} _ hshown :=
    hshown.of_saves (h.save_engine room slot) (h.save_delivered room slot)
  stored {h text room} _ hshown :=
    hshown.of_saves (h.setStoredText_engine room text) (h.setStoredText_delivered room text)
  subscribed _ _ _ _ _ _ _ hshown := ⟨hshown.steps, hshown.frames⟩
  unsubscribed _ _ _ _ hshown := ⟨hshown.steps, hshown.frames⟩
  wait hperform _ _ fuel h := Timer.runUntil_relates (R := House.KeepsShown start) refl trans
    (of_fire hperform) of_clock _ fuel 0 h
  idle hperform _ _ fuel h := Timer.runUntilQuiet_relates (R := House.KeepsShown start) refl trans
    (of_fire hperform) of_clock _ fuel 0 h

end House.KeepsShown

variable [LE τ] [DecidableLE τ]

/-- Every frame that was ever given to anybody was the frame of the engine in some state of the
run. -/
theorem House.shown_play (start : Engine τ ν) (stamps : Stamps) (fuel : Nat)
    (calls : List (Call τ)) : ((House.opening start stamps).play fuel calls).Shown start :=
  House.play_relates (R := House.KeepsShown start) .refl .trans
    (perform_tracks House.KeepsShown.tracked fuel) calls (fun call _ => call.within_any) _
    ⟨.refl, fun _ htold => (nomatch htold)⟩

end VisualNovel.Playback
