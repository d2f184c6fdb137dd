import Mathlib.Algebra.Order.Group.Nat
import VisualNovel.Proofs.Playback.Alarms

/-!
What a player brings about by going on, choosing and waiting, whoever looks on. A session that does
not go on by itself shows the rest of its text while the player waits, and stays where it is. An
ending that is under way returns to the title.
-/
namespace VisualNovel.Playback

variable {τ ν : Type}

/-- What a player does to get on. -/
inductive Call.Plays : Call τ → Prop
  | advance : Plays .advance
  | choose (index : Int) : Plays (.choose index)
  | wait (seconds : τ) : Plays (.wait seconds)

/-- The requests that lead on from a node. -/
inductive Call.IsInput : Call τ → Prop
  | advance : IsInput .advance
  | choose (index : Int) : IsInput (.choose index)

theorem Call.IsInput.plays {call : Call τ} (h : call.IsInput) : call.Plays := by
  cases h with
  | advance => exact .advance
  | choose index => exact .choose index

theorem Call.Plays.within {permitted : Call τ → Prop} {call : Call τ} (h : call.Plays)
    (hcall : permitted call) : call.Within permitted := by
  refine Call.within_of_plain ?_ hcall
  cases h <;> rfl

/-- Those who watch make no calls of their own. -/
def House.Silent (h : House τ ν) : Prop := ∀ listener ∈ h.listeners, listener.reaction = []

theorem House.Silent.of_listeners {h h' : House τ ν} (hsilent : h.Silent)
    (hsame : h'.listeners = h.listeners) : h'.Silent := by
  unfold House.Silent
  rw [hsame]
  exact hsilent

theorem House.Silent.within {permitted : Call τ → Prop} {h : House τ ν} (hsilent : h.Silent) :
    h.Within permitted := by
  intro listener hlistener call hcall
  rw [hsilent listener hlistener] at hcall
  cases hcall

section Delivery
variable (perform : Call τ → HouseAction τ ν (Reply τ))

theorem deliver_of_silent (f : Frame) {listeners : List (Listener τ)}
    (hsilent : ∀ listener ∈ listeners, listener.reaction = []) (h : House τ ν) :
    ∃ h', deliver perform f listeners h = (.ok (), h') ∧ h'.engine = h.engine ∧
      h'.listeners = h.listeners ∧
      h'.delivered = h.delivered ++ listeners.map fun listener => (listener.name, f) := by
  induction listeners generalizing h with
  | nil => exact ⟨h, rfl, rfl, rfl, (List.append_nil _).symm⟩
  | cons listener rest ih =>
    have hrest : ∀ l ∈ rest, l.reaction = [] := fun l hl => hsilent l (List.mem_cons_of_mem _ hl)
    obtain ⟨told, hrun, htold⟩ : ∃ told : House τ ν,
        deliver perform f (listener :: rest) h = deliver perform f rest told ∧
          told.engine = h.engine ∧ told.listeners = h.listeners ∧
          told.delivered = h.delivered ++ [(listener.name, f)] := by
      cases hreacts : (h.record listener f).reacts listener f with
      | none => exact ⟨_, deliver_of_quiet hreacts, rfl, rfl, rfl⟩
      | some left =>
        refine ⟨(h.record listener f).spend listener left, ?_, rfl, rfl, rfl⟩
        rw [deliver_of_reacting hreacts, hsilent listener List.mem_cons_self]
        exact Timer.Action.seq_of_ok rfl
    obtain ⟨h', hdone, hengine, hsame, hdelivered⟩ := ih hrest told
    refine ⟨h', hrun.trans hdone, hengine.trans htold.1, hsame.trans htold.2.1, ?_⟩
    rw [hdelivered, htold.2.2, List.map_cons, List.append_assoc, List.singleton_append]

theorem publish_of_silent {h : House τ ν} (hsilent : h.Silent) (c : Change τ ν) :
    ∃ h', publish perform c h = (.ok (), h') ∧ h'.engine = c.engine ∧
      h'.listeners = h.listeners ∧ h'.delivered = h.delivered ++
        if c.told then h.listeners.map fun listener => (listener.name, c.engine.frame) else [] := by
  unfold publish
  dsimp only
  split
  · exact deliver_of_silent perform c.engine.frame hsilent { h with engine := c.engine }
  · exact ⟨_, rfl, rfl, rfl, (List.append_nil _).symm⟩

end Delivery

section Requests
variable [Save.KeyValueStore ν]
variable [AddZeroClass τ] [Mul τ] [NatCast τ] [LinearOrder τ]

/-- A request that is granted takes effect, and nobody interferes. -/
theorem House.Silent.play_request {h : House τ ν} (hsilent : h.Silent) {call : Call τ}
    {c : Change τ ν} (hgranted : h.engine.outcome call = some (.ok c)) (fuel : Nat) :
    (h.play (fuel + 1) [call]).engine = c.engine ∧
      (h.play (fuel + 1) [call]).listeners = h.listeners := by
  obtain ⟨h', hpublish, hengine, hsame, -⟩ := publish_of_silent (perform fuel) hsilent c
  have hplay : h.play (fuel + 1) [call] = h' := by
    change (perform (fuel + 1) call h).2 = h'
    rw [perform_request hgranted]
    change (publish (perform fuel) c h).2 = h'
    rw [hpublish]
  rw [hplay]
  exact ⟨hengine, hsame⟩

/-- Given enough fuel, calls take an engine from one state to another. -/
def Engine.Takes (e : Engine τ ν) (calls : List (Call τ)) (e' : Engine τ ν) : Prop :=
  ∃ least, ∀ fuel, least ≤ fuel → ∀ h : House τ ν, h.Silent → h.engine = e →
    (h.play fuel calls).engine = e' ∧ (h.play fuel calls).listeners = h.listeners

namespace Engine.Takes

theorem nil (e : Engine τ ν) : e.Takes [] e := ⟨0, fun _ _ _ _ hengine => ⟨hengine, rfl⟩⟩

theorem append {e e' e'' : Engine τ ν} {calls calls' : List (Call τ)} (hfirst : e.Takes calls e')
    (hsecond : e'.Takes calls' e'') : e.Takes (calls ++ calls') e'' := by
  obtain ⟨least, hplay⟩ := hfirst
  obtain ⟨least', hplay'⟩ := hsecond
  refine ⟨max least least', ?_⟩
  intro fuel hfuel h hsilent hengine
  obtain ⟨hhalf, hsame⟩ := hplay fuel (le_trans (le_max_left _ _) hfuel) h hsilent hengine
  have hstill : (h.play fuel calls).Silent := hsilent.of_listeners hsame
  obtain ⟨hdone, hsame'⟩ :=
    hplay' fuel (le_trans (le_max_right _ _) hfuel) (h.play fuel calls) hstill hhalf
  have hboth : h.play fuel (calls ++ calls') = (h.play fuel calls).play fuel calls' :=
    List.foldl_append
  rw [hboth]
  exact ⟨hdone, hsame'.trans hsame⟩

theorem request {e : Engine τ ν} {call : Call τ} {c : Change τ ν}
    (hgranted : e.outcome call = some (.ok c)) : e.Takes [call] c.engine := by
  refine ⟨1, ?_⟩
  rintro fuel hfuel h hsilent rfl
  obtain ⟨less, rfl⟩ : ∃ less, fuel = less + 1 := ⟨fuel - 1, by omega⟩
  exact hsilent.play_request hgranted less

theorem advance (e : Engine τ ν) : e.Takes [.advance] e.advance.engine := request rfl

theorem choose {e : Engine τ ν} {index : Int} {c : Change τ ν}
    (hchosen : e.selectChoice index = .ok c) : e.Takes [.choose index] c.engine := by
  refine request ?_
  calc e.outcome (.choose index)
      = some ((e.selectChoice index).mapError .fault) := rfl
    _ = some (.ok c) := congrArg some (mapError_of_ok hchosen CallError.fault)

theorem steps {permitted : Call τ → Prop} {e e' : Engine τ ν} {calls : List (Call τ)}
    (h : e.Takes calls e') (hcalls : ∀ call ∈ calls, call.Within permitted) :
    Steps permitted e e' := by
  obtain ⟨least, hplay⟩ := h
  have hdone := (hplay least (Nat.le_refl _) (House.opening e ⟨[], 0⟩)
    (fun _ hmem => (nomatch hmem)) rfl).1
  exact hdone ▸ House.play_steps least calls hcalls e ⟨[], 0⟩

end Engine.Takes

/-- What a player does can take an engine from one state to another, given enough fuel. -/
def Engine.Leads (e e' : Engine τ ν) : Prop :=
  ∃ calls : List (Call τ), (∀ call ∈ calls, call.Plays) ∧
    ∃ least, ∀ fuel, least ≤ fuel → ∀ h : House τ ν, h.Silent → h.engine = e →
      (h.play fuel calls).engine = e' ∧ (h.play fuel calls).listeners = h.listeners

theorem Engine.Takes.leads {e e' : Engine τ ν} {calls : List (Call τ)} (h : e.Takes calls e')
    (hcalls : ∀ call ∈ calls, call.Plays) : e.Leads e' := ⟨calls, hcalls, h⟩

namespace Engine.Leads

theorem refl (e : Engine τ ν) : e.Leads e := (Takes.nil e).leads (fun _ hcall => (nomatch hcall))

theorem trans {e e' e'' : Engine τ ν} (hfirst : e.Leads e') (hsecond : e'.Leads e'') :
    e.Leads e'' := by
  obtain ⟨calls, hcalls, htakes⟩ := hfirst
  obtain ⟨calls', hcalls', htakes'⟩ := hsecond
  refine (Takes.append htakes htakes').leads ?_
  intro call hcall
  rcases List.mem_append.mp hcall with hmem | hmem
  · exact hcalls call hmem
  · exact hcalls' call hmem

theorem advance (e : Engine τ ν) : e.Leads e.advance.engine := by
  refine (Takes.advance e).leads ?_
  intro call hcall
  rw [List.mem_singleton.mp hcall]
  exact .advance

theorem choose {e : Engine τ ν} {index : Int} {c : Change τ ν}
    (hchosen : e.selectChoice index = .ok c) : e.Leads c.engine := by
  refine (Takes.choose hchosen).leads ?_
  intro call hcall
  rw [List.mem_singleton.mp hcall]
  exact .choose index

end Engine.Leads

end Requests

section Spans
variable [AddZeroClass τ] [Mul τ] [NatCast τ] [LinearOrder τ]

/-- A timer that is due runs first, and nobody interferes. -/
theorem House.Silent.exists_fired {h : House τ ν} (hsilent : h.Silent)
    (perform : Call τ → HouseAction τ ν (Reply τ)) {target : τ} {entry : Timer.Entry τ Alarm}
    {rest : Timer.Agenda τ Alarm} (hdue : h.engine.agenda.pop? target = some (entry, rest)) :
    ∃ h' : House τ ν,
      h'.engine = (({ h.engine with agenda := rest } : Engine τ ν).fire entry.task).engine ∧
        h'.listeners = h.listeners ∧ ∀ fuel ran,
          Timer.runUntil (fireAlarm perform) target (fuel + 1) ran h =
            Timer.runUntil (fireAlarm perform) target fuel (ran + 1) h' := by
  obtain ⟨h', hfired, hengine, hsame, -⟩ := publish_of_silent perform
    (h := Timer.withAgenda h rest) hsilent (({ h.engine with agenda := rest } :
      Engine τ ν).fire entry.task)
  refine ⟨h', hengine, hsame, fun fuel ran => ?_⟩
  rw [Timer.runUntil_of_due (s := h) hdue]
  exact Timer.Action.seq_of_ok hfired

/-- Moving the clock takes an engine from one state to another, given enough fuel. -/
def Engine.Moves (e : Engine τ ν) (target : τ) (e' : Engine τ ν) : Prop :=
  ∃ least, ∀ fuel, least ≤ fuel → ∀ perform ran, ∀ h : House τ ν, h.Silent → h.engine = e →
    (Timer.runUntil (fireAlarm perform) target fuel ran h).2.engine = e' ∧
      (Timer.runUntil (fireAlarm perform) target fuel ran h).2.listeners = h.listeners

namespace Engine.Moves

theorem of_quiet {e : Engine τ ν} {target : τ} (hquiet : e.agenda.pop? target = none) :
    e.Moves target { e with agenda := { e.agenda with now := target } } := by
  refine ⟨1, ?_⟩
  rintro fuel hfuel perform ran h - rfl
  obtain ⟨less, rfl⟩ : ∃ less, fuel = less + 1 := ⟨fuel - 1, by omega⟩
  rw [Timer.runUntil_of_quiet (s := h) hquiet]
  exact ⟨rfl, rfl⟩

theorem of_still {e : Engine τ ν} (hquiet : e.agenda.pop? e.agenda.now = none) :
    e.Moves e.agenda.now e := of_quiet hquiet

theorem of_due {e e' : Engine τ ν} {target : τ} {entry : Timer.Entry τ Alarm}
    {rest : Timer.Agenda τ Alarm} (hdue : e.agenda.pop? target = some (entry, rest))
    (hrest : (({ e with agenda := rest } : Engine τ ν).fire entry.task).engine.Moves target e') :
    e.Moves target e' := by
  obtain ⟨least, hmove⟩ := hrest
  refine ⟨least + 1, ?_⟩
  rintro fuel hfuel perform ran h hsilent rfl
  obtain ⟨less, rfl⟩ : ∃ less, fuel = less + 1 := ⟨fuel - 1, by omega⟩
  obtain ⟨h', hengine, hsame, hrun⟩ := hsilent.exists_fired perform hdue
  obtain ⟨hdone, hsame'⟩ :=
    hmove less (by omega) perform (ran + 1) h' (hsilent.of_listeners hsame) hengine
  rw [hrun]
  exact ⟨hdone, hsame'.trans hsame⟩

variable [Save.KeyValueStore ν]

theorem takes {e e' : Engine τ ν} {seconds : τ} (h : e.Moves (e.agenda.now + seconds) e') :
    e.Takes [.wait seconds] e' := by
  obtain ⟨least, hmove⟩ := h
  refine ⟨least + 1, ?_⟩
  rintro fuel hfuel h hsilent rfl
  obtain ⟨less, rfl⟩ : ∃ less, fuel = less + 1 := ⟨fuel - 1, by omega⟩
  exact hmove less (by omega) (perform less) 0 h hsilent rfl

end Engine.Moves

end Spans

/-- Nothing is done but waiting. -/
inductive Call.Waits : Call τ → Prop
  | wait (seconds : τ) : Waits (.wait seconds)

theorem Call.Waits.plays {call : Call τ} (h : call.Waits) : call.Plays := by
  cases h with
  | wait seconds => exact .wait seconds

section Drifting
variable [Save.KeyValueStore ν]
variable [AddZeroClass τ] [Mul τ] [NatCast τ] [LinearOrder τ]

/-- Given enough fuel, waiting alone takes an engine from one state to another. -/
def Engine.Drifts (e e' : Engine τ ν) : Prop :=
  ∃ calls : List (Call τ), (∀ call ∈ calls, call.Waits) ∧ e.Takes calls e'

namespace Engine.Drifts

theorem refl (e : Engine τ ν) : e.Drifts e := ⟨[], fun _ hcall => (nomatch hcall), .nil e⟩

theorem trans {e e' e'' : Engine τ ν} (hfirst : e.Drifts e') (hsecond : e'.Drifts e'') :
    e.Drifts e'' := by
  obtain ⟨calls, hcalls, htakes⟩ := hfirst
  obtain ⟨calls', hcalls', htakes'⟩ := hsecond
  refine ⟨calls ++ calls', ?_, htakes.append htakes'⟩
  intro call hcall
  rcases List.mem_append.mp hcall with hmem | hmem
  · exact hcalls call hmem
  · exact hcalls' call hmem

theorem leads {e e' : Engine τ ν} (h : e.Drifts e') : e.Leads e' := by
  obtain ⟨calls, hcalls, htakes⟩ := h
  exact htakes.leads fun call hcall => (hcalls call hcall).plays

theorem steps {e e' : Engine τ ν} (h : e.Drifts e') : Steps Call.Waits e e' := by
  obtain ⟨calls, hcalls, htakes⟩ := h
  exact htakes.steps fun call hcall => (hcalls call hcall).plays.within (hcalls call hcall)

end Engine.Drifts

end Drifting

section Titles
variable [LinearOrder τ]

theorem Engine.Sets.coming {e : Engine τ ν} {kind : Option AlarmKind} (h : e.Sets kind) {target : τ}
    (hquiet : e.agenda.pop? target = none) : ∀ t ∈ e.agenda.queue, target < t.due := by
  obtain ⟨waiting, hholds, -⟩ := h
  intro t ht
  refine Timer.Agenda.pop?_eq_none hquiet t ?_
  have hqueue := hholds.queue
  rw [hqueue, Option.mem_toList] at ht
  rw [hqueue, ht]
  rfl

variable [AddZeroClass τ]

theorem Engine.Sets.exists_due [ExistsAddOfLE τ] {e : Engine τ ν} {kind : AlarmKind}
    (h : e.Sets (some kind)) : ∃ seconds, e.agenda.pop? (e.agenda.now + seconds) ≠ none := by
  obtain ⟨waiting, hholds, hkind⟩ := h
  obtain ⟨t, rfl, -⟩ := Option.map_eq_some_iff.mp hkind
  have hqueue : e.agenda.queue = [t] := hholds.queue
  obtain ⟨seconds, hseconds⟩ : ∃ seconds, ¬ e.agenda.now + seconds < t.due := by
    rcases le_total t.due e.agenda.now with hpast | hcoming
    · refine ⟨0, ?_⟩
      rw [add_zero]
      exact not_lt.mpr hpast
    · obtain ⟨seconds, hseconds⟩ := exists_add_of_le hcoming
      exact ⟨seconds, hseconds ▸ lt_irrefl _⟩
  refine ⟨seconds, ?_⟩
  unfold Timer.Agenda.pop?
  rw [hqueue]
  simp [hseconds]

variable [Save.KeyValueStore ν]
variable [Mul τ] [NatCast τ]

theorem Engine.Moves.drifts {e e' : Engine τ ν} {target seconds : τ} (h : e.Moves target e')
    (htarget : target = e.agenda.now + seconds) : e.Drifts e' := by
  subst htarget
  refine ⟨[.wait seconds], ?_, h.takes⟩
  intro call hcall
  rw [List.mem_singleton.mp hcall]
  exact .wait seconds

theorem Engine.exists_title [ExistsAddOfLE τ] {e : Engine τ ν} (h : e.Sets (some .titleReturn)) :
    ∃ e' : Engine τ ν, e.Leads e' ∧ e'.session = {} := by
  obtain ⟨seconds, hdue⟩ := h.exists_due
  cases hpop : e.agenda.pop? (e.agenda.now + seconds) with
  | none => exact absurd hpop hdue
  | some popped =>
    obtain ⟨entry, rest⟩ := popped
    obtain ⟨hkind, hpopped⟩ := Engine.Sets.pop h hpop
    have hfire : ({ e with agenda := rest } : Engine τ ν).fire entry.task =
        ({ e with agenda := rest } : Engine τ ν).returnToTitle := by
      rw [hpopped.fire_eq, ← Option.some.inj hkind]
    have hempty := hpopped.clears.returnToTitle.holds_none.queue
    have hquiet : (({ e with agenda := rest } : Engine τ ν).fire
        entry.task).engine.agenda.pop? (e.agenda.now + seconds) = none := by
      rw [hfire]
      unfold Timer.Agenda.pop?
      rw [hempty]
      rfl
    refine ⟨_, ((Engine.Moves.of_due hpop (.of_quiet hquiet)).drifts rfl).leads, ?_⟩
    rw [hfire]
    rfl

end Titles

/-- The visit to a node goes on. -/
structure Session.Remains (old new : Session) : Prop where
  view : new.view = old.view
  current : new.current = old.current
  history : new.history = old.history
  pacing : new.pacing = old.pacing
  ending : new.ending = old.ending

theorem Session.Remains.refl (s : Session) : s.Remains s := ⟨rfl, rfl, rfl, rfl, rfl⟩

theorem Session.Remains.trans {s s' s'' : Session} (h : s.Remains s') (h' : s'.Remains s'') :
    s.Remains s'' where
  view := h'.view.trans h.view
  current := h'.current.trans h.current
  history := h'.history.trans h.history
  pacing := h'.pacing.trans h.pacing
  ending := h'.ending.trans h.ending

/-- A session plays a node of the script, and no ending is under way. -/
structure Engine.Stands (e : Engine τ ν) (s : Script) (node : Node) : Prop where
  script : e.script = s
  sound : e.session.Sound e.script
  armed : e.Armed
  current : e.currentNode = some node
  ending : e.session.ending = false

/-- Only the player can go on. -/
structure Engine.Lingers (e : Engine τ ν) (s : Script) (node : Node) : Prop
    extends e.Stands s node where
  waits : e.session.pacing = .manual ∨ node.isDecision = true ∨ node.hasVideo = true

theorem Steps.exists_stands [Save.KeyValueStore ν] [AddZeroClass τ] [Mul τ] [NatCast τ]
    [LinearOrder τ] {permitted : Call τ → Prop} {script : Script} {timing : Timing τ}
    {saves : Option (Save.Repository ν)} {e : Engine τ ν} (hkeys : script.KeysAreIds)
    (hsteps : Steps permitted (Engine.opening script timing saves) e)
    (hview : e.session.view = .playing) (hending : e.session.ending = false) :
    ∃ node, e.Stands script node := by
  have hscript : e.script = script := Steps.script hsteps
  have hsound := Steps.sound hsteps hkeys (Session.sound_initial script)
  have harmed : e.Armed := Steps.armed hsteps hkeys (Session.sound_initial script)
    (Engine.opening_sets script timing saves)
  obtain ⟨node, hat⟩ := hsound.playing hview
  exact ⟨node, hscript, hsound, harmed, Engine.currentNode_of_at hview hat, hending⟩

namespace Engine.Stands

variable {e : Engine τ ν} {s : Script} {node : Node}

theorem progress_lt (h : e.Stands s node) (hreveal : e.session.reveal = .revealing) :
    e.session.progress < node.text.length := by
  obtain ⟨-, hat⟩ := Engine.at_of_currentNode h.sound h.current
  refine lt_of_le_of_ne hat.progress ?_
  intro hfull
  exact absurd (hreveal.symm.trans (hat.reveal.mpr hfull)) (by simp)

theorem of_remains (h : e.Stands s node) {e' : Engine τ ν} (hscript : e'.script = e.script)
    (hsound : e'.session.Sound e.script) (harmed : e'.Armed)
    (hremains : e.session.Remains e'.session) : e'.Stands s node where
  script := hscript.trans h.script
  sound := by
    rw [hscript]
    exact hsound
  armed := harmed
  current :=
    (Engine.currentNode_congr hscript hremains.view hremains.current).trans h.current
  ending := hremains.ending.trans h.ending

theorem withClock (h : e.Stands s node) (now : τ) :
    ({ e with agenda := { e.agenda with now } } : Engine τ ν).Stands s node :=
  ⟨h.script, h.sound, Engine.Sets.withClock h.armed now, h.current, h.ending⟩

theorem withSaves (h : e.Stands s node) (saves : Option (Save.Repository ν)) :
    ({ e with saves } : Engine τ ν).Stands s node :=
  ⟨h.script, h.sound, Engine.Sets.withSaves h.armed saves, h.current, h.ending⟩

variable [AddZeroClass τ] [Mul τ] [NatCast τ] [LinearOrder τ]

theorem advance_of_afterVideo (h : e.Stands s node) {target : Node}
    (hpast : s.afterVideo? node = some target) : e.advance = e.navigate target := by
  have hvideo := (Script.afterVideo?_eq_some hpast).1
  unfold Script.afterVideo? at hpast
  split at hpast
  · next hskips =>
    unfold Engine.advance Engine.passVideo
    rw [h.current]
    simp [h.ending, hvideo, hskips.2, h.script, hpast]
  · cases hpast

theorem advance_of_plain (h : e.Stands s node) (hvideo : node.hasVideo = false)
    (hchoices : node.choices = []) (hrevealed : e.session.reveal = .revealed) :
    e.advance = match e.successor node with
      | some target => e.navigate target
      | none => e.beginEnding :=
  Engine.advance_of_plain h.current h.ending hvideo hchoices hrevealed

theorem selectChoice_eq (h : e.Stands s node) (hrevealed : e.session.reveal = .revealed)
    {index : Nat} {choice : Choice} (hindex : node.choices[index]? = some choice) :
    e.selectChoice index = .ok (e.follow choice) := by
  have hdecision : node.isDecision = true := by
    simpa [Node.isDecision] using List.ne_nil_of_mem (List.mem_of_getElem? hindex)
  unfold Engine.selectChoice
  rw [h.current]
  simp [h.ending, hdecision, hrevealed, hindex]

/-- While text appears, the only timer that can run is the one for the next character. -/
theorem fire_eq (h : e.Stands s node) (hreveal : e.session.reveal = .revealing) {target : τ}
    {entry : Timer.Entry τ Alarm} {rest : Timer.Agenda τ Alarm}
    (hdue : e.agenda.pop? target = some (entry, rest)) :
    ({ e with agenda := rest } : Engine τ ν).fire entry.task =
      ({ e with agenda := rest } : Engine τ ν).revealTick := by
  obtain ⟨hawaited, hpopped⟩ := Engine.Sets.pop h.armed hdue
  have hkind : entry.task.kind = .revealTick := by
    unfold Engine.awaited at hawaited
    rw [h.current] at hawaited
    simpa [hreveal] using hawaited.symm
  rw [hpopped.fire_eq, hkind]

theorem tick (h : e.Stands s node) (hkeys : s.KeysAreIds)
    (hreveal : e.session.reveal = .revealing) {target : τ} {entry : Timer.Entry τ Alarm}
    {rest : Timer.Agenda τ Alarm} (hdue : e.agenda.pop? target = some (entry, rest)) :
    (({ e with agenda := rest } : Engine τ ν).fire entry.task).engine.Stands s node ∧
      e.session.Remains (({ e with agenda := rest } : Engine τ ν).fire entry.task).engine.session ∧
      (({ e with agenda := rest } : Engine τ ν).fire entry.task).engine.session.progress =
        e.session.progress + 1 := by
  obtain ⟨hawaited, hpopped⟩ := Engine.Sets.pop h.armed hdue
  have hkeys' : e.script.KeysAreIds := h.script ▸ hkeys
  have hcurrent : ({ e with agenda := rest } : Engine τ ν).currentNode = some node := h.current
  have hfire := h.fire_eq hreveal hdue
  have hmin : min (e.session.progress + 1) node.text.length = e.session.progress + 1 :=
    Nat.min_eq_left (h.progress_lt hreveal)
  have hsound := Engine.fire_sound (e := { e with agenda := rest }) entry.task hkeys' h.sound
  have harmed := hpopped.fire_armed hawaited hkeys' h.sound
  have hscript := ({ e with agenda := rest } : Engine τ ν).fire_script entry.task
  have hsession := revealTick_session hcurrent
  rw [hfire] at hsound harmed hscript ⊢
  have hremains : e.session.Remains ({ e with agenda := rest } :
      Engine τ ν).revealTick.engine.session := by
    rw [hsession]
    exact ⟨rfl, rfl, rfl, rfl, rfl⟩
  exact ⟨h.of_remains hscript hsound harmed hremains, hremains,
    (congrArg Session.progress hsession).trans hmin⟩

end Engine.Stands

namespace Engine.Lingers

variable {e : Engine τ ν} {s : Script} {node : Node}

theorem awaited (h : e.Lingers s node) :
    e.awaited = if e.session.reveal = .revealing then some .revealTick else none := by
  unfold Engine.awaited
  rw [h.current]
  simp [h.waits, h.ending]

variable [LinearOrder τ]

theorem revealing_of_due (h : e.Lingers s node) {target : τ} {entry : Timer.Entry τ Alarm}
    {rest : Timer.Agenda τ Alarm} (hdue : e.agenda.pop? target = some (entry, rest)) :
    e.session.reveal = .revealing := by
  obtain ⟨hawaited, -⟩ := Engine.Sets.pop h.armed hdue
  rw [h.awaited] at hawaited
  by_contra hrevealed
  rw [if_neg hrevealed] at hawaited
  cases hawaited

variable [AddZeroClass τ] [Mul τ] [NatCast τ]

theorem tick (h : e.Lingers s node) (hkeys : s.KeysAreIds) {target : τ}
    {entry : Timer.Entry τ Alarm} {rest : Timer.Agenda τ Alarm}
    (hdue : e.agenda.pop? target = some (entry, rest)) :
    e.session.progress < node.text.length ∧
      (({ e with agenda := rest } : Engine τ ν).fire entry.task).engine.Lingers s node ∧
      e.session.Remains (({ e with agenda := rest } : Engine τ ν).fire entry.task).engine.session ∧
      (({ e with agenda := rest } : Engine τ ν).fire entry.task).engine.session.progress =
        e.session.progress + 1 := by
  have hreveal := h.revealing_of_due hdue
  obtain ⟨hstands, hremains, hprogress⟩ := h.toStands.tick hkeys hreveal hdue
  refine ⟨h.progress_lt hreveal, ⟨hstands, ?_⟩, hremains, hprogress⟩
  rw [hremains.pacing]
  exact h.waits

/-- However far the clock is moved, the session stays at the node, and shows more of its text if
anything was due. -/
theorem moves (h : e.Lingers s node) (hkeys : s.KeysAreIds) (target : τ) :
    ∃ e' : Engine τ ν, e.Moves target e' ∧ e'.Lingers s node ∧ e.session.Remains e'.session ∧
      e.session.progress ≤ e'.session.progress ∧
      (e.agenda.pop? target ≠ none → e.session.progress < e'.session.progress) := by
  -- The induction is on the characters still to come: a timer that runs shows one of them.
  induction hleft : node.text.length - e.session.progress using Nat.strong_induction_on
    generalizing e with
  | _ left ih =>
    cases hpop : e.agenda.pop? target with
    | none =>
      exact ⟨_, .of_quiet hpop, ⟨h.toStands.withClock target, h.waits⟩, .refl _, Nat.le_refl _,
        fun hdue => absurd rfl hdue⟩
    | some popped =>
      obtain ⟨entry, rest⟩ := popped
      obtain ⟨hless, hlingers, hremains, hprogress⟩ := h.tick hkeys hpop
      obtain ⟨e', hmoves, hlingers', hremains', hle, -⟩ := ih _ (by omega) hlingers rfl
      exact ⟨e', .of_due hpop hmoves, hlingers', hremains.trans hremains', by omega,
        fun _ => by omega⟩

variable [Save.KeyValueStore ν]

theorem exists_revealed [ExistsAddOfLE τ] (h : e.Lingers s node) (hkeys : s.KeysAreIds) :
    ∃ e' : Engine τ ν, e.Drifts e' ∧ e'.Lingers s node ∧ e.session.Remains e'.session ∧
      e'.session.reveal = .revealed := by
  induction hleft : node.text.length - e.session.progress using Nat.strong_induction_on
    generalizing e with
  | _ left ih =>
    cases hreveal : e.session.reveal with
    | revealed => exact ⟨e, .refl e, h, .refl _, hreveal⟩
    | revealing =>
      have hset : e.Sets (some .revealTick) := by
        have harmed := h.armed
        unfold Engine.Armed at harmed
        rwa [h.awaited, if_pos hreveal] at harmed
      obtain ⟨seconds, hdue⟩ := hset.exists_due
      obtain ⟨e₁, hmoves, hlingers, hremains, -, hmore⟩ := h.moves hkeys (e.agenda.now + seconds)
      have hless := h.progress_lt hreveal
      have hprogress := hmore hdue
      obtain ⟨e', hdrifts, hlingers', hremains', hrevealed⟩ := ih _ (by omega) hlingers rfl
      exact ⟨e', (hmoves.drifts rfl).trans hdrifts, hlingers', hremains.trans hremains', hrevealed⟩

end Engine.Lingers

end VisualNovel.Playback
