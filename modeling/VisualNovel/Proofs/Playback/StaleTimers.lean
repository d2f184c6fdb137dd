import Mathlib.Algebra.Order.Group.Nat
import VisualNovel.Proofs.Playback.Pairs
import VisualNovel.Proofs.Playback.Settled

/-!
Timers that are cancelled in vain. A house on an agenda that ignores cancelling goes through the
same states as one on an agenda that heeds it: the timers that the other agenda drops run as timers
of an older generation, and change nothing but the time until the next one that counts.
-/
namespace VisualNovel.Playback

variable {τ ν : Type}
variable [LinearOrder τ]

/-- The second engine is the first one without its old timers. -/
def Sheds (e e' : Engine τ ν) : Prop := e.Littered ∧ e' = e.settled

/-- The other way round: the second engine has the old timers. -/
def Gathers (e e' : Engine τ ν) : Prop := Sheds e' e

section Answers
variable [Save.KeyValueStore ν]
variable [AddZeroClass τ] [Mul τ] [NatCast τ] [AddLeftMono τ]

theorem Sheds.answers {e e' : Engine τ ν} (h : Sheds e e') (call : Call τ) :
    Answers Sheds (e.outcome call) (e'.outcome call) := by
  obtain ⟨hlittered, rfl⟩ := h
  rw [hlittered.settled_outcome]
  cases houtcome : e.outcome call with
  | none => exact .other
  | some r =>
    cases r with
    | error f => exact .refused f
    | ok c => exact .granted ⟨hlittered.granted houtcome, rfl⟩ rfl

theorem Gathers.answers {e e' : Engine τ ν} (h : Gathers e e') (call : Call τ) :
    Answers Gathers (e.outcome call) (e'.outcome call) := by
  have hanswers := Sheds.answers h call
  generalize e.outcome call = r at hanswers ⊢
  generalize e'.outcome call = r' at hanswers ⊢
  cases hanswers with
  | other => exact .other
  | refused f => exact .refused f
  | granted hengines htold => exact .granted hengines htold.symm

end Answers

section Moves
variable {E : Engine τ ν → Engine τ ν → Prop} {h h' t t' : House τ ν} {target : τ}
variable [Save.KeyValueStore ν]
variable [AddZeroClass τ] [Mul τ] [NatCast τ]

/-- A timer that runs in both houses, and the moves that go on from there. -/
theorem exists_runUntil_of_step {entry : Timer.Entry τ Alarm} {rest : Timer.Agenda τ Alarm}
    (hdue : (Timer.agenda h).pop? target = some (entry, rest)) {fuel fuel' : Nat}
    (hrun : fireAlarm (perform fuel) entry.task (Timer.withAgenda h rest) = (.ok (), t)) (ran : Nat)
    (hdone : (Timer.runUntil (fireAlarm (perform fuel')) target fuel' (ran + 1) t).1 ≠
      .error .outOfFuel) :
    ∃ more,
      Timer.runUntil (fireAlarm (perform more)) target more ran h =
        Timer.runUntil (fireAlarm (perform fuel')) target fuel' (ran + 1) t ∧
      Timer.passed (fireAlarm (perform more)) target more h =
        t :: Timer.passed (fireAlarm (perform fuel')) target fuel' t := by
  have hfire : ∀ n alarm, n ≤ max fuel fuel' + 1 →
      (fireAlarm (perform n) alarm : HouseAction τ ν Unit).Extends
        (fireAlarm (perform (max fuel fuel' + 1)) alarm) :=
    fun n alarm hle s => publish_extends (perform_extends hle) (s.engine.fire alarm) s
  have hrun' : fireAlarm (perform (max fuel fuel' + 1)) entry.task (Timer.withAgenda h rest) =
      (.ok (), t) := by
    rw [hfire fuel entry.task (by omega) _ (by rw [hrun]; simp)]
    exact hrun
  have hle : fuel' ≤ max fuel fuel' := Nat.le_max_right _ _
  have hfire' := fun alarm => hfire fuel' alarm (by omega)
  refine ⟨max fuel fuel' + 1, ?_, ?_⟩
  · rw [Timer.runUntil_of_due hdue, Timer.Action.seq_of_ok hrun']
    exact Timer.runUntil_extends hfire' target hle (ran + 1) t hdone
  · rw [Timer.passed_of_ok hdue hrun', Timer.passed_extends hfire' hle hdone]

theorem MovesAlike.of_quiet {fuel steps ran : Nat} (hquiet : (Timer.agenda h).pop? target = none)
    (hquiet' : (Timer.agenda h').pop? target = none) (hsight : h'.sight = h.sight)
    (hpairs : Pairs E (Timer.withAgenda h { Timer.agenda h with now := target })
      (Timer.withAgenda h' { Timer.agenda h' with now := target })) :
    MovesAlike E fuel target (steps + 1) ran h h' := by
  intro hdone ran'
  refine ⟨1, ?_, ?_⟩
  · rw [Timer.runUntil_of_quiet hquiet, Timer.runUntil_of_quiet hquiet']
    exact ⟨rfl, hpairs⟩
  · rw [Timer.passed_of_quiet hquiet, Timer.passed_of_quiet hquiet']
    unfold sights
    rw [List.map_singleton, List.map_singleton, hsight]

theorem MovesAlike.of_due (hE : DifferInAgendas E) {entry : Timer.Entry τ Alarm}
    {rest rest' : Timer.Agenda τ Alarm} {fuel steps ran : Nat}
    (hdue : (Timer.agenda h).pop? target = some (entry, rest))
    (hdue' : (Timer.agenda h').pop? target = some (entry, rest')) (hsight : h'.sight = h.sight)
    (hfire : Mirrors E (fireAlarm (perform fuel) entry.task)
      (fun fuel => fireAlarm (perform fuel) entry.task) (Timer.withAgenda h rest)
      (Timer.withAgenda h' rest'))
    (hrest : ∀ t t', Pairs E t t' → MovesAlike E fuel target steps (ran + 1) t t') :
    MovesAlike E fuel target (steps + 1) ran h h' := by
  intro hdone ran'
  rw [Timer.runUntil_of_due hdue] at hdone ⊢
  have hhead := Timer.Action.ne_outOfFuel_of_seq hdone
  obtain ⟨least, hend, hpairs⟩ := hfire hhead
  rcases hrun : fireAlarm (perform fuel) entry.task (Timer.withAgenda h rest) with ⟨halt | _, t⟩
  · rw [hrun] at hhead hend hpairs
    have hhead' := ne_outOfFuel_of_failure hend hhead
    have hmore := publish_extends (fun call => perform_extends (Nat.le_succ least) call) _ _ hhead'
    have hrun' : fireAlarm (perform (least + 1)) entry.task (Timer.withAgenda h' rest') =
        (.error halt, (fireAlarm (perform least) entry.task (Timer.withAgenda h' rest')).2) :=
      hmore.trans (Prod.ext (eq_error_of_failure hend) rfl)
    refine ⟨least + 1, ?_, ?_⟩
    · rw [Timer.runUntil_of_due hdue', Timer.Action.seq_of_error hrun,
        Timer.Action.seq_of_error hrun']
      exact ⟨rfl, hpairs⟩
    · rw [Timer.passed_of_error hdue hrun, Timer.passed_of_error hdue' hrun']
      exact sights_pair hsight (hpairs.sight_eq hE)
  · rw [hrun] at hend hpairs
    rw [Timer.Action.seq_of_ok hrun] at hdone ⊢
    obtain ⟨⟨⟩, hok⟩ := eq_ok_of_failure hend
    have hrun' : fireAlarm (perform least) entry.task (Timer.withAgenda h' rest') =
        (.ok (), (fireAlarm (perform least) entry.task (Timer.withAgenda h' rest')).2) :=
      Prod.ext hok rfl
    obtain ⟨fuel', hagree, hsights⟩ := hrest t _ hpairs hdone (ran' + 1)
    obtain ⟨more, hsame, hpassed⟩ := exists_runUntil_of_step hdue' hrun' ran'
      (ne_outOfFuel_of_failure hagree.1 hdone)
    refine ⟨more, ?_, ?_⟩
    · rw [hsame]
      exact hagree
    · rw [Timer.passed_of_ok hdue hrun, hpassed]
      exact sights_congr hsight (hpairs.sight_eq hE) hsights

end Moves

theorem sheds_differ : DifferInAgendas (Sheds : Engine τ ν → Engine τ ν → Prop) :=
  fun _ _ h => ⟨_, h.2⟩

theorem gathers_differ : DifferInAgendas (Gathers : Engine τ ν → Engine τ ν → Prop) := by
  rintro e e' ⟨-, rfl⟩
  exact ⟨e'.agenda, rfl⟩

/-- The house without the old timers of its engine, and with its clock at another time. -/
def House.shed (h : House τ ν) (now : τ) : House τ ν :=
  { h with engine := h.engine.settled.clockAt now }

section Littered
variable {h : House τ ν} {target : τ} {entry : Timer.Entry τ Alarm}
variable {rest : Timer.Agenda τ Alarm}

theorem now_le_of_pop (hlittered : h.engine.Littered)
    (hdue : h.engine.agenda.pop? target = some (entry, rest)) :
    h.engine.agenda.now ≤ (Timer.withAgenda h rest).engine.agenda.now := by
  obtain ⟨queue, hqueue, htarget, hfirst, hrest, hlags⟩ := hlittered.toLags.pop hdue
  have hclock : (Timer.withAgenda h rest).engine.agenda.now = entry.due :=
    congrArg Timer.Agenda.now hrest
  rw [hclock]
  exact hfirst

theorem length_lt_of_pop (hdue : h.engine.agenda.pop? target = some (entry, rest)) :
    (Timer.withAgenda h rest).engine.agenda.queue.length < h.engine.agenda.queue.length := by
  obtain ⟨queue, hqueue, htarget, rfl⟩ := Timer.Agenda.pop?_eq_some hdue
  rw [hqueue]
  exact Nat.lt_succ_self queue.length

theorem shed_old (hlittered : h.engine.Littered)
    (hdue : h.engine.agenda.pop? target = some (entry, rest))
    (hold : ¬ h.engine.counts entry = true) (now : τ) :
    (Timer.withAgenda h rest).shed now = h.shed now := by
  have hsame := hlittered.toLags.pop_old hdue hold now
  unfold House.shed
  rw [← hsame]
  rfl

variable [AddZeroClass τ] [Mul τ] [NatCast τ]

/-- An old timer that runs does nothing. -/
theorem fireAlarm_old (hold : ¬ h.engine.counts entry = true)
    (act : Call τ → HouseAction τ ν (Reply τ)) (rest : Timer.Agenda τ Alarm) :
    fireAlarm act entry.task (Timer.withAgenda h rest) = (.ok (), Timer.withAgenda h rest) := by
  have hfire : ({ h.engine with agenda := rest } : Engine τ ν).fire entry.task =
      Engine.quiet { h.engine with agenda := rest } := Engine.fire_old hold
  have hengine : (Timer.withAgenda h rest).engine =
    ({ h.engine with agenda := rest } : Engine τ ν) := rfl
  unfold fireAlarm publish
  rw [hengine, hfire]
  rfl

variable [AddLeftMono τ]

/-- What a timer that counts does to an engine, it does to the engine without the old timers. -/
theorem sheds_fire (hlittered : h.engine.Littered)
    (hdue : h.engine.agenda.pop? target = some (entry, rest))
    (hcounts : h.engine.counts entry = true) :
    Sheds (({ h.engine with agenda := rest } : Engine τ ν).fire entry.task).engine
      (({ h.engine with agenda := rest } : Engine τ ν).settled.fire entry.task).engine ∧
    (({ h.engine with agenda := rest } : Engine τ ν).settled.fire entry.task).told =
      (({ h.engine with agenda := rest } : Engine τ ν).fire entry.task).told := by
  have hpopped := hlittered.popped hdue hcounts
  obtain ⟨-, -, -, -, -, hlags⟩ := hlittered.toLags.pop hdue
  rw [← hlags.settled_fire hpopped]
  exact ⟨⟨hlags.fire hpopped, rfl⟩, rfl⟩

variable [Save.KeyValueStore ν]

theorem fireAlarm_sheds {fuel : Nat} (hperform : Mirrored (τ := τ) (ν := ν) Sheds (perform fuel))
    (hlittered : h.engine.Littered) (htimed : h.Within Call.Timed)
    (hdue : h.engine.agenda.pop? target = some (entry, rest))
    (hcounts : h.engine.counts entry = true) :
    Mirrors Sheds (fireAlarm (perform fuel) entry.task)
      (fun fuel => fireAlarm (perform fuel) entry.task) (Timer.withAgenda h rest)
      { h with engine := ({ h.engine with agenda := rest } : Engine τ ν).settled } := by
  obtain ⟨hengines, htold⟩ := sheds_fire hlittered hdue hcounts
  have hframe := congrArg Engine.frame hengines.2
  have htimed' : (Timer.withAgenda h rest).Within Call.Timed := htimed
  exact publish_mirrors hperform hengines htold hframe htimed' _

theorem fireAlarm_gathers {fuel : Nat}
    (hperform : Mirrored (τ := τ) (ν := ν) Gathers (perform fuel))
    (hlittered : h.engine.Littered) (htimed : h.Within Call.Timed)
    (hdue : h.engine.agenda.pop? target = some (entry, rest))
    (hcounts : h.engine.counts entry = true) :
    Mirrors Gathers (fireAlarm (perform fuel) entry.task)
      (fun fuel => fireAlarm (perform fuel) entry.task)
      { h with engine := ({ h.engine with agenda := rest } : Engine τ ν).settled }
      (Timer.withAgenda h rest) := by
  obtain ⟨hengines, htold⟩ := sheds_fire hlittered hdue hcounts
  have hframe := congrArg Engine.frame hengines.2
  have htimed' : ({ h with engine := ({ h.engine with agenda := rest } : Engine τ ν).settled } :
    House τ ν).Within Call.Timed := htimed
  exact publish_mirrors hperform (E := Gathers) hengines htold.symm hframe.symm htimed' _

theorem runUntil_sheds {fuel : Nat} (hperform : Mirrored (τ := τ) (ν := ν) Sheds (perform fuel))
    (steps ran : Nat) {now : τ} (hlittered : h.engine.Littered) (htimed : h.Within Call.Timed)
    (hnow : now ≤ h.engine.agenda.now) :
    MovesAlike Sheds fuel target steps ran h (h.shed now) := by
  induction steps generalizing ran h now with
  | zero => exact fun hdone => absurd rfl hdone
  | succ steps ih =>
    cases hpop : h.engine.agenda.pop? target with
    | none =>
      have hquiet : (Timer.agenda (h.shed now)).pop? target = none :=
        (hlittered.toLags.pop_none hpop now).1
      refine MovesAlike.of_quiet hpop hquiet rfl ?_
      exact ⟨⟨hlittered.clockAt hpop, rfl⟩, rfl, htimed⟩
    | some popped =>
      obtain ⟨entry, rest⟩ := popped
      have hdue : (Timer.agenda h).pop? target = some (entry, rest) := hpop
      by_cases hcounts : h.engine.counts entry = true
      · have hdue' : (Timer.agenda (h.shed now)).pop? target =
          some (entry, ({ h.engine with agenda := rest } : Engine τ ν).settled.agenda) :=
            hlittered.toLags.pop_counts hpop hcounts hnow
        refine MovesAlike.of_due sheds_differ hdue hdue' rfl ?_ ?_
        · exact fireAlarm_sheds hperform hlittered htimed hpop hcounts
        · intro t t' hpairs
          have ht' : t' = t.shed t.engine.agenda.now := by
            rw [hpairs.rest, hpairs.engines.2]
            rfl
          rw [ht']
          exact ih (ran + 1) hpairs.engines.1 hpairs.timed (le_refl _)
      -- An old timer runs on one side only, and nobody sees that it did.
      · have hrun := fireAlarm_old hcounts (perform fuel) rest
        have hmoves := ih (h := Timer.withAgenda h rest) (ran + 1)
          (hlittered.pop_old hpop hcounts) htimed (le_trans hnow (now_le_of_pop hlittered hpop))
        rw [shed_old hlittered hpop hcounts] at hmoves
        intro hdone ran'
        rw [Timer.runUntil_of_due hdue, Timer.Action.seq_of_ok hrun] at hdone ⊢
        obtain ⟨fuel', hagree, hsights⟩ := hmoves hdone ran'
        refine ⟨fuel', hagree, ?_⟩
        have hsight : (Timer.withAgenda h rest).sight = h.sight := rfl
        rw [Timer.passed_of_ok hdue hrun, sights_of_same hsight, hsights]

/-- The old timers that are still to run before the next one that counts get fewer. -/
theorem runUntil_gathers {fuel : Nat} (hperform : Mirrored (τ := τ) (ν := ν) Gathers (perform fuel))
    (steps ran : Nat) {now : τ} (hlittered : h.engine.Littered) (htimed : h.Within Call.Timed)
    (hnow : now ≤ h.engine.agenda.now) :
    MovesAlike Gathers fuel target steps ran (h.shed now) h := by
  induction steps generalizing ran h now with
  | zero => exact fun hdone => absurd rfl hdone
  | succ steps ih =>
    -- The other house spends no fuel on old timers, so they are counted down by the queue.
    induction hwaiting : h.engine.agenda.queue.length using Nat.strong_induction_on
      generalizing h with
    | _ waiting ihOld =>
      cases hpop : h.engine.agenda.pop? target with
      | none =>
        have hquiet : (Timer.agenda (h.shed now)).pop? target = none :=
          (hlittered.toLags.pop_none hpop now).1
        refine MovesAlike.of_quiet hquiet hpop rfl ?_
        exact ⟨⟨hlittered.clockAt hpop, rfl⟩, rfl, htimed⟩
      | some popped =>
        obtain ⟨entry, rest⟩ := popped
        have hdue : (Timer.agenda h).pop? target = some (entry, rest) := hpop
        by_cases hcounts : h.engine.counts entry = true
        · have hdue' : (Timer.agenda (h.shed now)).pop? target =
            some (entry, ({ h.engine with agenda := rest } : Engine τ ν).settled.agenda) :=
              hlittered.toLags.pop_counts hpop hcounts hnow
          refine MovesAlike.of_due gathers_differ hdue' hdue rfl ?_ ?_
          · exact fireAlarm_gathers hperform hlittered htimed hpop hcounts
          · intro t t' hpairs
            obtain ⟨e', rfl⟩ : ∃ e', t' = { t with engine := e' } := ⟨t'.engine, hpairs.rest⟩
            have hsettled : t.engine = e'.settled := hpairs.engines.2
            have ht : t = ({ t with engine := e' } : House τ ν).shed e'.agenda.now := by
              change t = { t with engine := e'.settled }
              rw [← hsettled]
            have hmoves := ih (h := { t with engine := e' }) (ran + 1) hpairs.engines.1
              hpairs.timed (le_refl _)
            rw [← ht] at hmoves
            exact hmoves
        · have hrun := fireAlarm_old hcounts (perform 0) rest
          have hfewer := hwaiting ▸ length_lt_of_pop hpop
          have hmoves := ihOld _ hfewer (h := Timer.withAgenda h rest)
            (hlittered.pop_old hpop hcounts) htimed
            (le_trans hnow (now_le_of_pop hlittered hpop)) rfl
          rw [shed_old hlittered hpop hcounts] at hmoves
          intro hdone ran'
          obtain ⟨fuel', hagree, hsights⟩ := hmoves hdone (ran' + 1)
          obtain ⟨more, hsame, hpassed⟩ := exists_runUntil_of_step hdue hrun ran'
            (ne_outOfFuel_of_failure hagree.1 hdone)
          have hsight : (Timer.withAgenda h rest).sight = h.sight := rfl
          refine ⟨more, ?_, ?_⟩
          · rw [hsame]
            exact hagree
          · rw [hpassed, sights_of_same hsight, hsights]

end Littered

variable [Save.KeyValueStore ν]
variable [AddZeroClass τ] [Mul τ] [NatCast τ] [AddLeftMono τ]

theorem corresponds_sheds : Corresponds (Sheds : Engine τ ν → Engine τ ν → Prop) where
  agendas := sheds_differ
  saves := by
    rintro e e' ⟨hlittered, rfl⟩ saves
    exact ⟨hlittered.withSaves saves, rfl⟩
  answers := Sheds.answers
  clock := by
    rintro e e' ⟨hlittered, rfl⟩
    rfl
  moves := by
    intro fuel hperform target h h' hpairs
    obtain ⟨e', rfl⟩ : ∃ e', h' = { h with engine := e' } := ⟨h'.engine, hpairs.rest⟩
    have hsettled : e' = h.engine.settled := hpairs.engines.2
    rw [hsettled]
    exact runUntil_sheds hperform fuel 0 hpairs.engines.1 hpairs.timed (le_refl _)

theorem corresponds_gathers : Corresponds (Gathers : Engine τ ν → Engine τ ν → Prop) where
  agendas := gathers_differ
  saves := by
    rintro e e' ⟨hlittered, rfl⟩ saves
    exact ⟨hlittered.withSaves saves, rfl⟩
  answers := Gathers.answers
  clock := by
    rintro e e' ⟨hlittered, rfl⟩
    rfl
  moves := by
    intro fuel hperform target h h' hpairs
    obtain ⟨e', rfl⟩ : ∃ e', h' = { h with engine := e' } := ⟨h'.engine, hpairs.rest⟩
    have hsettled : h.engine = e'.settled := hpairs.engines.2
    have hshed : ({ h with engine := e' } : House τ ν).shed e'.agenda.now = h := by
      change ({ h with engine := e'.settled } : House τ ν) = h
      rw [← hsettled]
    have hmoves : MovesAlike Gathers fuel target fuel 0
        (({ h with engine := e' } : House τ ν).shed e'.agenda.now) { h with engine := e' } :=
      runUntil_gathers hperform fuel 0 hpairs.engines.1 hpairs.timed (le_refl _)
    rw [hshed] at hmoves
    exact hmoves

/-- Timers that cannot be cancelled are harmless: whoever watches sees the same errors, sessions,
generations and frames, in the same order, as if cancelling had worked, and either way the calls
come to an end or do not. -/
theorem stale_timers_are_harmless (script : Script) (timing : Timing τ)
    (saves : Option (Save.Repository ν)) (stamps : Stamps) (calls : List (Call τ))
    (hcalls : ∀ call ∈ calls, call.Within Call.Timed) (showings : List Showing) :
    Shows (House.opening (Engine.opening script timing saves false) stamps) calls showings ↔
      Shows (House.opening (Engine.opening script timing saves) stamps) calls showings := by
  have hsheds : Sheds (Engine.opening script timing saves false)
      (Engine.opening script timing saves) := ⟨Engine.opening_littered script timing saves, rfl⟩
  have hnobody : ∀ engine : Engine τ ν,
      (House.opening engine stamps).Within Call.Timed := fun _ _ h => nomatch h
  constructor
  · intro hshows
    exact corresponds_sheds.shows ⟨hsheds, rfl, hnobody _⟩ hcalls hshows
  · intro hshows
    have hgathers : Gathers (Engine.opening script timing saves)
        (Engine.opening script timing saves false) := hsheds
    exact corresponds_gathers.shows ⟨hgathers, rfl, hnobody _⟩ hcalls hshows

/-- A text is completed while its next character is due: that timer still runs where cancelling is
ignored, and nobody sees a difference. -/
theorem stale_timers_are_harmless_in_a_story :
    (∀ call ∈ [Call.newGame, .wait 45, .advance, .wait 100], Call.Within Call.Timed call) ∧
      ((House.opening (Engine.opening forkScript Timing.usual none false) ⟨[], 0⟩ :
        House Nat Save.MemoryStore).play 40 [.newGame, .wait 45, .advance]).engine.agenda.pending =
          1 ∧
      (forkOpening.play 40 [.newGame, .wait 45, .advance]).engine.agenda.pending = 0 ∧
      ∃ showings,
        Shows (House.opening (Engine.opening forkScript Timing.usual none false) ⟨[], 0⟩ :
          House Nat Save.MemoryStore) [.newGame, .wait 45, .advance, .wait 100] showings ∧
        Shows forkOpening [.newGame, .wait 45, .advance, .wait 100] showings := by
  have hcalls : ∀ call ∈ [Call.newGame, .wait 45, .advance, .wait 100],
      Call.Within (τ := Nat) Call.Timed call := by
    intro call hcall
    simp only [List.mem_cons, List.not_mem_nil, or_false] at hcall
    rcases hcall with rfl | rfl | rfl | rfl <;>
      exact Call.within_of_plain rfl fun limit h => nomatch h
  have hshows : ∃ showings,
      Shows (House.opening (Engine.opening forkScript Timing.usual none false) ⟨[], 0⟩ :
        House Nat Save.MemoryStore) [.newGame, .wait 45, .advance, .wait 100] showings :=
    ⟨_, .call 40 (ne_outOfFuel_of_isOk (by decide +kernel)) <|
      .call 40 (ne_outOfFuel_of_isOk (by decide +kernel)) <|
      .call 40 (ne_outOfFuel_of_isOk (by decide +kernel)) <|
      .call 40 (ne_outOfFuel_of_isOk (by decide +kernel)) <| .rest _⟩
  obtain ⟨showings, hleaky⟩ := hshows
  refine ⟨hcalls, by decide +kernel, by decide +kernel, showings, hleaky, ?_⟩
  unfold forkOpening
  exact (stale_timers_are_harmless forkScript Timing.usual none ⟨[], 0⟩ _ hcalls showings).mp hleaky

end VisualNovel.Playback
