import VisualNovel.Proofs.Playback.Waits

/-!
When a timer is due. Whatever an engine does by itself or on request, the timer that it leaves
behind is counted from that moment, with the delay that belongs to its purpose.
-/
namespace VisualNovel.Playback

/-- The time to read a text is never below both bounds. -/
theorem Timing.min_le_autoDelay {τ : Type} [LinearOrder τ] [Mul τ] [NatCast τ] (t : Timing τ)
    (length : Nat) : min t.autoMinDelay t.autoMaxDelay ≤ t.autoDelay length := by
  rw [autoDelay, Timer.earlier_eq_min, Timer.later_eq_max]
  exact min_le_min_right _ (le_max_right _ _)

variable {τ ν : Type}

namespace Engine

variable [Mul τ] [NatCast τ] [LT τ] [DecidableLT τ]

/-- How long a timer waits that is set now. -/
def delayFor (e : Engine τ ν) : AlarmKind → τ
  | .revealTick => e.timing.revealIntervalFor e.session.pacing
  | .pacingFire =>
      if e.session.pacing = .fastForward then e.timing.fastForwardDelay
      else e.timing.autoDelay ((e.currentNode.map (·.text.length)).getD 0)
  | .titleReturn => e.timing.endGrace

theorem delayFor_pacingFire {e : Engine τ ν} {delay : τ} (h : e.pause = some delay) :
    e.delayFor .pacingFire = delay := by
  unfold pause at h
  split at h
  · cases h
  · next node hcurrent =>
    split at h
    · cases h
    · unfold pacingDelay at h
      unfold delayFor
      cases hpacing : e.session.pacing <;> simp_all

variable [Zero τ] [Add τ]

/-- Whatever timer waits has been set at this very moment. -/
def JustSet (e : Engine τ ν) : Prop :=
  ∀ t ∈ e.agenda.queue, t.due = e.agenda.now + Timer.later 0 (e.delayFor t.task.kind)

/-- The next thing to happen is the one that the timer is for. -/
theorem JustSet.nextDue? {e : Engine τ ν} (h : e.JustSet) {kind : Option AlarmKind}
    (hsets : e.Sets kind) : e.agenda.nextDue? =
      kind.map fun kind => e.agenda.now + Timer.later 0 (e.delayFor kind) := by
  obtain ⟨waiting, hholds, rfl⟩ := hsets
  have hqueue := hholds.queue
  unfold Timer.Agenda.nextDue?
  cases waiting with
  | none => rw [hqueue]; rfl
  | some t =>
    have hdue := h t (by rw [hqueue]; simp)
    rw [hqueue]
    exact congrArg some hdue

theorem setTimer_delayFor (e : Engine τ ν) (delay : τ) (kind other : AlarmKind) :
    (e.setTimer delay kind).delayFor other = e.delayFor other := by
  cases kind <;> rfl

theorem Holds.justSet {e : Engine τ ν} (h : e.Holds none) : e.JustSet := by
  intro t ht
  rw [h.queue] at ht
  cases ht

theorem Holds.setTimer_justSet {e : Engine τ ν} (h : e.Holds none) (kind : AlarmKind) :
    (e.setTimer (e.delayFor kind) kind).JustSet := by
  have hqueue : e.agenda.queue = [] := h.queue
  intro t ht
  rw [setTimer_delayFor, setTimer_agenda] at *
  rw [hqueue, Timer.place, List.mem_singleton] at ht
  rw [ht]
  rfl

theorem Holds.armReveal_justSet {e : Engine τ ν} (h : e.Holds none) : e.armReveal.JustSet := by
  rw [armReveal_eq]
  exact h.setTimer_justSet .revealTick

theorem Holds.armPacing_justSet {e : Engine τ ν} (h : e.Holds none) : e.armPacing.JustSet := by
  rw [armPacing_eq (h.slots .pacingFire)]
  cases hpause : e.pause with
  | none => exact h.justSet
  | some delay =>
    have hset := h.setTimer_justSet .pacingFire
    rw [delayFor_pacingFire hpause] at hset
    exact hset

theorem Clears.enter_justSet {e : Engine τ ν} (h : e.Clears) (node : Node) :
    (e.enter node).engine.JustSet := by
  unfold Engine.enter
  dsimp only
  split
  · exact (h.cancelTimers.sets_none.withSession _).holds_none.armPacing_justSet
  · exact (h.cancelTimers.sets_none.withSession _).holds_none.armReveal_justSet

theorem Clears.returnToTitle_justSet {e : Engine τ ν} (h : e.Clears) :
    e.returnToTitle.engine.JustSet := h.returnToTitle.holds_none.justSet

theorem Clears.setPacing_justSet {e : Engine τ ν} (h : e.Clears) {pacing : Pacing}
    (hview : e.session.view = .playing) (hending : e.session.ending = false)
    (hother : e.session.pacing ≠ pacing) : (e.setPacing pacing).engine.JustSet := by
  have hcleared := (h.withSession { e.session with pacing }).cancelTimers
  rw [setPacing_of_other hview hending hother]
  dsimp only [announced]
  split
  · exact hcleared.armReveal_justSet
  · exact hcleared.armPacing_justSet

theorem Holds.revealTick_justSet {e : Engine τ ν}
    (h : ({ e with revealTimer := none } : Engine τ ν).Holds none) :
    e.revealTick.engine.JustSet := by
  unfold Engine.revealTick
  dsimp only
  split
  · exact h.justSet
  · split
    · exact (h.sets_none.withSession _).holds_none.armPacing_justSet
    · exact (h.sets_none.withSession _).holds_none.armReveal_justSet

end Engine

section Turns
variable [Zero τ] [Add τ] [Mul τ] [NatCast τ] [LT τ] [DecidableLT τ]

theorem Turn.justSet {e : Engine τ ν} {c : Change τ ν} (h : Turn e c) (hholds : e.Holds none) :
    c.engine.JustSet := by
  have hclears : e.Clears := hholds.clears
  cases h with
  | stay => exact hholds.justSet
  | title => exact hclears.returnToTitle_justSet
  | follow pacing hcurrent hending hlink => exact (hclears.withSession _).enter_justSet _
  | back hview hentry hnode => exact (hclears.withSession _).enter_justSet _
  | complete hcurrent hending hreveal =>
    exact (hclears.cancelTimers.sets_none.withSession _).holds_none.armPacing_justSet
  | finish hcurrent hending hvideo hreveal hchoices hnext =>
    exact (hclears.cancelTimers.sets_none.withSession _).holds_none.setTimer_justSet .titleReturn
  | pace pacing =>
    by_cases hquiet : e.session.view ≠ .playing ∨ e.session.ending ∨ e.session.pacing = pacing
    · unfold Engine.setPacing
      rw [if_pos hquiet]
      exact hholds.justSet
    · simp only [not_or, ne_eq, Decidable.not_not, Bool.not_eq_true] at hquiet
      exact hclears.setPacing_justSet hquiet.1 hquiet.2.1 hquiet.2.2
  | cue => exact (hholds.sets_none.withSession _).holds_none.justSet
  | browse isOpen hview => exact (hholds.sets_none.withSession _).holds_none.justSet

theorem Engine.Popped.fire_justSet {e : Engine τ ν} {t : Timer.Entry τ Alarm} (h : e.Popped t) :
    (e.fire t.task).engine.JustSet := by
  rw [h.fire_eq]
  cases hkind : t.task.kind with
  | revealTick => exact (h.revealTimer hkind).revealTick_justSet
  | pacingFire => exact (turn_advance _).justSet (h.pacingTimer hkind)
  | titleReturn => exact h.clears.returnToTitle_justSet

end Turns

/-- The clock stands still, and the delays stay as they are. -/
structure Engine.SameTime (e e' : Engine τ ν) : Prop where
  timing : e'.timing = e.timing
  now : e'.agenda.now = e.agenda.now

namespace Engine

theorem SameTime.withSession {e e' : Engine τ ν} (h : e.SameTime e') (session : Session) :
    e.SameTime { e' with session } := ⟨h.timing, h.now⟩

theorem SameTime.cancelTimers {e e' : Engine τ ν} (h : e.SameTime e') :
    e.SameTime e'.cancelTimers := by
  refine ⟨h.timing, ?_⟩
  simp only [Engine.cancelTimers, Timer.Agenda.foldl_cancel]
  exact h.now

variable [Zero τ] [Add τ] [LT τ] [DecidableLT τ]

theorem SameTime.armReveal {e e' : Engine τ ν} (h : e.SameTime e') : e.SameTime e'.armReveal :=
  ⟨h.timing, h.now⟩

variable [Mul τ] [NatCast τ]

theorem SameTime.armPacing {e e' : Engine τ ν} (h : e.SameTime e') : e.SameTime e'.armPacing := by
  unfold Engine.armPacing
  split
  · exact h
  · dsimp only
    split
    · exact h
    · split
      · exact h
      · refine ⟨h.timing, ?_⟩
        simp only [schedule, Timer.Agenda.callLater, Timer.Agenda.foldl_cancel]
        exact h.now

theorem SameTime.enter {e e' : Engine τ ν} (h : e.SameTime e') (node : Node) :
    e.SameTime (e'.enter node).engine := by
  unfold Engine.enter
  dsimp only
  split
  · exact (h.cancelTimers.withSession _).armPacing
  · exact (h.cancelTimers.withSession _).armReveal

theorem SameTime.setPacing {e e' : Engine τ ν} (h : e.SameTime e') (pacing : Pacing) :
    e.SameTime (e'.setPacing pacing).engine := by
  unfold Engine.setPacing
  split
  · exact h
  · dsimp only [announced]
    split
    · exact (h.withSession _).cancelTimers.armReveal
    · exact (h.withSession _).cancelTimers.armPacing

theorem revealTick_sameTime (e : Engine τ ν) : e.SameTime e.revealTick.engine := by
  have hdropped : e.SameTime { e with revealTimer := none } := ⟨rfl, rfl⟩
  unfold revealTick
  dsimp only
  split
  · exact hdropped
  · split
    · exact (hdropped.withSession _).armPacing
    · exact (hdropped.withSession _).armReveal

end Engine

variable [Zero τ] [Add τ] [Mul τ] [NatCast τ] [LT τ] [DecidableLT τ]

theorem Turn.sameTime {e : Engine τ ν} {c : Change τ ν} (h : Turn e c) :
    e.SameTime c.engine := by
  have hsame : e.SameTime e := ⟨rfl, rfl⟩
  cases h with
  | stay => exact hsame
  | title => exact hsame.cancelTimers.withSession _
  | follow pacing hcurrent hending hlink => exact (hsame.withSession _).enter _
  | back hview hentry hnode => exact (hsame.withSession _).enter _
  | complete hcurrent hending hreveal => exact (hsame.cancelTimers.withSession _).armPacing
  | finish hcurrent hending hvideo hreveal hchoices hnext =>
    exact ⟨hsame.cancelTimers.timing, hsame.cancelTimers.now⟩
  | pace pacing => exact hsame.setPacing pacing
  | cue => exact hsame.withSession _
  | browse isOpen hview => exact hsame.withSession _

theorem Engine.fire_sameTime (e : Engine τ ν) (alarm : Alarm) :
    e.SameTime (e.fire alarm).engine := by
  have hsame : e.SameTime e := ⟨rfl, rfl⟩
  unfold fire
  split
  · exact hsame
  · split
    · exact revealTick_sameTime e
    · have hadvance := (turn_advance { e with pacingTimer := none }).sameTime
      exact ⟨hadvance.timing, hadvance.now⟩
    · exact hsame.cancelTimers.withSession _

variable [Save.KeyValueStore ν]

section Runs
variable {permitted : Call τ → Prop}

theorem Step.timing {e e' : Engine τ ν} (h : Step permitted e e') : e'.timing = e.timing := by
  cases h with
  | request hcall hgranted =>
    rcases Engine.outcome_cases hgranted with hturn | ⟨id, node, hnode, rfl, horigin⟩
    · exact hturn.sameTime.timing
    · have hsame : e.SameTime e.cancelTimers := Engine.SameTime.cancelTimers ⟨rfl, rfl⟩
      exact ((hsame.withSession _).enter node).timing
  | alarm hdue => exact (Engine.fire_sameTime _ _).timing
  | clock hquiet => rfl
  | saves saves => rfl

theorem Steps.timing {e e' : Engine τ ν} (h : Steps permitted e e') : e'.timing = e.timing := by
  induction h with
  | refl => rfl
  | tail hsteps hstep ih => exact hstep.timing.trans ih

end Runs

end VisualNovel.Playback
