import VisualNovel.Proofs.Playback.BlankRuns
import VisualNovel.Proofs.Playback.Stretches

/-!
Whether the clock gets to its target. It does if playback is paced, whoever moves it. Where blank
nodes follow one another without end, and going on takes no time, a timer is always due at once, and
no move of the clock ever ends.
-/
namespace VisualNovel.Playback

open Timer

variable {ε σ τ ν : Type} [HasAgenda σ τ Alarm]

section Drives
variable [Zero τ] [Add τ] [Mul τ] [NatCast τ] [LT τ] [DecidableLT τ]

/-- A state of which an engine is a part. A timer that runs does to the engine what it is for, and
nothing else comes of it that could touch the engine. -/
structure Drives (engine : σ → Engine τ ν) (fire : Alarm → Action ε σ Unit) (P : σ → Prop) :
    Prop where
  agenda_eq : ∀ s, agenda s = (engine s).agenda
  withAgenda_eq : ∀ s a, engine (withAgenda s a) = { engine s with agenda := a }
  kept : ∀ s a, P s → P (withAgenda s a)
  fires : ∀ s alarm, P s →
    ∃ s', fire alarm s = (.ok (), s') ∧ engine s' = ((engine s).fire alarm).engine ∧ P s'

theorem Drives.exists_fire {engine : σ → Engine τ ν} {fire : Alarm → Action ε σ Unit}
    {P : σ → Prop} (h : Drives engine fire P) {s : σ} (hs : P s) (alarm : Alarm)
    (rest : Agenda τ Alarm) :
    ∃ s', fire alarm (withAgenda s rest) = (.ok (), s') ∧
      engine s' = (({ engine s with agenda := rest } : Engine τ ν).fire alarm).engine ∧ P s' := by
  have hfires := h.fires (withAgenda s rest) alarm (h.kept s rest hs)
  rwa [h.withAgenda_eq] at hfires

end Drives

section Paced
variable {engine : σ → Engine τ ν} {fire : Alarm → Action ε σ Unit} {P : σ → Prop}
variable [Save.KeyValueStore ν]
variable [Field τ] [LinearOrder τ] [IsStrictOrderedRing τ] [FloorSemiring τ]

/-- Whoever drives a paced engine sees it come to rest. -/
theorem Drives.settles (h : Drives engine fire P) {opening : Engine τ ν} (hready : opening.Ready)
    {tick : τ} (htick : 0 < tick) (hpaced : opening.timing.Paced tick opening.script)
    (deadline : τ) :
    Settles fire deadline (fun s => P s ∧ Steps (fun _ => True) opening (engine s))
      (fun s => (engine s).rank tick deadline) where
  fires := by
    rintro s t rest ⟨hs, hsteps⟩ hdue
    rw [h.agenda_eq] at hdue
    obtain ⟨s', hfire, hengine, hs'⟩ := h.exists_fire hs t.task rest
    have hpaced' : (engine s).timing.Paced tick (engine s).script := by
      rw [Steps.timing hsteps, Steps.script hsteps]
      exact hpaced
    refine ⟨s', hfire, ⟨hs', ?_⟩, ?_⟩
    · rw [hengine]
      exact hsteps.tail (.alarm hdue)
    · rw [hengine]
      exact (hready.steps hsteps).fire_rank_lt htick hpaced' hdue
  clock := by
    rintro s now ⟨hs, hsteps⟩ hquiet
    rw [h.agenda_eq] at hquiet ⊢
    refine ⟨⟨h.kept s _ hs, ?_⟩, ?_⟩
    · rw [h.withAgenda_eq]
      exact hsteps.tail (.clock hquiet)
    · rw [h.withAgenda_eq]
      rfl

end Paced

section Spinning

section Spins
variable [Mul τ] [NatCast τ] [LinearOrder τ]

/-- How long automatic pacing stays on a node without a text. -/
def Timing.blankDelay (t : Timing τ) (mode : Pacing) : τ :=
  if mode = .fastForward then t.fastForwardDelay else t.autoDelay 0

variable [AddZeroClass τ]

/-- A blank node is shown from which blank nodes follow one another without end, and going on takes
no time. -/
structure Engine.Spins (e : Engine τ ν) : Prop extends e.Ready where
  node : ∃ node, e.currentNode = some node ∧ e.script.EndlesslyBlank node
  goesOn : e.session.pacing ≠ .manual
  instant : e.timing.blankDelay e.session.pacing ≤ 0
  justSet : e.JustSet

end Spins

namespace Engine

section Blank
variable {e : Engine τ ν} {node : Node} (hcurrent : e.currentNode = some node)
  (hblank : node.isBlank = true)
include hcurrent hblank

theorem open_of_blank (hsound : e.session.Sound e.script) (hgoesOn : e.session.pacing ≠ .manual) :
    e.session.reveal = .revealed ∧ e.session.ending = false := by
  simp only [Node.isBlank, Bool.and_eq_true, String.isEmpty_iff] at hblank
  obtain ⟨-, hat⟩ := at_of_currentNode hsound hcurrent
  constructor
  · have hprogress := hat.progress
    rw [hat.reveal]
    simp only [hblank.1.1, String.length_empty] at hprogress ⊢
    exact Nat.le_zero.mp hprogress
  · by_contra hending
    exact hgoesOn (hat.ending (by simpa using hending)).pacing

variable [Mul τ] [NatCast τ] [LinearOrder τ]

theorem delayFor_of_blank :
    e.delayFor .pacingFire = e.timing.blankDelay e.session.pacing := by
  have hempty : node.text = "" := by
    simp only [Node.isBlank, Bool.and_eq_true, String.isEmpty_iff] at hblank
    exact hblank.1.1
  simp [delayFor, Timing.blankDelay, hcurrent, hempty]

end Blank

variable [AddZeroClass τ] [Mul τ] [NatCast τ] [LinearOrder τ]

theorem Popped.fire_eq_navigate {e : Engine τ ν} {t : Entry τ Alarm} (h : e.Popped t)
    (hkind : some t.task.kind = some .pacingFire) (hawaited : e.awaited = some .pacingFire)
    {node target : Node} (hcurrent : e.currentNode = some node)
    (hfollowing : e.script.following? node = some target) :
    e.fire t.task = ({ e with pacingTimer := none } : Engine τ ν).navigate target := by
  obtain ⟨other, hother, hrevealed, hending, hvideo, hchoices⟩ := eq_of_awaited_pacingFire hawaited
  cases hcurrent.symm.trans hother
  have hsuccessor : ({ e with pacingTimer := none } : Engine τ ν).successor node = some target :=
    hfollowing
  rw [h.fire_eq, Option.some.inj hkind]
  dsimp only
  rw [advance_of_plain (e := { e with pacingTimer := none }) hcurrent hending hvideo hchoices
    hrevealed, hsuccessor]

namespace Spins

variable {e : Engine τ ν}

theorem awaited (h : e.Spins) : e.awaited = some .pacingFire := by
  obtain ⟨node, hcurrent, hendless⟩ := h.node
  have hblank := hendless.isBlank
  obtain ⟨hrevealed, hending⟩ := open_of_blank hcurrent hblank h.sound h.goesOn
  simp only [Node.isBlank, Bool.and_eq_true, Bool.not_eq_true'] at hblank
  simp [Engine.awaited, hcurrent, hrevealed, hending, hblank, h.goesOn]

theorem exists_due (h : e.Spins) : ∃ t, e.agenda.queue = [t] ∧ t.due = e.agenda.now := by
  obtain ⟨node, hcurrent, hendless⟩ := h.node
  obtain ⟨waiting, hholds, hkind⟩ := h.armed
  rw [h.awaited, Option.map_eq_some_iff] at hkind
  obtain ⟨t, rfl, hpurpose⟩ := hkind
  have hqueue : e.agenda.queue = [t] := hholds.queue
  refine ⟨t, hqueue, ?_⟩
  rw [h.justSet t (by simp [hqueue]), hpurpose, delayFor_of_blank hcurrent hendless.isBlank,
    later_eq_max, max_eq_left h.instant, add_zero]

variable [Save.KeyValueStore ν]

/-- The timer that runs leads on to another blank node, and to a timer that is due at once. -/
theorem fire (h : e.Spins) {deadline : τ} {t : Entry τ Alarm} {rest : Agenda τ Alarm}
    (hdue : e.agenda.pop? deadline = some (t, rest)) :
    (({ e with agenda := rest } : Engine τ ν).fire t.task).engine.Spins := by
  obtain ⟨node, hcurrent, hendless⟩ := h.node
  obtain ⟨target, hfollowing, hendless'⟩ := hendless.exists_following
  obtain ⟨hview, -⟩ := at_of_currentNode h.sound hcurrent
  obtain ⟨id, htarget⟩ := Script.exists_get?_of_following hfollowing
  obtain ⟨hawaited, hpopped⟩ := Sets.pop h.armed hdue
  have hfire := hpopped.fire_eq_navigate (hawaited.symm.trans h.awaited) h.awaited hcurrent
    hfollowing
  have hstep : Steps (fun _ => True) e
      (({ e with agenda := rest } : Engine τ ν).fire t.task).engine := .single (.alarm hdue)
  have hready := h.toReady.steps hstep
  have hjust := hpopped.fire_justSet
  have hsame := fire_sameTime ({ e with agenda := rest } : Engine τ ν) t.task
  rw [hfire] at hready hjust hsame ⊢
  refine ⟨hready, ⟨target, currentNode_navigate hview (h.keys.get?_id htarget), ?_⟩, ?_, ?_, hjust⟩
  · rw [navigate_script]
    exact hendless'
  · rw [navigate_session]
    exact h.goesOn
  · rw [navigate_session, hsame.timing]
    exact h.instant

end Spins

/-- Automatic pacing that takes no time, and is turned on at a blank node from which blank nodes
follow one another without end. -/
theorem Ready.spins_of_setPacing {e : Engine τ ν} (h : e.Ready) {node : Node}
    (hcurrent : e.currentNode = some node) (hendless : e.script.EndlesslyBlank node)
    (hending : e.session.ending = false) {mode : Pacing} (hmode : mode ≠ .manual)
    (hother : e.session.pacing ≠ mode)
    (hinstant : e.timing.blankDelay mode ≤ 0) : (e.setPacing mode).engine.Spins := by
  obtain ⟨hview, -⟩ := at_of_currentNode h.sound hcurrent
  have hturn : Turn e (e.setPacing mode) := .pace mode
  have hscript := setPacing_script e mode
  have hsession : (e.setPacing mode).engine.session = { e.session with pacing := mode } := by
    rw [setPacing_of_other hview hending hother]
    dsimp only [announced]
    split <;> simp
  have hsame : (e.setPacing mode).engine.currentNode = some node := by
    rw [← hcurrent]
    refine currentNode_congr hscript ?_ ?_ <;> rw [hsession]
  have hready : (e.setPacing mode).engine.Ready := by
    refine ⟨hscript.symm ▸ h.keys, ?_, hturn.armed h.keys h.sound h.armed⟩
    rw [hscript]
    exact hturn.sound h.keys h.sound
  refine ⟨hready, ⟨node, hsame, ?_⟩, ?_, ?_,
    h.armed.clears.setPacing_justSet hview hending hother⟩
  · rw [hscript]
    exact hendless
  · rw [hsession]
    exact hmode
  · rw [hsession, hturn.sameTime.timing]
    exact hinstant

theorem Ready.beginSession {e : Engine τ ν} (h : e.Ready) {node : Node}
    (hnode : e.script.get? node.id = some node) : (e.beginSession node).engine.Ready where
  keys := by
    rw [beginSession_script]
    exact h.keys
  sound := by
    rw [beginSession_script]
    exact beginSession_sound hnode
  armed :=
    (h.armed.clears.cancelTimers.clears.withSession { view := .playing }).enter_armed rfl hnode

/-- A session that begins at such a node, and in which such pacing is turned on at once. -/
theorem Ready.spins_of_beginSession {e : Engine τ ν} (h : e.Ready) {node : Node}
    (hnode : e.script.get? node.id = some node) (hendless : e.script.EndlesslyBlank node)
    {mode : Pacing} (hmode : mode ≠ .manual)
    (hinstant : e.timing.blankDelay mode ≤ 0) :
    ((e.beginSession node).engine.setPacing mode).engine.Spins := by
  have hcleared : e.SameTime e.cancelTimers := SameTime.cancelTimers ⟨rfl, rfl⟩
  have htiming : (e.beginSession node).engine.timing = e.timing :=
    ((hcleared.withSession _).enter node).timing
  have hsession : (e.beginSession node).engine.session = _ := enter_session _ node
  have hcurrent : (e.beginSession node).engine.currentNode = some node := by
    refine (currentNode_eq_some_iff _ _).mpr ?_
    rw [hsession, beginSession_script]
    exact ⟨rfl, node.id, rfl, hnode⟩
  refine (h.beginSession hnode).spins_of_setPacing hcurrent ?_ ?_ hmode ?_ ?_
  · rw [beginSession_script]
    exact hendless
  · rw [hsession]
  · rw [hsession]
    exact hmode.symm
  · rw [htiming]
    exact hinstant

end Engine

variable [Save.KeyValueStore ν]
variable [AddZeroClass τ] [Mul τ] [NatCast τ] [LinearOrder τ]

/-- Where play runs on at one moment, no move of the clock ends. -/
theorem Drives.not_runs {engine : σ → Engine τ ν} {fire : Alarm → Action ε σ Unit} {P : σ → Prop}
    (h : Drives engine fire P) {target : τ} {s s' : σ} {fired : List (Entry τ Alarm × τ)}
    (hs : P s) (hspins : (engine s).Spins) (hnow : (engine s).agenda.now ≤ target) :
    ¬ Runs fire target s fired s' := by
  intro hruns
  induction hruns with
  | quiet hpop =>
    obtain ⟨t, hqueue, hdue⟩ := hspins.exists_due
    rw [h.agenda_eq, Agenda.pop?_of_due hqueue hdue.ge (hdue.trans_le hnow)] at hpop
    cases hpop
  | @due s s₁ s' t rest fired hpop htask _ ih =>
    rw [h.agenda_eq] at hpop
    obtain ⟨other, hfire, hengine, hkept⟩ := h.exists_fire hs t.task rest
    cases htask.symm.trans hfire
    refine ih hkept ?_ ?_
    · rw [hengine]
      exact hspins.fire hpop
    · rw [hengine, (Engine.fire_sameTime _ t.task).now]
      exact Agenda.now_le_of_pop? hnow hpop

/-- Nor does it come to be idle. -/
theorem Drives.not_idle {engine : σ → Engine τ ν} {fire : Alarm → Action ε σ Unit} {P : σ → Prop}
    (h : Drives engine fire P) {limit : τ} {s s' : σ} {fuel count : Nat} (hs : P s)
    (hspins : (engine s).Spins) (hlimit : (engine s).agenda.now ≤ (engine s).agenda.now + limit) :
    runUntilIdle fire limit fuel s ≠ (.ok count, s') := by
  obtain ⟨t, hqueue, hdue⟩ := hspins.exists_due
  have hnext : (agenda s).nextDue? = some (engine s).agenda.now := by
    rw [h.agenda_eq, Agenda.nextDue?, hqueue, ← hdue]
    rfl
  intro hidle
  cases fuel with
  | zero => cases hidle
  | succ fuel =>
    rw [runUntilIdle, h.agenda_eq, runUntilQuiet_of_due hnext hlimit] at hidle
    rcases hrun : runUntil fire (engine s).agenda.now fuel 0 s with ⟨halt | more, s₁⟩
    · rw [Action.seq_of_error hrun] at hidle
      cases hidle
    · exact h.not_runs hs hspins (le_refl _) (runs_of_runUntil hrun).1

end Spinning

variable [Save.KeyValueStore ν]

namespace House

/-- A move of the clock comes to an end, and tells how many timers have run. -/
def Returns [Zero τ] [Add τ] [Mul τ] [NatCast τ] [LT τ] [DecidableLT τ] [LE τ] [DecidableLE τ]
    (h : House τ ν) (call : Call τ) : Prop := ∃ count h', h.Ends call (.count count) h'

section Order
variable [AddZeroClass τ] [Mul τ] [NatCast τ] [LinearOrder τ]

theorem drives (fuel : Nat) : Drives (fun h : House τ ν => h.engine)
    (fireAlarm (perform fuel)) House.Silent where
  agenda_eq _ := rfl
  withAgenda_eq _ _ := rfl
  kept _ _ hsilent := hsilent
  fires h alarm hsilent := by
    obtain ⟨h', hpublish, hengine, hlisteners, -⟩ :=
      publish_of_silent (perform fuel) hsilent (h.engine.fire alarm)
    exact ⟨h', hpublish, hengine, hsilent.of_listeners hlisteners⟩

theorem not_returns_wait {h : House τ ν} (hsilent : h.Silent) (hspins : h.engine.Spins) {span : τ}
    (hspan : h.engine.agenda.now ≤ h.engine.agenda.now + span) : ¬ h.Returns (.wait span) := by
  rintro ⟨count, h', hends⟩
  obtain ⟨fuel, fired, hgoes⟩ := ends_wait_iff.mp hends
  exact (drives fuel).not_runs hsilent hspins hspan (goes_iff.mp hgoes).1

end Order

section Paced
variable [Field τ] [LinearOrder τ] [IsStrictOrderedRing τ] [FloorSemiring τ]
variable {opening : Engine τ ν} (hready : opening.Ready) {tick : τ} (htick : 0 < tick)
  (hpaced : opening.timing.Paced tick opening.script) {h : House τ ν} (hsilent : h.Silent)
  (hsteps : Steps (fun _ => True) opening h.engine)
include hready htick hpaced hsilent hsteps

theorem returns_wait (span : τ) : h.Returns (.wait span) := by
  have hsettles := (drives 0).settles hready htick hpaced (h.engine.agenda.now + span)
  obtain ⟨fired, h', hruns, -⟩ := hsettles.exists_runs (le_refl _) h ⟨hsilent, hsteps⟩
  exact ⟨_, h', ends_wait_iff.mpr ⟨0, fired, goes_iff.mpr ⟨hruns, rfl⟩⟩⟩

theorem returns_idle (limit : τ) : h.Returns (.idle limit) := by
  -- Nobody makes calls while timers run, so no fuel is needed for them, only for the move itself.
  have hsettles := (drives 0).settles hready htick hpaced (h.engine.agenda.now + limit)
  obtain ⟨least, count, h', hidle⟩ := hsettles.exists_runUntilIdle ⟨hsilent, hsteps⟩
  have hdone := hidle least (le_refl least)
  have hperform : ∀ call,
      (perform 0 call : HouseAction τ ν (Reply τ)).Extends (perform least call) :=
    perform_extends (Nat.zero_le least)
  refine ⟨count, h', least + 1, replying_count_iff.mpr ?_⟩
  have hmore := runUntilIdle_extends (fireAlarm_extends hperform) limit (le_refl least) h
    (by rw [hdone]; exact nofun)
  exact hmore.trans hdone

end Paced

end House

end VisualNovel.Playback
