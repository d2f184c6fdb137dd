import Mathlib.Data.Rat.Floor
import VisualNovel.Proofs.Playback.Refusals
import VisualNovel.Proofs.Playback.Rest
import VisualNovel.Proofs.Script.Links
import VisualNovel.Proofs.Terminal.Performance
import VisualNovel.Settings.Basic

/-!
Whether play in a terminal takes the next line. After every command the timers of the next hour run;
they do come to an end unless the script has blank nodes without end and a delay is set to nothing.
-/
namespace VisualNovel

namespace Terminal

open Playback Timer

variable {τ ν : Type}

namespace Player

section Pump
variable [Zero τ] [Add τ] [Mul τ] [NatCast τ] [LT τ] [DecidableLT τ]

theorem drives : Drives (fun p : Player τ ν => p.engine) whenDue fun _ => True where
  agenda_eq _ := rfl
  withAgenda_eq _ _ := rfl
  kept _ _ h := h
  fires p _ h := ⟨_, rfl, p.take_engine _, h⟩

variable [LE τ] [DecidableLE τ]

/-- The timers of the next hour come to an end: so many of them run, and `p'` is left. -/
def Pumps (p : Player τ ν) (count : Nat) (p' : Player τ ν) : Prop :=
  ∃ least, ∀ fuel, least ≤ fuel →
    runUntilIdle whenDue ((3600 : Nat) : τ) fuel p = (.ok count, p') ∧ p.pump fuel = p'

end Pump

variable [Save.KeyValueStore ν]

theorem exists_pumps {τ : Type} [Field τ] [LinearOrder τ] [IsStrictOrderedRing τ] [FloorSemiring τ]
    {opening : Engine τ ν} (hready : opening.Ready) {tick : τ} (htick : 0 < tick)
    (hpaced : opening.timing.Paced tick opening.script) {p : Player τ ν}
    (hsteps : Steps (fun _ => True) opening p.engine) : ∃ count p', p.Pumps count p' := by
  have hsettles := drives.settles hready htick hpaced (p.engine.agenda.now + ((3600 : Nat) : τ))
  obtain ⟨least, count, p', hidle⟩ := hsettles.exists_runUntilIdle ⟨trivial, hsteps⟩
  refine ⟨count, p', least, fun fuel hfuel => ⟨hidle fuel hfuel, ?_⟩⟩
  exact congrArg Prod.snd (hidle fuel hfuel)

end Player

end Terminal

open Playback

namespace Settings

/-- Milliseconds as seconds, without rounding. -/
def exactSeconds (milliseconds : Nat) : ℚ := milliseconds / 1000

theorem le_exactSeconds {milliseconds : Nat} (h : milliseconds ≠ 0) :
    1 / 1000 ≤ exactSeconds milliseconds := by
  have hone : (1 : ℚ) ≤ milliseconds := by exact_mod_cast Nat.one_le_iff_ne_zero.mpr h
  unfold exactSeconds
  linarith

/-- A mode in which play goes on from a node without a text in no time. -/
def Rushes (s : Settings) (mode : Pacing) : Prop :=
  (mode = .fastForward ∧ s.fastForwardDelay = 0) ∨ (mode = .auto ∧ s.autoMinDelay = 0)

theorem paced_timing (s : Settings) {script : Script}
    (h : (∀ mode, ¬ s.Rushes mode) ∨ ∀ id node, script.get? id = some node →
      ¬ script.EndlesslyBlank node) : (s.timing exactSeconds).Paced (1 / 1000) script where
  reveal := le_exactSeconds (Nat.one_le_iff_ne_zero.mp s.revealInterval.property)
  fastReveal := le_exactSeconds (Nat.one_le_iff_ne_zero.mp s.fastRevealInterval.property)
  goingOn := by
    refine h.imp_left fun hnone => ?_
    have hforward : s.fastForwardDelay ≠ 0 := fun hzero => hnone .fastForward (.inl ⟨rfl, hzero⟩)
    have hmin : s.autoMinDelay ≠ 0 := fun hzero => hnone .auto (.inr ⟨rfl, hzero⟩)
    have hmax : s.autoMaxDelay ≠ 0 := (Nat.pos_of_ne_zero hmin |>.trans_le s.auto_bounds).ne'
    exact ⟨le_exactSeconds hforward, le_exactSeconds hmin, le_exactSeconds hmax⟩

theorem Rushes.instant {s : Settings} {mode : Pacing} (h : s.Rushes mode) :
    mode ≠ .manual ∧ (s.timing exactSeconds).blankDelay mode ≤ 0 := by
  unfold Timing.blankDelay
  rcases h with ⟨rfl, hzero⟩ | ⟨rfl, hzero⟩
  · simp [timing, exactSeconds, hzero]
  · refine ⟨by decide, ?_⟩
    rw [if_neg (by decide), Timing.autoDelay, Timer.earlier_eq_min, Timer.later_eq_max]
    simp [timing, exactSeconds, hzero]

theorem exists_rushes_iff {s : Settings} :
    (∃ mode, s.Rushes mode) ↔ s.fastForwardDelay = 0 ∨ s.autoMinDelay = 0 := by
  simp [Rushes, exists_or]

end Settings

/-- A collection in which a slot names a given node. -/
theorem Save.Repository.exists_naming {id : String} (hid : id ≠ "") :
    ∃ (r : Save.Repository Save.MemoryStore) (s : Save.Slot),
      (∀ room, 2 ≤ room → r.get room 1 = .ok (some s)) ∧ s.nodeId = id := by
  let s : Save.Slot := { Save.Repository.sampleSlot with nodeId := id }
  let r : Save.Repository Save.MemoryStore := { store := ∅ }
  have hkeeps : r.form.Keeps s :=
    Save.SlotForm.keeps_lenient (Int.le_refl 1) hid Save.Repository.civil_sampleSlot
  have hshort : Data.Json.isTooLong 1 = false := by decide +kernel
  have hpermits : r.Permits 2 s.id :=
    ⟨Save.Repository.not_givesUp_iff.mpr ⟨[], rfl⟩, le_rfl, hshort⟩
  obtain ⟨r', hput⟩ := Save.Repository.exists_put Save.SlotForm.documented_lenient rfl hpermits
  have hholds := Save.Repository.holds_of_put Save.SlotForm.documented_lenient hkeeps hput
  exact ⟨r', s, fun room => hholds.get_eq_ok, rfl⟩

namespace Playback

theorem Engine.exists_call_setPacing {τ ν : Type} [Save.KeyValueStore ν] [Zero τ] [Add τ] [Mul τ]
    [NatCast τ] [LT τ] [DecidableLT τ] {mode : Pacing} (hmode : mode ≠ .manual) :
    ∃ call : Call τ, ∀ e : Engine τ ν, e.outcome call = some (.ok (e.setPacing mode)) := by
  cases mode with
  | manual => exact absurd rfl hmode
  | auto => exact ⟨.auto true, fun _ => rfl⟩
  | fastForward => exact ⟨.fastForward true, fun _ => rfl⟩

/-- A save leads to every node, and from there play may run on at one moment. -/
theorem Engine.exists_spins {τ : Type} [AddZeroClass τ] [Mul τ] [NatCast τ] [LinearOrder τ]
    {script : Script} (hkeys : script.KeysAreIds) (hnamed : script.get? "" = none) {id : String}
    {node : Node} (hnode : script.get? id = some node) (hendless : script.EndlesslyBlank node)
    {timing : Timing τ} {mode : Pacing} (hmode : mode ≠ .manual)
    (hinstant : timing.blankDelay mode ≤ 0) :
    ∃ (saves : Option (Save.Repository Save.MemoryStore)) (e : Engine τ Save.MemoryStore),
      Steps (fun _ => True) (Engine.opening script timing saves) e ∧ e.Spins := by
  have hid : id ≠ "" := by
    rintro rfl
    cases hnamed.symm.trans hnode
  obtain ⟨r, slot, hget, rfl⟩ := Save.Repository.exists_naming hid
  obtain ⟨call, hcall⟩ := Engine.exists_call_setPacing (τ := τ) (ν := Save.MemoryStore) hmode
  let opening : Engine τ Save.MemoryStore := .opening script timing (some r)
  have hready : opening.Ready := Engine.ready_opening hkeys timing (some r)
  have hload : opening.load usualRoom 1 = .ok (opening.beginSession node) :=
    Engine.load_of_found rfl (hget usualRoom (by decide)) hnode
  have hgranted : opening.outcome (.load 1) = some (.ok (opening.beginSession node)) :=
    congrArg some (mapError_of_ok hload _)
  exact ⟨some r, _, .tail (.single (.request trivial hgranted)) (.request trivial (hcall _)),
    hready.spins_of_beginSession (hkeys.get?_id hnode) hendless hmode hinstant⟩

end Playback

/-- Playback comes to rest, whatever is asked of it and however far the clock is moved, exactly
unless automatic pacing takes no time somewhere and the script has blank nodes that follow one
another without end. -/
theorem playback_comes_to_rest_iff (settings : Settings) (c : Compiler) (text : String) :
    (∀ {ν : Type} [Save.KeyValueStore ν] (saves : Option (Save.Repository ν)) (e : Engine ℚ ν),
      Steps (fun _ => True)
        (Engine.opening (c.compile text).script (settings.timing Settings.exactSeconds) saves) e →
      (∀ h : House ℚ ν, h.Silent → h.engine = e → ∀ span : ℚ, 0 ≤ span →
        h.Returns (.wait span) ∧ h.Returns (.idle span)) ∧
      ∀ p : Terminal.Player ℚ ν, p.engine = e → ∀ command,
        ∃ count p', (p.perform command).Pumps count p') ↔
    ¬ ((settings.fastForwardDelay = 0 ∨ settings.autoMinDelay = 0) ∧
      ∃ id node, (c.compile text).script.get? id = some node ∧
        (c.compile text).script.EndlesslyBlank node) := by
  have hkeys : (c.compile text).script.KeysAreIds := Compiler.keysAreIds_compile c text
  rw [← Settings.exists_rushes_iff]
  constructor
  · rintro hrests ⟨⟨mode, hrushes⟩, id, node, hnode, hendless⟩
    obtain ⟨hmode, hinstant⟩ := hrushes.instant
    obtain ⟨saves, e, hsteps, hspins⟩ :=
      Engine.exists_spins hkeys (c.get?_empty text) hnode hendless hmode hinstant
    have hsilent : (House.opening e ⟨[], 0⟩).Silent := fun _ hmem => (nomatch hmem)
    refine House.not_returns_wait hsilent hspins (le_add_of_nonneg_right (le_refl 0)) ?_
    exact ((hrests saves e hsteps).1 _ hsilent rfl 0 (le_refl 0)).1
  · intro hfree ν _ saves e hsteps
    have hready : (Engine.opening (c.compile text).script
      (settings.timing Settings.exactSeconds) saves).Ready := Engine.ready_opening hkeys _ saves
    have hpaced : (settings.timing Settings.exactSeconds).Paced (1 / 1000)
        (c.compile text).script := by
      refine settings.paced_timing ?_
      rw [not_and_or, not_exists] at hfree
      exact hfree.imp_right fun hnone id node hnode hendless =>
        hnone ⟨id, node, hnode, hendless⟩
    have htick : (0 : ℚ) < 1 / 1000 := by norm_num
    constructor
    · rintro h hsilent rfl span -
      exact ⟨House.returns_wait hready htick hpaced hsilent hsteps span,
        House.returns_idle hready htick hpaced hsilent hsteps span⟩
    · rintro p rfl command
      have hlater := hsteps.trans (p.perform_steps command)
      exact Terminal.Player.exists_pumps hready htick hpaced hlater

/-- A line without words that leads back to itself. -/
def emptyLoopText : String := "A:\n# start"

def emptyLoopScript : Script := (({} : Compiler).compile emptyLoopText).script

def emptyLoopOpening (s : Settings) : Engine ℚ Save.MemoryStore :=
  .opening emptyLoopScript (s.timing Settings.exactSeconds) none

theorem emptyLoopOpening_newGame (s : Settings) :
    ∃ node,
      (emptyLoopOpening s).outcome .newGame = some (.ok ((emptyLoopOpening s).beginSession node)) ∧
      emptyLoopScript.get? node.id = some node ∧ emptyLoopScript.EndlesslyBlank node := by
  have hkeys : emptyLoopScript.KeysAreIds := Compiler.keysAreIds_compile {} emptyLoopText
  have hblank : (emptyLoopScript.start?.map (·.isBlank)) = some true := by decide +kernel
  have hloop : emptyLoopScript.start?.bind emptyLoopScript.following? = emptyLoopScript.start? := by
    decide +kernel
  obtain ⟨node, hstart, hempty⟩ := Option.map_eq_some_iff.mp hblank
  rw [hstart, Option.bind_some] at hloop
  have hfound : (emptyLoopOpening s).script.start? = some node := hstart
  exact ⟨node, Engine.outcome_newGame hfound, hkeys.get?_id hstart,
    Script.endlesslyBlank_of_self hempty hloop⟩

theorem emptyLoopOpening_spins {s : Settings} (h : s.Rushes .fastForward) :
    ∃ e, (emptyLoopOpening s).Takes [.newGame, .fastForward true] e ∧ e.Spins := by
  obtain ⟨node, hbegun, hnode, hendless⟩ := emptyLoopOpening_newGame s
  have hkeys : emptyLoopScript.KeysAreIds := Compiler.keysAreIds_compile {} emptyLoopText
  have hready : (emptyLoopOpening s).Ready := Engine.ready_opening hkeys _ none
  exact ⟨_, (Engine.Takes.request hbegun).append (.request rfl),
    hready.spins_of_beginSession hnode hendless h.instant.1 h.instant.2⟩

/-- All settings are left at their defaults, but fast forward is to take no time. -/
def rushedLayer : Settings.Layer :=
  Settings.Layer.empty.set .fastForwardDelay (.plain (.int 0))

/-- A new game in fast forward: the clock cannot even be moved by no time at all, and in a terminal
the next line is never taken. -/
theorem an_empty_loop_never_rests :
    ∃ settings : Settings, Settings.ofLayer ⟨.ofText "/", []⟩ rushedLayer = .ok settings ∧
      ∃ e : Engine ℚ Save.MemoryStore,
        (emptyLoopOpening settings).Takes [.newGame, .fastForward true] e ∧
        Steps (fun _ => True) (emptyLoopOpening settings) e ∧
        (∀ h : House ℚ Save.MemoryStore, h.Silent → h.engine = e → ¬ h.Returns (.wait 0)) ∧
        ∀ p : Terminal.Player ℚ Save.MemoryStore, p.engine = e →
          ∀ count p', ¬ p.Pumps count p' := by
  obtain ⟨settings, haccepted, hrushes⟩ : ∃ settings : Settings,
      Settings.ofLayer ⟨.ofText "/", []⟩ rushedLayer = .ok settings ∧
        settings.Rushes .fastForward := ⟨_, rfl, .inl ⟨rfl, rfl⟩⟩
  obtain ⟨e, htakes, hspins⟩ := emptyLoopOpening_spins hrushes
  refine ⟨settings, haccepted, ?_⟩
  refine ⟨e, htakes, htakes.steps fun call _ => call.within_any, ?_, ?_⟩
  · rintro h hsilent rfl
    exact House.not_returns_wait hsilent hspins (le_add_of_nonneg_right (le_refl 0))
  · rintro p rfl count p' ⟨least, hpump⟩
    refine Terminal.Player.drives.not_idle trivial hspins ?_ (hpump least (le_refl least)).1
    exact le_add_of_nonneg_right (Nat.cast_nonneg 3600)

end VisualNovel
