import Mathlib.Algebra.Order.Monoid.Unbundled.Basic
import VisualNovel.Proofs.Playback.Alarms

/-!
Engines on an agenda that ignores cancelling. Timers that were cancelled still wait there, but they
belong to older generations. The engine without them, on an agenda that heeds cancelling, gives the
same answer to every request, and remains the engine without them.
-/
namespace VisualNovel.Playback

variable {τ ν : Type}

namespace Engine

/-- Whether a timer belongs to the current generation; the others do nothing when they run. -/
def counts (e : Engine τ ν) (t : Timer.Entry τ Alarm) : Bool := t.task.generation == e.generation

/-- The engine without the timers of other generations, on an agenda that heeds cancelling. -/
def settled (e : Engine τ ν) : Engine τ ν :=
  { e with agenda := { e.agenda with
      queue := e.agenda.queue.filter e.counts, heedsCancel := true } }

@[simp] theorem settled_script (e : Engine τ ν) : e.settled.script = e.script := rfl

@[simp] theorem settled_session (e : Engine τ ν) : e.settled.session = e.session := rfl

@[simp] theorem settled_currentNode (e : Engine τ ν) : e.settled.currentNode = e.currentNode := rfl

end Engine

def Change.settled (c : Change τ ν) : Change τ ν := ⟨c.engine.settled, c.told⟩

namespace Engine

section Order

theorem cancelTimers_of_ignores {e : Engine τ ν} (h : e.agenda.heedsCancel = false) :
    e.cancelTimers = { e with
      generation := e.generation + 1, revealTimer := none, pacingTimer := none
      titleTimer := none } := by
  simp only [cancelTimers, Timer.Agenda.foldl_cancel_of_ignores h]

variable [LinearOrder τ]

/-- Nothing is ever cancelled, so old timers wait among the others. None is newer than the engine,
and none should have run before now. -/
structure Lags (e : Engine τ ν) : Prop where
  ignores : e.agenda.heedsCancel = false
  aged : ∀ t ∈ e.agenda.queue, t.task.generation ≤ e.generation
  ordered : Timer.InOrder e.agenda.queue
  ahead : ∀ t ∈ e.agenda.queue, e.agenda.now ≤ t.due

theorem Lags.withSession {e : Engine τ ν} (h : e.Lags) (session : Session) :
    ({ e with session } : Engine τ ν).Lags := ⟨h.ignores, h.aged, h.ordered, h.ahead⟩

theorem Lags.withSaves {e : Engine τ ν} (h : e.Lags) (saves : Option (Save.Repository ν)) :
    ({ e with saves } : Engine τ ν).Lags := ⟨h.ignores, h.aged, h.ordered, h.ahead⟩

theorem Lags.cancelTimers {e : Engine τ ν} (h : e.Lags) : e.cancelTimers.Lags := by
  rw [cancelTimers_of_ignores h.ignores]
  exact ⟨h.ignores, fun t ht => Nat.le_succ_of_le (h.aged t ht), h.ordered, h.ahead⟩

/-- Cancelling takes out all the timers that a new generation makes obsolete. -/
theorem Lags.settled_cancelTimers {e : Engine τ ν} (h : e.Lags) (hclears : e.settled.Clears) :
    e.cancelTimers.settled = e.settled.cancelTimers := by
  have hcleared : e.settled.cancelTimers.agenda.queue = [] := hclears.cancelTimers.queue
  have hold : e.cancelTimers.settled.agenda.queue = [] := by
    rw [cancelTimers_of_ignores h.ignores]
    refine List.filter_eq_nil_iff.mpr ?_
    intro t ht hcounts
    have haged := h.aged t ht
    simp only [counts, beq_iff_eq] at hcounts
    omega
  have hsame : e.cancelTimers.settled.agenda = e.settled.cancelTimers.agenda := by
    simp only [settled, Engine.cancelTimers, Timer.Agenda.foldl_cancel] at hcleared hold ⊢
    rw [hcleared, hold]
  calc e.cancelTimers.settled
      = { e.settled.cancelTimers with agenda := e.cancelTimers.settled.agenda } := rfl
    _ = e.settled.cancelTimers := by rw [hsame]

end Order

theorem settled_acknowledgeEffect (e : Engine τ ν) :
    e.acknowledgeEffect.settled = e.settled.acknowledgeEffect := by
  unfold acknowledgeEffect
  rw [settled_session]
  split <;> rfl

theorem settled_openHistory (e : Engine τ ν) : e.openHistory.settled = e.settled.openHistory := by
  unfold openHistory
  rw [settled_session]
  split <;> rfl

theorem settled_closeHistory (e : Engine τ ν) :
    e.closeHistory.settled = e.settled.closeHistory := by
  unfold closeHistory
  rw [settled_session]
  split <;> rfl

variable [LinearOrder τ]

theorem Lags.returnToTitle {e : Engine τ ν} (h : e.Lags) : e.returnToTitle.engine.Lags :=
  h.cancelTimers.withSession {}

theorem Lags.settled_returnToTitle {e : Engine τ ν} (h : e.Lags) (hclears : e.settled.Clears) :
    e.returnToTitle.settled = e.settled.returnToTitle := by
  unfold Engine.returnToTitle
  rw [← h.settled_cancelTimers hclears]
  rfl

section Setting
variable [AddZeroClass τ]

/-- A new timer belongs to the current generation, and its place among the others does not depend on
the old ones. -/
theorem Lags.settled_setTimer {e : Engine τ ν} (h : e.Lags) (delay : τ) (kind : AlarmKind) :
    (e.setTimer delay kind).settled = e.settled.setTimer delay kind := by
  have hkeep : e.counts (e.newTimer delay kind) = true := by simp [counts, newTimer]
  have hplace := Timer.filter_place hkeep h.ordered
  have hagenda : (e.setTimer delay kind).settled.agenda =
      (e.settled.setTimer delay kind).agenda := by
    rw [setTimer_agenda]
    cases kind <;> exact congrArg (fun queue => Timer.Agenda.mk e.agenda.now queue _ true) hplace
  have hrest : (e.setTimer delay kind).settled = { e.settled.setTimer delay kind with
      agenda := (e.setTimer delay kind).settled.agenda } := by
    cases kind <;> rfl
  rw [hrest, hagenda]

theorem Lags.settled_armReveal {e : Engine τ ν} (h : e.Lags) :
    e.armReveal.settled = e.settled.armReveal := by
  rw [armReveal_eq]
  exact h.settled_setTimer _ .revealTick

theorem Lags.settled_beginEnding {e : Engine τ ν} (h : e.Lags) (hclears : e.settled.Clears) :
    e.beginEnding.settled = e.settled.beginEnding := by
  unfold Engine.beginEnding
  rw [← h.settled_cancelTimers hclears]
  exact congrArg announced
    ((h.cancelTimers.withSession _).settled_setTimer e.timing.endGrace .titleReturn)

end Setting

section Pacing
variable [Mul τ] [NatCast τ]

theorem settled_pause (e : Engine τ ν) : e.settled.pause = e.pause := rfl

variable [AddZeroClass τ]

theorem Lags.settled_armPacing {e : Engine τ ν} (h : e.Lags) (hfree : e.pacingTimer = none) :
    e.armPacing.settled = e.settled.armPacing := by
  have hfree' : e.settled.pacingTimer = none := hfree
  rw [armPacing_eq hfree, armPacing_eq hfree', settled_pause]
  split
  · rfl
  · exact h.settled_setTimer _ .pacingFire

theorem Lags.settled_enter {e : Engine τ ν} (h : e.Lags) (hclears : e.settled.Clears)
    (node : Node) : (e.enter node).settled = e.settled.enter node := by
  have hcancel := h.settled_cancelTimers hclears
  unfold Engine.enter
  rw [← hcancel]
  dsimp only
  split
  · exact congrArg announced ((h.cancelTimers.withSession _).settled_armPacing rfl)
  · exact congrArg announced (h.cancelTimers.withSession _).settled_armReveal

theorem Lags.settled_navigate {e : Engine τ ν} (h : e.Lags) (hclears : e.settled.Clears)
    (node : Node) : (e.navigate node).settled = e.settled.navigate node := by
  let session := { e.session with history := e.session.history ++ e.session.current.toList }
  exact (h.withSession session).settled_enter (hclears.withSession session) node

theorem Lags.settled_beginSession {e : Engine τ ν} (h : e.Lags) (hclears : e.settled.Clears)
    (node : Node) : (e.beginSession node).settled = e.settled.beginSession node := by
  have hcancel := h.settled_cancelTimers hclears
  have hcleared : e.cancelTimers.settled.Clears := hcancel ▸ hclears.cancelTimers.clears
  unfold Engine.beginSession
  rw [← hcancel]
  exact (h.cancelTimers.withSession { view := .playing }).settled_enter
    (hcleared.withSession { view := .playing }) node

theorem Lags.settled_completeReveal {e : Engine τ ν} (h : e.Lags) (hclears : e.settled.Clears) :
    e.completeReveal.settled = e.settled.completeReveal := by
  unfold Engine.completeReveal
  rw [← h.settled_cancelTimers hclears]
  exact congrArg announced ((h.cancelTimers.withSession _).settled_armPacing rfl)

/-- The timer of a session whose timers were cancelled is set again. -/
theorem Lags.settled_rearm {e : Engine τ ν} (h : e.Lags) (hclears : e.settled.Clears) :
    (if e.session.reveal = .revealing then e.cancelTimers.armReveal
      else e.cancelTimers.armPacing).settled =
    if e.session.reveal = .revealing then e.settled.cancelTimers.armReveal
      else e.settled.cancelTimers.armPacing := by
  rw [← h.settled_cancelTimers hclears]
  split
  · exact h.cancelTimers.settled_armReveal
  · exact h.cancelTimers.settled_armPacing rfl

theorem Lags.settled_setPacing {e : Engine τ ν} (h : e.Lags) (hclears : e.settled.Clears)
    (pacing : Pacing) : (e.setPacing pacing).settled = e.settled.setPacing pacing := by
  let session := { e.session with pacing }
  have hrearm := (h.withSession session).settled_rearm (hclears.withSession session)
  unfold Engine.setPacing
  rw [settled_session]
  split
  · rfl
  · exact congrArg announced hrearm

theorem Lags.settled_passVideo {e : Engine τ ν} (h : e.Lags) (hclears : e.settled.Clears)
    (node : Node) : (e.passVideo node).settled = e.settled.passVideo node := by
  unfold passVideo
  rw [settled_script]
  split
  · exact h.settled_returnToTitle hclears
  · split
    · exact h.settled_navigate hclears _
    · rfl

theorem Lags.settled_advance {e : Engine τ ν} (h : e.Lags) (hclears : e.settled.Clears) :
    e.advance.settled = e.settled.advance := by
  unfold advance
  rw [settled_currentNode, settled_session]
  split
  · rfl
  · next node hcurrent =>
    have hsuccessor : e.settled.successor node = e.successor node := rfl
    rw [hsuccessor]
    split
    · rfl
    · split
      · exact h.settled_passVideo hclears node
      · split
        · exact h.settled_completeReveal hclears
        · split
          · exact h.settled_setPacing hclears .manual
          · split
            · exact h.settled_navigate hclears _
            · exact h.settled_beginEnding hclears

theorem Lags.settled_follow {e : Engine τ ν} (h : e.Lags) (hclears : e.settled.Clears)
    (choice : Choice) : (e.follow choice).settled = e.settled.follow choice := by
  unfold follow
  rw [settled_script]
  split
  · exact (h.withSession { e.session with pacing := .manual }).settled_navigate
      (hclears.withSession { e.session with pacing := .manual }) _
  · exact h.settled_returnToTitle hclears

theorem Lags.settled_selectChoice {e : Engine τ ν} (h : e.Lags) (hclears : e.settled.Clears)
    (index : Int) : (e.selectChoice index).map Change.settled = e.settled.selectChoice index := by
  unfold selectChoice
  rw [settled_currentNode, settled_session]
  split
  · rfl
  · split
    · rfl
    · split
      · rfl
      · split
        · exact congrArg Except.ok (h.settled_follow hclears _)
        · rfl

theorem Lags.settled_setMode {e : Engine τ ν} (h : e.Lags) (hclears : e.settled.Clears)
    (mode : Pacing) (enabled : Bool) :
    (e.setMode mode enabled).settled = e.settled.setMode mode enabled := by
  unfold setMode
  rw [settled_session]
  split
  · exact h.settled_setPacing hclears mode
  · split
    · exact h.settled_setPacing hclears .manual
    · rfl

theorem Lags.settled_jumpToHistory {e : Engine τ ν} (h : e.Lags) (hclears : e.settled.Clears)
    (index : Int) :
    (e.jumpToHistory index).map Change.settled = e.settled.jumpToHistory index := by
  unfold jumpToHistory
  rw [settled_session]
  split
  · rfl
  · split
    · rfl
    · next id hentry =>
      let history := e.session.history.take index.toNat
      dsimp only [settled_script]
      split
      · exact congrArg Except.ok ((h.withSession { e.session with history }).settled_returnToTitle
          (hclears.withSession { e.session with history }))
      · let session := { e.session with history, historyOpen := false, pacing := .manual }
        exact congrArg Except.ok ((h.withSession session).settled_enter
          (hclears.withSession session) _)

theorem Lags.settled_newGame {e : Engine τ ν} (h : e.Lags) (hclears : e.settled.Clears) :
    e.newGame.map Change.settled = e.settled.newGame := by
  unfold newGame
  rw [settled_script]
  split
  · exact congrArg Except.ok (h.settled_beginSession hclears _)
  · rfl

theorem Lags.settled_load [Save.KeyValueStore ν] {e : Engine τ ν} (h : e.Lags)
    (hclears : e.settled.Clears) (room : Nat) (slot : Int) :
    (e.load room slot).map Change.settled = e.settled.load room slot := by
  have hstorage : e.settled.storage = e.storage := rfl
  unfold load
  rw [hstorage, settled_script]
  cases e.storage with
  | error f => rfl
  | ok repository =>
    dsimp only [bind, Except.bind, mapError_ok, mapError_error]
    cases repository.get room slot with
    | error f => rfl
    | ok found =>
      dsimp only
      split
      · rfl
      · split
        · rfl
        · exact congrArg Except.ok (h.settled_beginSession hclears _)

theorem Lags.settled_revealTick {e : Engine τ ν} (h : e.Lags) (hfree : e.pacingTimer = none) :
    e.revealTick.settled = e.settled.revealTick := by
  have hdropped : ({ e with revealTimer := none } : Engine τ ν).Lags :=
    ⟨h.ignores, h.aged, h.ordered, h.ahead⟩
  cases hcurrent : e.currentNode with
  | none =>
    have hcurrent' : e.settled.currentNode = none := hcurrent
    rw [revealTick_of_none hcurrent, revealTick_of_none hcurrent']
    rfl
  | some node =>
    have hcurrent' : e.settled.currentNode = some node := hcurrent
    rw [revealTick_of_some hcurrent, revealTick_of_some hcurrent', settled_session]
    split
    · exact congrArg announced ((hdropped.withSession _).settled_armPacing hfree)
    · exact congrArg announced (hdropped.withSession _).settled_armReveal

end Pacing

variable [AddZeroClass τ] [AddLeftMono τ]

theorem now_le_newTimer_due (e : Engine τ ν) (delay : τ) (kind : AlarmKind) :
    e.agenda.now ≤ (e.newTimer delay kind).due :=
  le_add_of_nonneg_right (Timer.later_nonneg delay)

theorem Lags.setTimer {e : Engine τ ν} (h : e.Lags) (delay : τ) (kind : AlarmKind) :
    (e.setTimer delay kind).Lags := by
  refine ⟨?_, ?_, ?_, ?_⟩
  · rw [setTimer_agenda]
    exact h.ignores
  · intro t ht
    rw [setTimer_agenda] at ht
    rw [setTimer_generation]
    rcases Timer.mem_place.mp ht with rfl | hold
    · exact le_refl e.generation
    · exact h.aged t hold
  · rw [setTimer_agenda]
    exact Timer.inOrder_place h.ordered
  · intro t ht
    rw [setTimer_agenda] at ht ⊢
    rcases Timer.mem_place.mp ht with rfl | hold
    · exact e.now_le_newTimer_due delay kind
    · exact h.ahead t hold

theorem Lags.armReveal {e : Engine τ ν} (h : e.Lags) : e.armReveal.Lags := by
  rw [armReveal_eq]
  exact h.setTimer _ .revealTick

theorem Lags.beginEnding {e : Engine τ ν} (h : e.Lags) : e.beginEnding.engine.Lags :=
  (h.cancelTimers.withSession _).setTimer e.timing.endGrace .titleReturn

variable [Mul τ] [NatCast τ]

theorem Lags.armPacing {e : Engine τ ν} (h : e.Lags) (hfree : e.pacingTimer = none) :
    e.armPacing.Lags := by
  rw [armPacing_eq hfree]
  split
  · exact h
  · exact h.setTimer _ .pacingFire

theorem Lags.enter {e : Engine τ ν} (h : e.Lags) (node : Node) :
    (e.enter node).engine.Lags := by
  unfold Engine.enter
  dsimp only
  split
  · exact (h.cancelTimers.withSession _).armPacing rfl
  · exact (h.cancelTimers.withSession _).armReveal

theorem Lags.completeReveal {e : Engine τ ν} (h : e.Lags) : e.completeReveal.engine.Lags :=
  (h.cancelTimers.withSession _).armPacing rfl

theorem Lags.setPacing {e : Engine τ ν} (h : e.Lags) (pacing : Pacing) :
    (e.setPacing pacing).engine.Lags := by
  unfold Engine.setPacing
  split
  · exact h
  · have hcleared := (h.withSession { e.session with pacing }).cancelTimers
    dsimp only [announced]
    split
    · exact hcleared.armReveal
    · exact hcleared.armPacing rfl

theorem Lags.revealTick {e : Engine τ ν} (h : e.Lags) (hfree : e.pacingTimer = none) :
    e.revealTick.engine.Lags := by
  have hdropped : ({ e with revealTimer := none } : Engine τ ν).Lags :=
    ⟨h.ignores, h.aged, h.ordered, h.ahead⟩
  unfold Engine.revealTick
  dsimp only
  split
  · exact hdropped
  · split
    · exact (hdropped.withSession _).armPacing hfree
    · exact (hdropped.withSession _).armReveal

end Engine

variable [LinearOrder τ]

theorem Turn.lags [AddZeroClass τ] [Mul τ] [NatCast τ] [AddLeftMono τ]
    {e : Engine τ ν} {c : Change τ ν} (h : Turn e c) (hlags : e.Lags) :
    c.engine.Lags := by
  cases h with
  | stay => exact hlags
  | title => exact hlags.returnToTitle
  | @follow node target pacing hcurrent hending hlink => exact (hlags.withSession _).enter target
  | @back index id node hview hentry hnode => exact (hlags.withSession _).enter node
  | complete hcurrent hending hreveal => exact hlags.completeReveal
  | finish hcurrent hending hvideo hreveal hchoices hnext => exact hlags.beginEnding
  | pace pacing => exact hlags.setPacing pacing
  | cue => exact hlags.withSession _
  | browse isOpen hview => exact hlags.withSession _

namespace Engine

/-- Old timers may wait, and besides them only the one timer that an engine sets and holds. -/
structure Littered (e : Engine τ ν) : Prop extends e.Lags where
  sets : ∃ kind, e.settled.Sets kind

theorem Littered.clears {e : Engine τ ν} (h : e.Littered) : e.settled.Clears := by
  obtain ⟨kind, hsets⟩ := h.sets
  exact hsets.clears

theorem map_mapError {ε ε' α β : Type} (x : Except ε α) (f : ε → ε') (g : α → β) :
    (x.mapError f).map g = (x.map g).mapError f := by
  cases x <;> rfl

def clockAt (e : Engine τ ν) (now : τ) : Engine τ ν := { e with agenda := { e.agenda with now } }

theorem Lags.pop {e : Engine τ ν} (h : e.Lags) {target : τ} {entry : Timer.Entry τ Alarm}
    {rest : Timer.Agenda τ Alarm} (hdue : e.agenda.pop? target = some (entry, rest)) :
    ∃ queue, e.agenda.queue = entry :: queue ∧ ¬ target < entry.due ∧
      e.agenda.now ≤ entry.due ∧ rest = { e.agenda with now := entry.due, queue } ∧
      ({ e with agenda := rest } : Engine τ ν).Lags := by
  obtain ⟨queue, hqueue, htarget, rfl⟩ := Timer.Agenda.pop?_eq_some hdue
  have hfirst : e.agenda.now ≤ entry.due := by
    refine h.ahead entry ?_
    rw [hqueue]
    exact List.mem_cons_self
  have hordered := h.ordered
  rw [Timer.InOrder, hqueue, List.pairwise_cons] at hordered
  rw [Timer.later_eq_right hfirst]
  refine ⟨queue, hqueue, htarget, hfirst, rfl, h.ignores, ?_, hordered.2, hordered.1⟩
  intro t ht
  refine h.aged t ?_
  rw [hqueue]
  exact List.mem_cons_of_mem entry ht

theorem Lags.pop_counts {e : Engine τ ν} (h : e.Lags) {target : τ}
    {entry : Timer.Entry τ Alarm} {rest : Timer.Agenda τ Alarm}
    (hdue : e.agenda.pop? target = some (entry, rest)) (hcounts : e.counts entry = true) {now : τ}
    (hnow : now ≤ e.agenda.now) :
    (e.settled.clockAt now).agenda.pop? target =
      some (entry, ({ e with agenda := rest } : Engine τ ν).settled.agenda) := by
  obtain ⟨queue, hqueue, htarget, hfirst, rfl, -⟩ := h.pop hdue
  have hkept : (e.settled.clockAt now).agenda.queue = entry :: queue.filter e.counts := by
    rw [← List.filter_cons_of_pos hcounts, ← hqueue]
    rfl
  have hlater : Timer.later now entry.due = entry.due :=
    Timer.later_eq_right (le_trans hnow hfirst)
  unfold Timer.Agenda.pop?
  rw [hkept]
  dsimp only
  rw [if_neg htarget]
  have hclock : (e.settled.clockAt now).agenda.now = now := rfl
  rw [hclock, hlater]
  rfl

theorem Littered.popped {e : Engine τ ν} (h : e.Littered) {target : τ}
    {entry : Timer.Entry τ Alarm} {rest : Timer.Agenda τ Alarm}
    (hdue : e.agenda.pop? target = some (entry, rest)) (hcounts : e.counts entry = true) :
    ({ e with agenda := rest } : Engine τ ν).settled.Popped entry := by
  obtain ⟨kind, hsets⟩ := h.sets
  exact (hsets.pop (h.toLags.pop_counts hdue hcounts (le_refl e.agenda.now))).2

theorem Lags.pop_old {e : Engine τ ν} (h : e.Lags) {target : τ} {entry : Timer.Entry τ Alarm}
    {rest : Timer.Agenda τ Alarm} (hdue : e.agenda.pop? target = some (entry, rest))
    (hold : ¬ e.counts entry = true) (now : τ) :
    ({ e with agenda := rest } : Engine τ ν).settled.clockAt now = e.settled.clockAt now := by
  obtain ⟨queue, hqueue, htarget, hfirst, rfl, -⟩ := h.pop hdue
  have hdropped : e.agenda.queue.filter e.counts = queue.filter e.counts := by
    rw [hqueue, List.filter_cons_of_neg hold]
  unfold clockAt settled
  rw [hdropped]
  rfl

theorem Littered.pop_old {e : Engine τ ν} (h : e.Littered) {target : τ}
    {entry : Timer.Entry τ Alarm} {rest : Timer.Agenda τ Alarm}
    (hdue : e.agenda.pop? target = some (entry, rest)) (hold : ¬ e.counts entry = true) :
    ({ e with agenda := rest } : Engine τ ν).Littered := by
  obtain ⟨kind, hsets⟩ := h.sets
  obtain ⟨-, -, -, -, -, hlags⟩ := h.toLags.pop hdue
  have hsame := h.toLags.pop_old hdue hold rest.now
  refine ⟨hlags, kind, ?_⟩
  have hclock : ({ e with agenda := rest } : Engine τ ν).settled.clockAt rest.now =
    ({ e with agenda := rest } : Engine τ ν).settled := rfl
  rw [← hclock, hsame]
  exact hsets.withClock rest.now

/-- Where no timer is due, none is without the old ones, and the clock can be set for both. -/
theorem Lags.pop_none {e : Engine τ ν} (h : e.Lags) {target : τ}
    (hquiet : e.agenda.pop? target = none) (now : τ) :
    (e.settled.clockAt now).agenda.pop? target = none ∧ (e.clockAt target).Lags := by
  have hlater : ∀ t ∈ e.agenda.queue, target < t.due := by
    intro t ht
    have hfirst := Timer.Agenda.pop?_eq_none hquiet
    cases hqueue : e.agenda.queue with
    | nil =>
      rw [hqueue] at ht
      cases ht
    | cons first queue =>
      have hordered := h.ordered
      rw [Timer.InOrder, hqueue, List.pairwise_cons] at hordered
      have hnext : target < first.due := hfirst first (by rw [hqueue]; rfl)
      rw [hqueue] at ht
      rcases List.mem_cons.mp ht with rfl | ht
      · exact hnext
      · exact lt_of_lt_of_le hnext (hordered.1 t ht)
  refine ⟨?_, h.ignores, h.aged, h.ordered, fun t ht => le_of_lt (hlater t ht)⟩
  unfold Timer.Agenda.pop?
  split
  · rfl
  · next first queue hqueue =>
    have hmem : first ∈ e.agenda.queue.filter e.counts := by
      have hfirst : (e.settled.clockAt now).agenda.queue = e.agenda.queue.filter e.counts := rfl
      rw [← hfirst, hqueue]
      exact List.mem_cons_self
    rw [if_pos (hlater first (List.mem_filter.mp hmem).1)]

theorem Littered.clockAt {e : Engine τ ν} (h : e.Littered) {target : τ}
    (hquiet : e.agenda.pop? target = none) : (e.clockAt target).Littered := by
  obtain ⟨kind, hsets⟩ := h.sets
  exact ⟨(h.toLags.pop_none hquiet target).2, kind, hsets.withClock target⟩

theorem Littered.withSaves {e : Engine τ ν} (h : e.Littered)
    (saves : Option (Save.Repository ν)) : ({ e with saves } : Engine τ ν).Littered := by
  obtain ⟨kind, hsets⟩ := h.sets
  exact ⟨h.toLags.withSaves saves, kind, hsets.withSaves saves⟩

variable [AddZeroClass τ]

theorem opening_littered [Save.KeyValueStore ν] (script : Script) (timing : Timing τ)
    (saves : Option (Save.Repository ν)) : (Engine.opening script timing saves false).Littered :=
  ⟨⟨rfl, fun _ ht => (nomatch ht), List.Pairwise.nil, fun _ ht => (nomatch ht)⟩, none,
    opening_sets script timing saves⟩

variable [Mul τ] [NatCast τ]

/-- Old timers make no difference to the answer to a request. -/
theorem Littered.settled_outcome [Save.KeyValueStore ν] {e : Engine τ ν} (h : e.Littered)
    (call : Call τ) :
    e.settled.outcome call = (e.outcome call).map (Except.map Change.settled) := by
  have hlags := h.toLags
  have hclears := h.clears
  cases call with
  | newGame =>
    simp only [outcome, Option.map_some, map_mapError, hlags.settled_newGame hclears]
  | choose index =>
    simp only [outcome, Option.map_some, map_mapError, hlags.settled_selectChoice hclears]
  | jump index =>
    simp only [outcome, Option.map_some, map_mapError, hlags.settled_jumpToHistory hclears]
  | load slot =>
    simp only [outcome, Option.map_some, map_mapError, hlags.settled_load hclears]
  | title =>
    exact congrArg (fun c => some (Except.ok c)) (hlags.settled_returnToTitle hclears).symm
  | advance => exact congrArg (fun c => some (Except.ok c)) (hlags.settled_advance hclears).symm
  | auto enabled =>
    exact congrArg (fun c => some (Except.ok c)) (hlags.settled_setMode hclears _ _).symm
  | fastForward enabled =>
    exact congrArg (fun c => some (Except.ok c)) (hlags.settled_setMode hclears _ _).symm
  | toggleAuto =>
    exact congrArg (fun c => some (Except.ok c)) (hlags.settled_setMode hclears _ _).symm
  | toggleFastForward =>
    exact congrArg (fun c => some (Except.ok c)) (hlags.settled_setMode hclears _ _).symm
  | acknowledge =>
    exact congrArg (fun c => some (Except.ok c)) e.settled_acknowledgeEffect.symm
  | openHistory => exact congrArg (fun c => some (Except.ok c)) e.settled_openHistory.symm
  | closeHistory => exact congrArg (fun c => some (Except.ok c)) e.settled_closeHistory.symm
  | _ => rfl

theorem fire_old {e : Engine τ ν} {entry : Timer.Entry τ Alarm}
    (hold : ¬ e.counts entry = true) : e.fire entry.task = quiet e := by
  unfold fire
  rw [if_pos (by simpa [counts] using hold)]

/-- What a timer that counts does, it does in the same way without the old ones. -/
theorem Lags.settled_fire {e : Engine τ ν} (h : e.Lags) {t : Timer.Entry τ Alarm}
    (hpopped : e.settled.Popped t) : (e.fire t.task).settled = e.settled.fire t.task := by
  have hgeneration : t.task.generation = e.settled.generation := hpopped.generation t rfl
  unfold fire
  rw [if_neg (fun hne => hne hgeneration), if_neg (fun hne => hne hgeneration)]
  cases hkind : t.task.kind with
  | revealTick =>
    have hfree : e.pacingTimer = none := (hpopped.revealTimer hkind).slots .pacingFire
    exact h.settled_revealTick hfree
  | pacingFire =>
    have hdropped : ({ e with pacingTimer := none } : Engine τ ν).Lags :=
      ⟨h.ignores, h.aged, h.ordered, h.ahead⟩
    exact hdropped.settled_advance (hpopped.pacingTimer hkind).clears
  | titleReturn => exact h.settled_returnToTitle hpopped.clears

variable [AddLeftMono τ]

theorem Littered.granted [Save.KeyValueStore ν] {e : Engine τ ν} (h : e.Littered)
    {call : Call τ} {c : Change τ ν} (hgranted : e.outcome call = some (.ok c)) :
    c.engine.Littered := by
  have hsettled : e.settled.outcome call = some (.ok c.settled) := by
    rw [h.settled_outcome, hgranted]
    rfl
  obtain ⟨kind, hsets⟩ := h.sets
  refine ⟨?_, outcome_sets hsettled hsets⟩
  rcases outcome_cases hgranted with hturn | ⟨id, node, hnode, rfl, horigin⟩
  · exact hturn.lags h.toLags
  · exact (h.toLags.cancelTimers.withSession { view := .playing }).enter node

theorem Lags.fire {e : Engine τ ν} (h : e.Lags) {t : Timer.Entry τ Alarm}
    (hpopped : e.settled.Popped t) : (e.fire t.task).engine.Littered := by
  have hsets : ∃ kind, (e.fire t.task).engine.settled.Sets kind := by
    have hfire := hpopped.fire
    rw [← h.settled_fire hpopped] at hfire
    exact hfire
  refine ⟨?_, hsets⟩
  unfold Engine.fire
  split
  · exact h
  · cases hkind : t.task.kind with
    | revealTick => exact h.revealTick ((hpopped.revealTimer hkind).slots .pacingFire)
    | pacingFire =>
      have hdropped : ({ e with pacingTimer := none } : Engine τ ν).Lags :=
        ⟨h.ignores, h.aged, h.ordered, h.ahead⟩
      exact (turn_advance _).lags hdropped
    | titleReturn => exact h.returnToTitle

end Engine

end VisualNovel.Playback
