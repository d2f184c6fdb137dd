import VisualNovel.Proofs.Playback.Sessions
import VisualNovel.Proofs.Timer.Queue

/-!
Which timers an engine has set. While cancelling is heeded there is at most one, it belongs to the
current generation, and the engine holds its number in the place that goes with its purpose. In a
script whose nodes stand under their identifiers it is exactly the timer that the session waits for.
-/
namespace VisualNovel.Playback

variable {τ ν : Type}

namespace Engine

/-- The number of the timer that the engine holds for a purpose. -/
def slot (e : Engine τ ν) : AlarmKind → Option Nat
  | .revealTick => e.revealTimer
  | .pacingFire => e.pacingTimer
  | .titleReturn => e.titleTimer

def numberFor (kind : AlarmKind) : Option (Timer.Entry τ Alarm) → Option Nat
  | some t => if t.task.kind = kind then some t.order else none
  | none => none

/-- What is held of the timers, if only `waiting` has not run or been cancelled. -/
structure Slotted (e : Engine τ ν) (waiting : Option (Timer.Entry τ Alarm)) : Prop where
  heeds : e.agenda.heedsCancel = true
  generation : ∀ t ∈ waiting, t.task.generation = e.generation
  slots : ∀ kind, e.slot kind = numberFor kind waiting

/-- Only `waiting` is scheduled, and the engine holds it. -/
structure Holds (e : Engine τ ν) (waiting : Option (Timer.Entry τ Alarm)) : Prop
    extends e.Slotted waiting where
  queue : e.agenda.queue = waiting.toList

/-- The timer has just been taken out of the queue to run. -/
structure Popped (e : Engine τ ν) (t : Timer.Entry τ Alarm) : Prop
    extends e.Slotted (some t) where
  queue : e.agenda.queue = []

/-- Every timer in the queue is held, so that cancelling what is held empties the queue. -/
structure Clears (e : Engine τ ν) : Prop where
  heeds : e.agenda.heedsCancel = true
  held : ∀ t ∈ e.agenda.queue, ∃ kind, e.slot kind = some t.order

/-- A timer of that kind is set and held, or none at all. -/
def Sets (e : Engine τ ν) (kind : Option AlarmKind) : Prop :=
  ∃ waiting, e.Holds waiting ∧ waiting.map (·.task.kind) = kind

theorem Holds.clears {e : Engine τ ν} {waiting : Option (Timer.Entry τ Alarm)}
    (h : e.Holds waiting) : e.Clears where
  heeds := h.heeds
  held := by
    intro t ht
    rw [h.queue, Option.mem_toList] at ht
    refine ⟨t.task.kind, ?_⟩
    rw [h.slots, ht]
    simp [numberFor]

theorem Popped.clears {e : Engine τ ν} {t : Timer.Entry τ Alarm} (h : e.Popped t) :
    e.Clears where
  heeds := h.heeds
  held := by
    intro other hother
    rw [h.queue] at hother
    cases hother

theorem Sets.clears {e : Engine τ ν} {kind : Option AlarmKind} (h : e.Sets kind) : e.Clears := by
  obtain ⟨waiting, hholds, -⟩ := h
  exact hholds.clears

theorem Sets.holds_none {e : Engine τ ν} (h : e.Sets none) : e.Holds none := by
  obtain ⟨waiting, hholds, hkind⟩ := h
  rw [Option.map_eq_none_iff] at hkind
  exact hkind ▸ hholds

theorem Holds.sets_none {e : Engine τ ν} (h : e.Holds none) : e.Sets none := ⟨none, h, rfl⟩

theorem Sets.withSession {e : Engine τ ν} {kind : Option AlarmKind} (h : e.Sets kind)
    (session : Session) : ({ e with session } : Engine τ ν).Sets kind := by
  obtain ⟨waiting, hholds, hkind⟩ := h
  exact ⟨waiting, ⟨⟨hholds.heeds, hholds.generation, hholds.slots⟩, hholds.queue⟩, hkind⟩

theorem Sets.withClock {e : Engine τ ν} {kind : Option AlarmKind} (h : e.Sets kind)
    (now : τ) : ({ e with agenda := { e.agenda with now } } : Engine τ ν).Sets kind := by
  obtain ⟨waiting, hholds, hkind⟩ := h
  exact ⟨waiting, ⟨⟨hholds.heeds, hholds.generation, hholds.slots⟩, hholds.queue⟩, hkind⟩

theorem Sets.withSaves {e : Engine τ ν} {kind : Option AlarmKind} (h : e.Sets kind)
    (saves : Option (Save.Repository ν)) : ({ e with saves } : Engine τ ν).Sets kind := by
  obtain ⟨waiting, hholds, hkind⟩ := h
  exact ⟨waiting, ⟨⟨hholds.heeds, hholds.generation, hholds.slots⟩, hholds.queue⟩, hkind⟩

theorem Clears.withSession {e : Engine τ ν} (h : e.Clears) (session : Session) :
    ({ e with session } : Engine τ ν).Clears := ⟨h.heeds, h.held⟩

theorem Clears.cancelTimers {e : Engine τ ν} (h : e.Clears) : e.cancelTimers.Holds none where
  heeds := by
    simp only [Engine.cancelTimers, Timer.Agenda.foldl_cancel]
    exact h.heeds
  generation := by
    intro t ht
    cases ht
  slots := fun kind => by cases kind <;> rfl
  queue := by
    simp only [Engine.cancelTimers, Timer.Agenda.foldl_cancel, h.heeds, if_true, Option.toList_none]
    rw [List.filter_eq_nil_iff]
    intro t ht
    obtain ⟨kind, hkind⟩ := h.held t ht
    cases kind <;> simp only [slot] at hkind <;> simp [hkind]

theorem Clears.returnToTitle {e : Engine τ ν} (h : e.Clears) : e.returnToTitle.engine.Sets none :=
  h.cancelTimers.sets_none.withSession {}

variable [Zero τ] [Add τ] [LT τ] [DecidableLT τ]

def setTimer (e : Engine τ ν) (delay : τ) (kind : AlarmKind) : Engine τ ν :=
  let (order, e) := e.schedule delay kind
  match kind with
  | .revealTick => { e with revealTimer := some order }
  | .pacingFire => { e with pacingTimer := some order }
  | .titleReturn => { e with titleTimer := some order }

def newTimer (e : Engine τ ν) (delay : τ) (kind : AlarmKind) : Timer.Entry τ Alarm :=
  ⟨e.agenda.now + Timer.later 0 delay, e.agenda.nextOrder, ⟨e.generation, kind⟩⟩

theorem setTimer_agenda (e : Engine τ ν) (delay : τ) (kind : AlarmKind) :
    (e.setTimer delay kind).agenda = { e.agenda with
      queue := Timer.place (e.newTimer delay kind) e.agenda.queue
      nextOrder := e.agenda.nextOrder + 1 } := by
  cases kind <;> rfl

@[simp] theorem setTimer_generation (e : Engine τ ν) (delay : τ) (kind : AlarmKind) :
    (e.setTimer delay kind).generation = e.generation := by
  cases kind <;> rfl

theorem armReveal_eq (e : Engine τ ν) :
    e.armReveal = e.setTimer (e.timing.revealIntervalFor e.session.pacing) .revealTick := rfl

theorem Holds.setTimer {e : Engine τ ν} (h : e.Holds none) (delay : τ) (kind : AlarmKind) :
    (e.setTimer delay kind).Sets (some kind) := by
  refine ⟨some (e.newTimer delay kind), ⟨⟨?_, ?_, ?_⟩, ?_⟩, rfl⟩
  · rw [setTimer_agenda]
    exact h.heeds
  · intro t ht
    cases ht
    exact (setTimer_generation e delay kind).symm
  · intro other
    have hslot := h.slots other
    cases kind <;> cases other <;> first | exact hslot | rfl
  · have hqueue : e.agenda.queue = [] := h.queue
    rw [setTimer_agenda]
    simp [hqueue, Timer.place]

theorem Holds.armReveal {e : Engine τ ν} (h : e.Holds none) :
    e.armReveal.Sets (some .revealTick) := by
  rw [armReveal_eq]
  exact h.setTimer _ .revealTick

theorem Clears.beginEnding {e : Engine τ ν} (h : e.Clears) :
    e.beginEnding.engine.Sets (some .titleReturn) :=
  (h.cancelTimers.sets_none.withSession _).holds_none.setTimer e.timing.endGrace .titleReturn

variable [Mul τ] [NatCast τ]

/-- How long automatic pacing waits before it goes on, if it does. -/
def pause (e : Engine τ ν) : Option τ :=
  match e.currentNode with
  | none => none
  | some node => if e.waitsForPlayer node then none else e.pacingDelay node

theorem armPacing_eq {e : Engine τ ν} (h : e.pacingTimer = none) :
    e.armPacing = match e.pause with
      | none => e
      | some delay => e.setTimer delay .pacingFire := by
  unfold armPacing pause
  cases hcurrent : e.currentNode with
  | none => rfl
  | some node =>
    dsimp only
    split
    · rfl
    · cases hdelay : e.pacingDelay node with
      | none => rfl
      | some delay =>
        simp only [h, Option.toList_none, List.foldl_nil]
        rfl

theorem Holds.armPacing {e : Engine τ ν} (h : e.Holds none) :
    e.armPacing.Sets (e.pause.map fun _ => .pacingFire) := by
  rw [armPacing_eq (h.slots .pacingFire)]
  cases hpause : e.pause with
  | none => exact h.sets_none
  | some delay => exact h.setTimer delay .pacingFire

theorem Clears.enter {e : Engine τ ν} (h : e.Clears) (node : Node) :
    ∃ kind, (e.enter node).engine.Sets kind := by
  unfold Engine.enter
  dsimp only
  split
  · exact ⟨_, (h.cancelTimers.sets_none.withSession _).holds_none.armPacing⟩
  · exact ⟨_, (h.cancelTimers.sets_none.withSession _).holds_none.armReveal⟩

theorem Clears.completeReveal {e : Engine τ ν} (h : e.Clears) :
    ∃ kind, e.completeReveal.engine.Sets kind :=
  ⟨_, (h.cancelTimers.sets_none.withSession _).holds_none.armPacing⟩

theorem Sets.setPacing {e : Engine τ ν} {kind : Option AlarmKind} (h : e.Sets kind)
    (pacing : Pacing) : ∃ kind, (e.setPacing pacing).engine.Sets kind := by
  unfold Engine.setPacing
  split
  · exact ⟨kind, h⟩
  · have hcleared := (h.clears.withSession { e.session with pacing }).cancelTimers
    dsimp only [announced]
    split
    · exact ⟨_, hcleared.armReveal⟩
    · exact ⟨_, hcleared.armPacing⟩

end Engine

section Turns

section Beginnings
variable [Zero τ] [Add τ] [Mul τ] [NatCast τ] [LT τ] [DecidableLT τ]

theorem Turn.sets {e : Engine τ ν} {c : Change τ ν} (h : Turn e c) {kind : Option AlarmKind}
    (hsets : e.Sets kind) : ∃ kind, c.engine.Sets kind := by
  cases h with
  | stay => exact ⟨kind, hsets⟩
  | title => exact ⟨_, hsets.clears.returnToTitle⟩
  | @follow node target pacing hcurrent hending hlink =>
    exact (hsets.clears.withSession _).enter target
  | @back index id node hview hentry hnode => exact (hsets.clears.withSession _).enter node
  | complete hcurrent hending hreveal => exact hsets.clears.completeReveal
  | finish hcurrent hending hvideo hreveal hchoices hnext =>
    exact ⟨_, hsets.clears.beginEnding⟩
  | pace pacing => exact hsets.setPacing pacing
  | cue => exact ⟨kind, hsets.withSession _⟩
  | browse isOpen hview => exact ⟨kind, hsets.withSession _⟩

theorem Engine.Sets.beginSession {e : Engine τ ν} {kind : Option AlarmKind} (h : e.Sets kind)
    (node : Node) : ∃ kind, (e.beginSession node).engine.Sets kind :=
  (h.clears.cancelTimers.clears.withSession _).enter node

end Beginnings

namespace Engine

/-- Once the number of the timer that runs is dropped, no timer is held any more. -/
theorem Popped.revealTimer {e : Engine τ ν} {t : Timer.Entry τ Alarm} (h : e.Popped t)
    (hkind : t.task.kind = .revealTick) :
    ({ e with revealTimer := none } : Engine τ ν).Holds none := by
  refine ⟨⟨h.heeds, fun t ht => (nomatch ht), ?_⟩, h.queue⟩
  intro kind
  have hslot := h.slots kind
  cases kind <;> simp_all [slot, numberFor]

theorem Popped.pacingTimer {e : Engine τ ν} {t : Timer.Entry τ Alarm} (h : e.Popped t)
    (hkind : t.task.kind = .pacingFire) :
    ({ e with pacingTimer := none } : Engine τ ν).Holds none := by
  refine ⟨⟨h.heeds, fun t ht => (nomatch ht), ?_⟩, h.queue⟩
  intro kind
  have hslot := h.slots kind
  cases kind <;> simp_all [slot, numberFor]

variable [LT τ] [DecidableLT τ]

theorem Sets.pop {e : Engine τ ν} {kind : Option AlarmKind} (h : e.Sets kind) {target : τ}
    {entry : Timer.Entry τ Alarm} {rest : Timer.Agenda τ Alarm}
    (hdue : e.agenda.pop? target = some (entry, rest)) :
    kind = some entry.task.kind ∧ ({ e with agenda := rest } : Engine τ ν).Popped entry := by
  obtain ⟨waiting, hholds, rfl⟩ := h
  obtain ⟨queue, hqueue, -, rfl⟩ := Timer.Agenda.pop?_eq_some hdue
  rw [hholds.queue] at hqueue
  cases waiting with
  | none => cases hqueue
  | some t =>
    rw [Option.toList_some, List.cons.injEq] at hqueue
    obtain ⟨rfl, rfl⟩ := hqueue
    exact ⟨rfl, ⟨⟨hholds.heeds, hholds.generation, hholds.slots⟩, rfl⟩⟩

variable [Zero τ] [Add τ] [Mul τ] [NatCast τ]

theorem Holds.revealTick {e : Engine τ ν}
    (h : ({ e with revealTimer := none } : Engine τ ν).Holds none) :
    ∃ kind, e.revealTick.engine.Sets kind := by
  unfold Engine.revealTick
  dsimp only
  split
  · exact ⟨none, h.sets_none⟩
  · split
    · exact ⟨_, (h.sets_none.withSession _).holds_none.armPacing⟩
    · exact ⟨_, (h.sets_none.withSession _).holds_none.armReveal⟩

/-- A timer of the current generation does what it is for. -/
theorem Popped.fire_eq {e : Engine τ ν} {t : Timer.Entry τ Alarm} (h : e.Popped t) :
    e.fire t.task = match t.task.kind with
      | .revealTick => e.revealTick
      | .pacingFire => ({ e with pacingTimer := none } : Engine τ ν).advance
      | .titleReturn => e.returnToTitle := by
  have hgeneration : t.task.generation = e.generation := h.generation t rfl
  exact if_neg (fun hne => hne hgeneration)

theorem Popped.fire {e : Engine τ ν} {t : Timer.Entry τ Alarm} (h : e.Popped t) :
    ∃ kind, (e.fire t.task).engine.Sets kind := by
  rw [h.fire_eq]
  cases hkind : t.task.kind with
  | revealTick => exact (h.revealTimer hkind).revealTick
  | pacingFire => exact (turn_advance _).sets (h.pacingTimer hkind).sets_none
  | titleReturn => exact ⟨none, h.clears.returnToTitle⟩

end Engine

end Turns

section Runs
variable {permitted : Call τ → Prop}

section Answers
variable [Zero τ]

theorem Engine.opening_sets (script : Script) (timing : Timing τ)
    (saves : Option (Save.Repository ν)) : (Engine.opening script timing saves).Sets none :=
  ⟨none, ⟨⟨rfl, fun t ht => (nomatch ht), fun kind => by cases kind <;> rfl⟩, rfl⟩, rfl⟩

variable [Save.KeyValueStore ν]
variable [Add τ] [Mul τ] [NatCast τ] [LT τ] [DecidableLT τ]

theorem Engine.outcome_sets {e : Engine τ ν} {call : Call τ} {c : Change τ ν}
    (h : e.outcome call = some (.ok c)) {kind : Option AlarmKind} (hsets : e.Sets kind) :
    ∃ kind, c.engine.Sets kind := by
  rcases outcome_cases h with hturn | ⟨id, node, hnode, rfl, horigin⟩
  · exact hturn.sets hsets
  · exact hsets.beginSession node

end Answers

/-- The timer without which play would stand still: the next character, the return to the title, or
the next node. -/
def Engine.awaited (e : Engine τ ν) : Option AlarmKind :=
  match e.currentNode with
  | none => none
  | some node =>
      if e.session.reveal = .revealing then some .revealTick
      else if e.session.ending then some .titleReturn
      else if e.session.pacing = .manual ∨ node.isDecision ∨ node.hasVideo then none
      else some .pacingFire

/-- The only timer set is the one that the session waits for. -/
def Engine.Armed (e : Engine τ ν) : Prop := e.Sets e.awaited

namespace Engine

theorem awaited_congr {e e' : Engine τ ν} (hnode : e'.currentNode = e.currentNode)
    (hreveal : e'.session.reveal = e.session.reveal)
    (hending : e'.session.ending = e.session.ending)
    (hpacing : e'.session.pacing = e.session.pacing) : e'.awaited = e.awaited := by
  simp only [awaited, hnode, hreveal, hending, hpacing]

theorem currentNode_congr {e e' : Engine τ ν} (hscript : e'.script = e.script)
    (hview : e'.session.view = e.session.view) (hcurrent : e'.session.current = e.session.current) :
    e'.currentNode = e.currentNode := by
  simp only [currentNode, hscript, hview, hcurrent]

theorem Clears.returnToTitle_armed {e : Engine τ ν} (h : e.Clears) :
    e.returnToTitle.engine.Armed := h.returnToTitle

theorem Armed.withSession {e : Engine τ ν} (h : e.Armed) {session : Session}
    (hview : session.view = e.session.view) (hcurrent : session.current = e.session.current)
    (hreveal : session.reveal = e.session.reveal) (hending : session.ending = e.session.ending)
    (hpacing : session.pacing = e.session.pacing) :
    ({ e with session } : Engine τ ν).Armed := by
  have hsame : ({ e with session } : Engine τ ν).awaited = e.awaited :=
    awaited_congr (currentNode_congr rfl hview hcurrent) hreveal hending hpacing
  unfold Armed
  rw [hsame]
  exact Sets.withSession h session

variable [LT τ] [DecidableLT τ]

section Reveals
variable [Zero τ] [Add τ]

theorem Holds.armReveal_armed {e : Engine τ ν} (h : e.Holds none) {node : Node}
    (hcurrent : e.currentNode = some node) (hreveal : e.session.reveal = .revealing) :
    e.armReveal.Armed := by
  have hnode : e.armReveal.currentNode = some node := hcurrent
  have hawaited : e.armReveal.awaited = some .revealTick := by
    unfold awaited
    rw [hnode]
    simp [hreveal]
  unfold Armed
  rw [hawaited]
  exact h.armReveal

theorem Clears.beginEnding_armed {e : Engine τ ν} (h : e.Clears) {node : Node}
    (hcurrent : e.currentNode = some node) (hreveal : e.session.reveal = .revealed) :
    e.beginEnding.engine.Armed := by
  have hnode : e.beginEnding.engine.currentNode = some node := hcurrent
  have hawaited : e.beginEnding.engine.awaited = some .titleReturn := by
    unfold awaited
    rw [hnode]
    simp [beginEnding_session, hreveal]
  unfold Armed
  rw [hawaited]
  exact h.beginEnding

end Reveals

variable [Mul τ] [NatCast τ]

/-- Where the text is complete and no ending is under way, automatic pacing sets its timer exactly
if it is awaited. -/
theorem pause_eq_awaited {e : Engine τ ν} (hreveal : e.session.reveal = .revealed)
    (hending : e.session.ending = false) :
    (e.pause.map fun _ => AlarmKind.pacingFire) = e.awaited := by
  unfold pause awaited
  cases hcurrent : e.currentNode with
  | none => rfl
  | some node =>
    by_cases hdecision : node.isDecision = true
    · simp [waitsForPlayer, hreveal, hending, hdecision]
    · by_cases hvideo : node.hasVideo = true
      · simp [waitsForPlayer, hreveal, hending, hvideo]
      · cases hpacing : e.session.pacing <;>
          simp [waitsForPlayer, pacingDelay, hreveal, hending, hdecision, hvideo, hpacing]

variable [Zero τ] [Add τ]

theorem Holds.armPacing_armed {e : Engine τ ν} (h : e.Holds none)
    (hreveal : e.session.reveal = .revealed) (hending : e.session.ending = false) :
    e.armPacing.Armed := by
  have hsets := h.armPacing
  rw [pause_eq_awaited hreveal hending] at hsets
  have hsame : e.armPacing.awaited = e.awaited :=
    awaited_congr (currentNode_congr (by simp) (by simp) (by simp)) (by simp) (by simp) (by simp)
  unfold Armed
  rw [hsame]
  exact hsets

theorem Clears.enter_armed {e : Engine τ ν} (h : e.Clears) (hview : e.session.view = .playing)
    {node : Node} (hnode : e.script.get? node.id = some node) :
    (e.enter node).engine.Armed := by
  unfold Engine.enter
  dsimp only
  split
  · exact (h.cancelTimers.sets_none.withSession _).holds_none.armPacing_armed rfl rfl
  · let session := { e.session with
      current := some node.id, progress := 0, effect := node.effect, ending := false
      reveal := .revealing }
    have hcurrent : ({ e.cancelTimers with session } : Engine τ ν).currentNode = some node :=
      (currentNode_eq_some_iff _ node).mpr ⟨hview, node.id, rfl, hnode⟩
    exact (h.cancelTimers.sets_none.withSession session).holds_none.armReveal_armed hcurrent rfl

theorem Clears.navigate_armed {e : Engine τ ν} (h : e.Clears)
    (hview : e.session.view = .playing) {node : Node} (hnode : e.script.get? node.id = some node) :
    (e.navigate node).engine.Armed := by
  unfold Engine.navigate
  refine (h.withSession _).enter_armed ?_ ?_
  · exact hview
  · exact hnode

theorem Armed.setPacing {e : Engine τ ν} (h : e.Armed) (hsound : e.session.Sound e.script)
    (pacing : Pacing) : (e.setPacing pacing).engine.Armed := by
  unfold Engine.setPacing
  split
  · exact h
  · next hopen =>
    simp only [not_or, ne_eq, Decidable.not_not, Bool.not_eq_true] at hopen
    have hcleared := (h.clears.withSession { e.session with pacing }).cancelTimers
    obtain ⟨node, hat⟩ := hsound.playing hopen.1
    have hcurrent : e.currentNode = some node := currentNode_of_at hopen.1 hat
    dsimp only [announced]
    split
    · next hreveal => exact hcleared.armReveal_armed hcurrent hreveal
    · next hreveal =>
      have hrevealed : e.session.reveal = .revealed := Reveal.eq_revealed hreveal
      exact hcleared.armPacing_armed hrevealed hopen.2.1

end Engine

theorem Turn.armed [Zero τ] [Add τ] [Mul τ] [NatCast τ] [LT τ] [DecidableLT τ]
    {e : Engine τ ν} {c : Change τ ν} (h : Turn e c)
    (hkeys : e.script.KeysAreIds) (hsound : e.session.Sound e.script) (harmed : e.Armed) :
    c.engine.Armed := by
  have hclears : e.Clears := harmed.clears
  cases h with
  | stay => exact harmed
  | title => exact hclears.returnToTitle_armed
  | @follow node target pacing hcurrent hending hlink =>
    obtain ⟨hview, hat⟩ := Engine.at_of_currentNode hsound hcurrent
    obtain ⟨id, htarget⟩ := hlink.exists_get?
    refine (hclears.withSession _).navigate_armed ?_ ?_
    · exact hview
    · exact hkeys.get?_id htarget
  | @back index id node hview hentry hnode =>
    obtain ⟨key, hkey⟩ := Script.exists_get?_of_resolve hnode
    refine (hclears.withSession _).enter_armed ?_ ?_
    · exact hview
    · exact hkeys.get?_id hkey
  | complete hcurrent hending hreveal =>
    exact (hclears.cancelTimers.sets_none.withSession _).holds_none.armPacing_armed rfl hending
  | finish hcurrent hending hvideo hreveal hchoices hnext =>
    exact hclears.beginEnding_armed hcurrent hreveal
  | pace pacing => exact harmed.setPacing hsound pacing
  | cue => exact harmed.withSession rfl rfl rfl rfl rfl
  | browse isOpen hview => exact harmed.withSession rfl rfl rfl rfl rfl

namespace Engine

/-- A character is awaited only while the text is not complete. -/
theorem revealing_of_awaited {e : Engine τ ν} (h : e.awaited = some .revealTick) :
    e.session.reveal = .revealing := by
  unfold awaited at h
  by_contra hrevealed
  split at h
  · cases h
  · rw [if_neg hrevealed] at h
    split at h
    · cases h
    · split at h <;> cases h

/-- Automatic pacing waits to go on only where the text is complete and nothing is left to the
player. -/
theorem eq_of_awaited_pacingFire {e : Engine τ ν} (h : e.awaited = some .pacingFire) :
    ∃ node, e.currentNode = some node ∧ e.session.reveal = .revealed ∧
      e.session.ending = false ∧ node.hasVideo = false ∧ node.choices = [] := by
  cases hcurrent : e.currentNode with
  | none => simp [awaited, hcurrent] at h
  | some node =>
    simp only [awaited, hcurrent] at h
    split at h
    · cases h
    · next hreveal =>
      split at h
      · cases h
      · next hending =>
        split at h
        · cases h
        · next hfree =>
          simp only [not_or, Bool.not_eq_true] at hfree
          refine ⟨node, rfl, Reveal.eq_revealed hreveal, by simpa using hending, hfree.2.2, ?_⟩
          simpa [Node.isDecision] using hfree.2.1

theorem ending_of_awaited {e : Engine τ ν} (h : e.awaited = some .titleReturn) :
    e.session.ending = true := by
  unfold awaited at h
  split at h
  · cases h
  · split at h
    · cases h
    · split at h
      · assumption
      · split at h <;> cases h

variable [Zero τ] [Add τ] [Mul τ] [NatCast τ] [LT τ] [DecidableLT τ]

/-- A character that appears sets the timer for the next one, or for what follows the last one. -/
theorem revealTick_armed {e : Engine τ ν}
    (h : ({ e with revealTimer := none } : Engine τ ν).Holds none)
    (hawaited : e.awaited = some .revealTick) (hsound : e.session.Sound e.script) :
    e.revealTick.engine.Armed := by
  cases hcurrent : e.currentNode with
  | none => simp [awaited, hcurrent] at hawaited
  | some node =>
    obtain ⟨hview, hat⟩ := at_of_currentNode hsound hcurrent
    have hreveal : e.session.reveal = .revealing := revealing_of_awaited hawaited
    have hending : e.session.ending = false := hat.not_ending hreveal
    have hnode : ({ e with revealTimer := none } : Engine τ ν).currentNode = some node := hcurrent
    unfold Engine.revealTick
    dsimp only
    rw [hnode]
    dsimp only
    split
    · exact (h.sets_none.withSession _).holds_none.armPacing_armed rfl hending
    · have hticked := h.sets_none.withSession { e.session with
        progress := min (e.session.progress + 1) node.text.length }
      have hstill : Engine.currentNode _ = some node := hcurrent
      exact hticked.holds_none.armReveal_armed hstill hreveal

/-- Automatic pacing goes on to the next node, or begins the ending. -/
theorem advance_armed {e : Engine τ ν} (h : e.Holds none) (hkeys : e.script.KeysAreIds)
    (hsound : e.session.Sound e.script) (hawaited : e.awaited = some .pacingFire) :
    e.advance.engine.Armed := by
  obtain ⟨node, hcurrent, hrevealed, hending, hvideo, hchoices⟩ := eq_of_awaited_pacingFire hawaited
  obtain ⟨hview, hat⟩ := at_of_currentNode hsound hcurrent
  rw [advance_of_plain hcurrent hending hvideo hchoices hrevealed]
  cases hsuccessor : e.successor node with
  | none => exact h.clears.beginEnding_armed hcurrent hrevealed
  | some target =>
    obtain ⟨id, hnext, hend, htarget⟩ := successor_eq_some hsuccessor
    exact h.clears.navigate_armed hview (hkeys.get?_id htarget)

theorem Popped.fire_armed {e : Engine τ ν} {t : Timer.Entry τ Alarm} (h : e.Popped t)
    (hawaited : e.awaited = some t.task.kind) (hkeys : e.script.KeysAreIds)
    (hsound : e.session.Sound e.script) : (e.fire t.task).engine.Armed := by
  rw [h.fire_eq]
  cases hkind : t.task.kind with
  | revealTick => exact revealTick_armed (h.revealTimer hkind) (hkind ▸ hawaited) hsound
  | pacingFire =>
    exact advance_armed (e := { e with pacingTimer := none }) (h.pacingTimer hkind) hkeys hsound
      (hkind ▸ hawaited)
  | titleReturn => exact h.clears.returnToTitle_armed

end Engine

section Steps
variable [Save.KeyValueStore ν]
variable [Zero τ] [Add τ] [Mul τ] [NatCast τ] [LT τ] [DecidableLT τ]

theorem Step.armed {e e' : Engine τ ν} (h : Step permitted e e') (hkeys : e.script.KeysAreIds)
    (hsound : e.session.Sound e.script) (harmed : e.Armed) : e'.Armed := by
  cases h with
  | request hcall hgranted =>
    rcases Engine.outcome_cases hgranted with hturn | ⟨id, node, hnode, rfl, horigin⟩
    · exact hturn.armed hkeys hsound harmed
    · exact (harmed.clears.cancelTimers.clears.withSession { view := .playing }).enter_armed rfl
        (hkeys.get?_id hnode)
  | @alarm target entry rest hdue =>
    obtain ⟨hawaited, hpopped⟩ := Engine.Sets.pop harmed hdue
    exact hpopped.fire_armed hawaited hkeys hsound
  | @clock target hquiet => exact Engine.Sets.withClock harmed target
  | saves saves => exact Engine.Sets.withSaves harmed saves

theorem Steps.armed {e e' : Engine τ ν} (h : Steps permitted e e') (hkeys : e.script.KeysAreIds)
    (hsound : e.session.Sound e.script) (harmed : e.Armed) : e'.Armed := by
  induction h with
  | refl => exact harmed
  | tail hsteps hstep ih =>
    exact hstep.armed (Steps.script hsteps ▸ hkeys) (Steps.sound hsteps hkeys hsound) ih

end Steps

namespace Engine

/-- Play goes on to the next node without the player. -/
def GoesOn (e : Engine τ ν) : Prop :=
  e.session.reveal = .revealed ∧ (e.session.pacing = .auto ∨ e.session.pacing = .fastForward) ∧
    ∃ node, e.currentNode = some node ∧ node.choices = [] ∧ node.hasVideo = false

/-- One timer waits where something is to happen by itself, and none elsewhere. -/
structure TimersMatch (e : Engine τ ν) : Prop where
  pending_le : e.agenda.pending ≤ 1
  pending_eq_one : e.agenda.pending = 1 ↔ e.session.view = .playing ∧
    (e.session.reveal = .revealing ∨ e.session.ending = true ∨ e.GoesOn)
  purpose : ∀ t ∈ e.agenda.queue, t.task.generation = e.generation ∧
    (t.task.kind = .revealTick ↔ e.session.reveal = .revealing) ∧
    (t.task.kind = .titleReturn ↔ e.session.ending = true) ∧
    (t.task.kind = .pacingFire ↔ e.GoesOn)

theorem goesOn_iff {e : Engine τ ν} {node : Node} (hcurrent : e.currentNode = some node)
    (hreveal : e.session.reveal = .revealed) :
    e.GoesOn ↔ ¬ (e.session.pacing = .manual ∨ node.isDecision = true ∨ node.hasVideo = true) := by
  unfold GoesOn
  rw [hcurrent]
  cases hpacing : e.session.pacing <;> simp [hreveal, Node.isDecision]

/-- The three purposes exclude each other, and the session tells which of them is awaited. -/
theorem awaited_cases {e : Engine τ ν} (hsound : e.session.Sound e.script)
    (hview : e.session.view = .playing) :
    (e.awaited = some .revealTick ∧ e.session.reveal = .revealing ∧ e.session.ending = false ∧
      ¬ e.GoesOn) ∨
    (e.awaited = some .titleReturn ∧ e.session.reveal ≠ .revealing ∧ e.session.ending = true ∧
      ¬ e.GoesOn) ∨
    (e.awaited = some .pacingFire ∧ e.session.reveal ≠ .revealing ∧ e.session.ending = false ∧
      e.GoesOn) ∨
    (e.awaited = none ∧ e.session.reveal ≠ .revealing ∧ e.session.ending = false ∧
      ¬ e.GoesOn) := by
  obtain ⟨node, hat⟩ := hsound.playing hview
  have hcurrent : e.currentNode = some node := currentNode_of_at hview hat
  cases hreveal : e.session.reveal with
  | revealing =>
    have hending : e.session.ending = false := hat.not_ending hreveal
    refine Or.inl ⟨by simp [awaited, hcurrent, hreveal], rfl, hending, ?_⟩
    intro hgoes
    exact absurd (hreveal.symm.trans hgoes.1) (by simp)
  | revealed =>
    have hgoes := goesOn_iff hcurrent hreveal
    cases hending : e.session.ending with
    | true =>
      have hclosing := hat.ending hending
      refine Or.inr (Or.inl ⟨by simp [awaited, hcurrent, hreveal, hending], by simp, rfl, ?_⟩)
      rw [hgoes]
      exact fun h => h (Or.inl hclosing.pacing)
    | false =>
      by_cases hwaits : e.session.pacing = .manual ∨ node.isDecision = true ∨ node.hasVideo = true
      · refine Or.inr (Or.inr (Or.inr ⟨?_, by simp, rfl, fun h => hgoes.mp h hwaits⟩))
        simp only [awaited, hcurrent, hreveal, hending]
        simp [hwaits]
      · refine Or.inr (Or.inr (Or.inl ⟨?_, by simp, rfl, hgoes.mpr hwaits⟩))
        simp only [awaited, hcurrent, hreveal, hending]
        simp [hwaits]

theorem Armed.timersMatch {e : Engine τ ν} (h : e.Armed) (hsound : e.session.Sound e.script) :
    e.TimersMatch := by
  obtain ⟨waiting, hholds, hkind⟩ := h
  have hpending : e.agenda.pending = waiting.toList.length := by
    rw [Timer.Agenda.pending, hholds.queue]
  cases hview : e.session.view with
  | title =>
    have hawaited : e.awaited = none := by simp [awaited, currentNode, hview]
    rw [hawaited, Option.map_eq_none_iff] at hkind
    subst hkind
    refine ⟨by simp [hpending], by simp [hpending, hview], ?_⟩
    intro t ht
    rw [hholds.queue] at ht
    cases ht
  | playing =>
    cases waiting with
    | none =>
      rcases awaited_cases hsound hview with ⟨ha, -⟩ | ⟨ha, -⟩ | ⟨ha, -⟩ | ⟨ha, hr, he, hg⟩
      · exact absurd (hkind.trans ha) (by simp)
      · exact absurd (hkind.trans ha) (by simp)
      · exact absurd (hkind.trans ha) (by simp)
      · refine ⟨by simp [hpending], by simp [hpending, hr, he, hg], ?_⟩
        intro t ht
        rw [hholds.queue] at ht
        cases ht
    | some t =>
      have hgeneration := hholds.generation t rfl
      refine ⟨by simp [hpending], ?_, ?_⟩
      · rcases awaited_cases hsound hview with
          ⟨ha, hr, -⟩ | ⟨ha, -, he, -⟩ | ⟨ha, -, -, hg⟩ | ⟨ha, -⟩
        · simp [hpending, hview, hr]
        · simp [hpending, hview, he]
        · simp [hpending, hview, hg]
        · exact absurd (hkind.trans ha) (by simp)
      · intro other hother
        rw [hholds.queue, Option.toList_some, List.mem_singleton] at hother
        subst hother
        refine ⟨hgeneration, ?_⟩
        rw [Option.map_some] at hkind
        rcases awaited_cases hsound hview with
          ⟨ha, hr, he, hg⟩ | ⟨ha, hr, he, hg⟩ | ⟨ha, hr, he, hg⟩ | ⟨ha, hr, he, hg⟩
        · have hpurpose := Option.some.inj (hkind.trans ha)
          simp [hpurpose, hr, he, hg]
        · have hpurpose := Option.some.inj (hkind.trans ha)
          simp [hpurpose, hr, he, hg]
        · have hpurpose := Option.some.inj (hkind.trans ha)
          simp [hpurpose, hr, he, hg]
        · exact absurd (hkind.trans ha) (by simp)

end Engine

variable [Save.KeyValueStore ν]
variable [Zero τ] [Add τ] [Mul τ] [NatCast τ] [LT τ] [DecidableLT τ]

/-- In every run over an agenda that heeds cancelling, a timer waits exactly while text is still
appearing, an ending is under way, or automatic pacing is about to go on. -/
theorem timers_match_the_session [LE τ] [DecidableLE τ] (script : Script)
    (hkeys : script.KeysAreIds) (timing : Timing τ) (saves : Option (Save.Repository ν))
    (stamps : Stamps) (fuel : Nat) (calls : List (Call τ)) :
    ((House.opening (Engine.opening script timing saves) stamps).play fuel
      calls).engine.TimersMatch := by
  have hall : ∀ call ∈ calls, call.Within fun _ => True :=
    fun call _ => call.within_any
  have hsteps := House.play_steps fuel calls hall (Engine.opening script timing saves) stamps
  have hstart : (Engine.opening script timing saves).Armed :=
    Engine.opening_sets script timing saves
  have hsound := Steps.sound hsteps hkeys (Session.sound_initial script)
  exact (Steps.armed hsteps hkeys (Session.sound_initial script) hstart).timersMatch hsound

end Runs

theorem timers_match_the_session_at_the_end_of_a_story :
    forkScript.KeysAreIds ∧
      (forkOpening.play 40 [.newGame, .wait 45, .advance, .choose 0, .fastForward true,
        .wait 106]).engine.TimersMatch ∧
      (forkOpening.play 40 [.newGame, .wait 45, .advance, .choose 0, .fastForward true,
        .wait 106]).engine.agenda.pending = 1 ∧
      (forkOpening.play 40 [.newGame, .wait 45, .advance, .choose 0, .fastForward true,
        .wait 106]).engine.session.ending = true := by
  have hkeys : forkScript.KeysAreIds := by
    unfold forkScript
    exact Compiler.keysAreIds_compile {} forkText
  refine ⟨hkeys, ?_, by decide +kernel, by decide +kernel⟩
  unfold forkOpening
  exact timers_match_the_session forkScript hkeys Timing.usual none ⟨[], 0⟩ 40 _

end VisualNovel.Playback
