import Mathlib.Algebra.Order.Field.Basic
import Mathlib.Algebra.Order.Floor.Semiring
import Mathlib.Data.Prod.Lex
import Mathlib.Order.Lattice.Nat
import Mathlib.Tactic.Linarith
import VisualNovel.Proofs.Playback.Delays
import VisualNovel.Proofs.Timer.Rest

/-!
Why playback comes to rest. A text takes time to appear, and a node without one is passed as soon as
automatic pacing goes on. So the timers that run up to a deadline are counted by the time that is
left, and at any one moment by the blank nodes that still follow.
-/
namespace VisualNovel

/-- There is nothing to read, to choose or to skip. -/
def Node.isBlank (node : Node) : Bool := node.text.isEmpty && !node.isDecision && !node.hasVideo

namespace Script

/-- The node that a node without choices and video leads on to. -/
def following? (s : Script) (node : Node) : Option Node :=
  match node.next with
  | some id => if id = endTarget then none else s.get? id
  | none => none

/-- As many blank nodes follow one another, from a node on, and lead on to yet another node. -/
def blankFor (s : Script) : Nat → Node → Bool
  | 0, _ => true
  | count + 1, node => node.isBlank && (s.following? node).any (s.blankFor count)

/-- From a node on, blank nodes follow one another without end. -/
def EndlesslyBlank (s : Script) (node : Node) : Prop := ∀ count, s.blankFor count node = true

theorem exists_get?_of_following {s : Script} {node target : Node}
    (h : s.following? node = some target) : ∃ id, s.get? id = some target := by
  unfold following? at h
  split at h
  · next id hnext =>
    split at h
    · cases h
    · exact ⟨id, h⟩
  · cases h

theorem blankFor_succ_iff {s : Script} {count : Nat} {node : Node} :
    s.blankFor (count + 1) node = true ↔ node.isBlank = true ∧
      ∃ target, s.following? node = some target ∧ s.blankFor count target = true := by
  rw [blankFor, Bool.and_eq_true, Option.any_eq_true]

theorem EndlesslyBlank.isBlank {s : Script} {node : Node} (h : s.EndlesslyBlank node) :
    node.isBlank = true := (blankFor_succ_iff.mp (h 1)).1

/-- A blank node without end leads on to another one. -/
theorem EndlesslyBlank.exists_following {s : Script} {node : Node} (h : s.EndlesslyBlank node) :
    ∃ target, s.following? node = some target ∧ s.EndlesslyBlank target := by
  obtain ⟨-, target, htarget, -⟩ := blankFor_succ_iff.mp (h 1)
  refine ⟨target, htarget, fun count => ?_⟩
  obtain ⟨-, other, hother, hblank⟩ := blankFor_succ_iff.mp (h (count + 1))
  rw [htarget, Option.some.injEq] at hother
  exact hother ▸ hblank

theorem endlesslyBlank_of_self {s : Script} {node : Node} (hblank : node.isBlank = true)
    (hself : s.following? node = some node) : s.EndlesslyBlank node := by
  intro count
  induction count with
  | zero => rfl
  | succ count ih => exact blankFor_succ_iff.mpr ⟨hblank, node, hself, ih⟩

/-- How many blank nodes follow one another from a node on, if there is an end to them. -/
noncomputable def blanks (s : Script) (node : Node) : Nat :=
  sInf {count | s.blankFor count node = false}

/-- How many blank nodes still follow after a node. -/
noncomputable def blanksAfter (s : Script) (node : Node) : Nat :=
  ((s.following? node).map s.blanks).getD 0

theorem blanks_le {s : Script} {count : Nat} {node : Node} (h : s.blankFor count node = false) :
    s.blanks node ≤ count := Nat.sInf_le h

/-- Past a blank node there is one blank node less to come. -/
theorem blanksAfter_lt {s : Script} {node target : Node} (hnext : s.following? node = some target)
    (hblank : target.isBlank = true) (hends : ¬ s.EndlesslyBlank target) :
    s.blanksAfter target < s.blanksAfter node := by
  have hsome : ∃ count, s.blankFor count target = false := by
    simpa [EndlesslyBlank] using hends
  have hfirst : s.blankFor (s.blanks target) target = false := Nat.sInf_mem hsome
  have hnode : s.blanksAfter node = s.blanks target := by
    rw [blanksAfter, hnext, Option.map_some, Option.getD_some]
  rw [hnode]
  cases hcount : s.blanks target with
  | zero =>
    rw [hcount] at hfirst
    cases hfirst
  | succ count =>
    rw [Nat.lt_succ_iff, blanksAfter]
    cases hafter : s.following? target with
    | none => exact Nat.zero_le count
    | some other =>
      rw [hcount, blankFor, hblank, hafter] at hfirst
      exact blanks_le (by simpa using hfirst)

end Script

namespace Playback

open Timer

section Ticks
variable {τ : Type} [Field τ] [LinearOrder τ] [FloorSemiring τ]

/-- How many ticks there are from a due time to a deadline, if it is due by then. -/
def ticksLeft (tick deadline due : τ) : Nat :=
  if due ≤ deadline then ⌊(deadline - due) / tick⌋₊ + 1 else 0

variable {tick deadline due due' : τ}

theorem ticksLeft_pos (h : due ≤ deadline) : 0 < ticksLeft tick deadline due := by
  rw [ticksLeft, if_pos h]
  exact Nat.succ_pos _

variable [IsStrictOrderedRing τ]

theorem ticksLeft_le (htick : 0 < tick) (h : due ≤ due') :
    ticksLeft tick deadline due' ≤ ticksLeft tick deadline due := by
  unfold ticksLeft
  split
  · next hdue' =>
    rw [if_pos (h.trans hdue')]
    gcongr
  · exact Nat.zero_le _

/-- What is due a tick later leaves a tick less. -/
theorem ticksLeft_lt (htick : 0 < tick) (hdue : due ≤ deadline) (h : due + tick ≤ due') :
    ticksLeft tick deadline due' < ticksLeft tick deadline due := by
  by_cases hdue' : due' ≤ deadline
  · have hless : (deadline - due') / tick + 1 ≤ (deadline - due) / tick := by
      rw [div_add_one htick.ne', div_le_div_iff_of_pos_right htick]
      linarith
    have hnonneg : 0 ≤ (deadline - due') / tick :=
      div_nonneg (sub_nonneg.mpr hdue') htick.le
    rw [ticksLeft, ticksLeft, if_pos hdue', if_pos hdue, Nat.add_lt_add_iff_right,
      ← Nat.succ_le_iff, Nat.succ_eq_add_one, ← Nat.floor_add_one hnonneg]
    exact Nat.floor_le_floor hless
  · rw [ticksLeft, if_neg hdue']
    exact ticksLeft_pos hdue

end Ticks

/-- What keeps play from running on for ever at one moment: a character takes at least a tick to
appear, and so does going on, unless blank nodes always come to an end. -/
structure Timing.Paced {τ : Type} [LE τ] (timing : Timing τ) (tick : τ) (s : Script) : Prop where
  reveal : tick ≤ timing.revealInterval
  fastReveal : tick ≤ timing.fastRevealInterval
  goingOn : (tick ≤ timing.fastForwardDelay ∧ tick ≤ timing.autoMinDelay ∧
      tick ≤ timing.autoMaxDelay) ∨
    ∀ id node, s.get? id = some node → ¬ s.EndlesslyBlank node

section Ready
variable {τ ν : Type}

/-- What every engine keeps to that has been started on a script in which nodes stand under their
own identifiers. -/
structure Engine.Ready (e : Engine τ ν) : Prop where
  keys : e.script.KeysAreIds
  sound : e.session.Sound e.script
  armed : e.Armed

variable [Zero τ]

theorem Engine.ready_opening {script : Script} (hkeys : script.KeysAreIds) (timing : Timing τ)
    (saves : Option (Save.Repository ν)) : (opening script timing saves).Ready where
  keys := hkeys
  sound := Session.sound_initial script
  armed := opening_sets script timing saves

variable [Save.KeyValueStore ν]
variable [Add τ] [Mul τ] [NatCast τ] [LT τ] [DecidableLT τ]

theorem Engine.Ready.steps {permitted : Call τ → Prop} {e e' : Engine τ ν} (h : e.Ready)
    (hsteps : Steps permitted e e') : e'.Ready where
  keys := Steps.script hsteps ▸ h.keys
  sound := Steps.sound hsteps h.keys h.sound
  armed := Steps.armed hsteps h.keys h.sound h.armed

end Ready

/-- Of what may happen at one moment, the last comes first: a text appears before play goes on, and
play goes on before it ends. -/
def AlarmKind.weight : AlarmKind → Nat
  | .revealTick => 2
  | .pacingFire => 1
  | .titleReturn => 0

namespace Engine

section Stage
variable {τ ν : Type}

/-- How much can still happen at one moment: what the present node waits for, and the blank nodes
after it. -/
noncomputable def stage (e : Engine τ ν) : Nat :=
  (e.awaited.map (·.weight)).getD 0 + (e.currentNode.map e.script.blanksAfter).getD 0

theorem Holds.nextDue?_eq {e : Engine τ ν} {waiting : Option (Timer.Entry τ Alarm)}
    (h : e.Holds waiting) : e.agenda.nextDue? = waiting.map (·.due) := by
  rw [Timer.Agenda.nextDue?, h.queue]
  cases waiting <;> rfl

theorem stage_eq {e : Engine τ ν} {kind : AlarmKind} {node : Node}
    (hawaited : e.awaited = some kind) (hcurrent : e.currentNode = some node) :
    e.stage = kind.weight + e.script.blanksAfter node := by
  rw [stage, hawaited, hcurrent]
  rfl

end Stage

section Turns
variable {τ ν : Type} {tick : τ} {e : Engine τ ν}
variable [Mul τ] [NatCast τ] [LinearOrder τ]

theorem tick_le_delayFor_revealTick (h : e.timing.Paced tick e.script) :
    tick ≤ e.delayFor .revealTick := by
  unfold delayFor Timing.revealIntervalFor
  dsimp only
  split
  · exact h.fastReveal
  · exact h.reveal

theorem tick_le_delayFor_pacingFire (hforward : tick ≤ e.timing.fastForwardDelay)
    (hmin : tick ≤ e.timing.autoMinDelay) (hmax : tick ≤ e.timing.autoMaxDelay) :
    tick ≤ e.delayFor .pacingFire := by
  unfold delayFor
  dsimp only
  split
  · exact hforward
  · exact (le_min hmin hmax).trans (e.timing.min_le_autoDelay _)

variable [Zero τ] [Add τ]

/-- The text has come one character further, and the node is still the same. -/
theorem revealTick_lowers {kind : AlarmKind} (hawaited : e.awaited = some .revealTick)
    (hnext : e.revealTick.engine.awaited = some kind) (hkind : kind ≠ .revealTick) :
    e.revealTick.engine.stage < e.stage := by
  cases hcurrent : e.currentNode with
  | none => simp [awaited, hcurrent] at hawaited
  | some node =>
    have hscript : e.revealTick.engine.script = e.script := by
      rw [revealTick_of_some hcurrent]
      split <;> simp [announced]
    have hsame : e.revealTick.engine.currentNode = some node := by
      rw [← hcurrent]
      refine currentNode_congr hscript ?_ ?_ <;> rw [revealTick_session hcurrent]
    rw [stage_eq hnext hsame, stage_eq hawaited hcurrent, hscript, Nat.add_lt_add_iff_right]
    cases kind with
    | revealTick => exact absurd rfl hkind
    | pacingFire => exact Nat.lt_succ_self 1
    | titleReturn => exact Nat.succ_pos 1

theorem currentNode_navigate {target : Node} (hview : e.session.view = .playing)
    (hfound : e.script.get? target.id = some target) :
    (e.navigate target).engine.currentNode = some target := by
  refine (currentNode_eq_some_iff _ _).mpr ?_
  rw [navigate_session, navigate_script]
  exact ⟨hview, target.id, rfl, hfound⟩

/-- Automatic pacing goes on at once only from a blank node. -/
theorem isBlank_of_navigate {target : Node}
    (hentered : (e.navigate target).engine.currentNode = some target)
    (hawaited : (e.navigate target).engine.awaited = some .pacingFire) : target.isBlank = true := by
  obtain ⟨node, hcurrent, hrevealed, -, hvideo, hchoices⟩ := eq_of_awaited_pacingFire hawaited
  cases hentered.symm.trans hcurrent
  have hempty : target.text.isEmpty = true := by
    rw [navigate_session] at hrevealed
    by_contra htext
    simp [htext] at hrevealed
  simp [Node.isBlank, Node.isDecision, hempty, hchoices, hvideo]

/-- Play has gone on: to its end, to a text that takes time to appear, or past a blank node. -/
theorem advance_lowers {kind : AlarmKind} (hkeys : e.script.KeysAreIds)
    (hsound : e.session.Sound e.script) (hpaced : e.timing.Paced tick e.script)
    (hawaited : e.awaited = some .pacingFire)
    (hnext : e.advance.engine.awaited = some kind) (hkind : kind ≠ .revealTick) :
    tick ≤ e.advance.engine.delayFor kind ∨ e.advance.engine.stage < e.stage := by
  obtain ⟨node, hcurrent, hrevealed, hending, hvideo, hchoices⟩ := eq_of_awaited_pacingFire hawaited
  obtain ⟨hview, -⟩ := at_of_currentNode hsound hcurrent
  rw [advance_of_plain hcurrent hending hvideo hchoices hrevealed] at hnext ⊢
  cases hfollowing : e.successor node with
  | none =>
    rw [hfollowing] at hnext
    have hclosed : e.beginEnding.engine.currentNode = some node := hcurrent
    have htitle : e.beginEnding.engine.awaited = some .titleReturn := by
      simp [awaited, hclosed, beginEnding_session, hrevealed]
    have hscript : e.beginEnding.engine.script = e.script := beginEnding_script e
    refine Or.inr ?_
    rw [stage_eq htitle hclosed, stage_eq hawaited hcurrent, hscript, Nat.add_lt_add_iff_right]
    exact Nat.one_pos
  | some target =>
    rw [hfollowing] at hnext
    obtain ⟨id, htarget⟩ := Script.exists_get?_of_following hfollowing
    have hentered := currentNode_navigate hview (hkeys.get?_id htarget)
    have hopen : (e.navigate target).engine.session.ending = false := by rw [navigate_session]
    have hfire : kind = .pacingFire := by
      cases kind with
      | revealTick => exact absurd rfl hkind
      | pacingFire => rfl
      | titleReturn => cases hopen.symm.trans (ending_of_awaited hnext)
    subst hfire
    -- Without a delay no time separates two blank nodes, and only their number is left to fall.
    rcases hpaced.goingOn with ⟨hforward, hmin, hmax⟩ | hends
    · have hsame : e.SameTime e := ⟨rfl, rfl⟩
      have htiming : (e.navigate target).engine.timing = e.timing :=
        ((hsame.withSession _).enter target).timing
      refine Or.inl (tick_le_delayFor_pacingFire ?_ ?_ ?_) <;> rwa [htiming]
    · have hblank : target.isBlank = true := isBlank_of_navigate hentered hnext
      refine Or.inr ?_
      rw [stage_eq hnext hentered, stage_eq hawaited hcurrent, navigate_script,
        Nat.add_lt_add_iff_left]
      exact Script.blanksAfter_lt hfollowing hblank (hends id target htarget)

end Turns

section Rank
variable {τ ν : Type} [Field τ] [LinearOrder τ] {tick deadline : τ} {e : Engine τ ν}

/-- A timer that runs leaves either a tick's delay or an earlier stage behind. -/
theorem Popped.fire_lowers {t : Timer.Entry τ Alarm} (h : e.Popped t)
    (hkeys : e.script.KeysAreIds) (hsound : e.session.Sound e.script)
    (hpaced : e.timing.Paced tick e.script) (hawaited : e.awaited = some t.task.kind)
    {kind : AlarmKind} (hnext : (e.fire t.task).engine.awaited = some kind) :
    tick ≤ (e.fire t.task).engine.delayFor kind ∨ (e.fire t.task).engine.stage < e.stage := by
  have hpaced' : (e.fire t.task).engine.timing.Paced tick (e.fire t.task).engine.script := by
    rw [(fire_sameTime e t.task).timing, fire_script]
    exact hpaced
  by_cases hreveal : kind = .revealTick
  · exact Or.inl (hreveal ▸ tick_le_delayFor_revealTick hpaced')
  · cases hkind : t.task.kind with
    | revealTick =>
      rw [h.fire_eq, hkind] at hnext ⊢
      exact Or.inr (revealTick_lowers (hkind ▸ hawaited) hnext hreveal)
    | titleReturn =>
      rw [h.fire_eq, hkind] at hnext
      cases hnext
    | pacingFire =>
      rw [h.fire_eq, hkind] at hnext ⊢
      exact advance_lowers (e := { e with pacingTimer := none }) hkeys hsound hpaced
        (hkind ▸ hawaited) hnext hreveal

variable [FloorSemiring τ]

/-- The ticks that are left for the next timer, and the stage at which it stands. -/
noncomputable def rank (tick deadline : τ) (e : Engine τ ν) : ℕ ×ₗ ℕ :=
  toLex ((e.agenda.nextDue?.map (ticksLeft tick deadline)).getD 0, e.stage)

variable [IsStrictOrderedRing τ]

/-- The rank falls when what is due next is due a tick later, or is due at an earlier stage. -/
theorem rank_lt_of_later {e' : Engine τ ν} {due : τ} (htick : 0 < tick)
    (hfirst : e.agenda.nextDue? = some due) (hin : due ≤ deadline)
    (hlater : ∀ due', e'.agenda.nextDue? = some due' →
      due + tick ≤ due' ∨ due ≤ due' ∧ e'.stage < e.stage) :
    e'.rank tick deadline < e.rank tick deadline := by
  rw [rank, rank, Prod.Lex.toLex_lt_toLex, hfirst]
  cases hnext : e'.agenda.nextDue? with
  | none => exact Or.inl (ticksLeft_pos hin)
  | some due' =>
    rcases hlater due' hnext with hdelay | ⟨hdue, hstage⟩
    · exact Or.inl (ticksLeft_lt htick hin hdelay)
    · have hle : ticksLeft tick deadline due' ≤ ticksLeft tick deadline due :=
        ticksLeft_le htick hdue
      rcases hle.lt_or_eq with hless | hsame
      · exact Or.inl hless
      · exact Or.inr ⟨hsame, hstage⟩

/-- Every timer that runs by the deadline lowers the rank. -/
theorem Ready.fire_rank_lt {t : Timer.Entry τ Alarm} {rest : Timer.Agenda τ Alarm}
    (h : e.Ready) (htick : 0 < tick) (hpaced : e.timing.Paced tick e.script)
    (hdue : e.agenda.pop? deadline = some (t, rest)) :
    (({ e with agenda := rest } : Engine τ ν).fire t.task).engine.rank tick deadline <
      e.rank tick deadline := by
  obtain ⟨hawaited, hpopped⟩ := Sets.pop h.armed hdue
  obtain ⟨queue, hqueue, hin, rfl⟩ := Timer.Agenda.pop?_eq_some hdue
  obtain ⟨waiting, hholds, hnext⟩ := hpopped.fire_armed hawaited h.keys h.sound
  have hjust := hpopped.fire_justSet
  have hfirst : e.agenda.nextDue? = some t.due := by
    rw [Timer.Agenda.nextDue?, hqueue]
    rfl
  refine rank_lt_of_later htick hfirst (not_lt.mp hin) fun due' hdue' => ?_
  rw [hholds.nextDue?_eq, Option.map_eq_some_iff] at hdue'
  obtain ⟨t', rfl, rfl⟩ := hdue'
  have hnow : t.due ≤ Timer.later e.agenda.now t.due := by
    rw [Timer.later_eq_max]
    exact le_max_right _ _
  rw [hjust t' (by simp [hholds.queue]), (fire_sameTime _ t.task).now]
  rcases hpopped.fire_lowers h.keys h.sound hpaced hawaited hnext.symm with hdelay | hstage
  · refine Or.inl ?_
    rw [Timer.later_eq_right (htick.le.trans hdelay)]
    exact add_le_add hnow hdelay
  · exact Or.inr ⟨hnow.trans (le_add_of_nonneg_right (Timer.later_nonneg _)), hstage⟩

end Rank

end Engine

end Playback

end VisualNovel
