import Mathlib.Algebra.Order.BigOperators.Group.List
import VisualNovel.Proofs.Playback.Delays
import VisualNovel.Proofs.Timer.Splits

/-!
Stretches of time. As long as listeners leave the clock alone, a house comes out the same of a
stretch of time into however many waits it is cut: the same session, the same frames delivered in
the same order, the same timers waiting.
-/
namespace VisualNovel.Playback

open Relation

variable {τ ν : Type}

def Call.Still (call : Call τ) : Prop :=
  (∀ seconds, call ≠ .wait seconds) ∧ ∀ limit, call ≠ .idle limit

instance : Timer.LawfulAgenda (House τ ν) where
  agenda_withAgenda _ _ := rfl
  withAgenda_withAgenda _ _ _ := rfl

/-- The clock stands still, if no listener moves it, and none comes to. -/
def House.Stays (h h' : House τ ν) : Prop :=
  h.Within Call.Still → h'.Within Call.Still ∧ h'.engine.agenda.now = h.engine.agenda.now

namespace House.Stays

variable {h h' h'' : House τ ν}

theorem refl (h : House τ ν) : h.Stays h := fun hw => ⟨hw, rfl⟩

theorem trans (hfirst : h.Stays h') (hsecond : h'.Stays h'') : h.Stays h'' := by
  intro hw
  obtain ⟨hw', hnow⟩ := hfirst hw
  obtain ⟨hw'', hnow'⟩ := hsecond hw'
  exact ⟨hw'', hnow'.trans hnow⟩

theorem of_same (hlisteners : h'.listeners = h.listeners)
    (hnow : h'.engine.agenda.now = h.engine.agenda.now) : h.Stays h' := by
  intro hw
  refine ⟨?_, hnow⟩
  unfold House.Within
  rw [hlisteners]
  exact hw

end House.Stays

theorem replying_count_iff {r : Except (Timer.Halt CallError) Nat × House τ ν} {count : Nat}
    {h' : House τ ν} : replying .count r = (.ok (.count count), h') ↔ r = (.ok count, h') := by
  obtain ⟨halt | n, h⟩ := r <;> simp [replying, Except.map]

variable [Save.KeyValueStore ν]

section Moves
variable [Zero τ] [Add τ] [Mul τ] [NatCast τ] [LT τ] [DecidableLT τ]

theorem Engine.outcome_now {e : Engine τ ν} {call : Call τ} {c : Change τ ν}
    (h : e.outcome call = some (.ok c)) : c.engine.agenda.now = e.agenda.now := by
  obtain hturn | ⟨id, node, -, rfl, -⟩ := Engine.outcome_cases h
  · exact hturn.sameTime.now
  · have hcleared : e.SameTime e.cancelTimers := Engine.SameTime.cancelTimers ⟨rfl, rfl⟩
    exact ((hcleared.withSession _).enter node).now

theorem House.stays_carried :
    House.Carried Call.Still (House.Stays : House τ ν → House τ ν → Prop) where
  refl := .refl
  trans := .trans
  assume hstays hw := hstays hw hw
  request _ hgranted := .of_same rfl (Engine.outcome_now hgranted)
  save {h} {slot} {room} _ := by
    obtain ⟨saves, hengine⟩ := h.save_engine room slot
    exact .of_same (h.save_listeners room slot) (congrArg (·.agenda.now) hengine)
  stored {h} {text} {room} _ := by
    obtain ⟨saves, hengine⟩ := h.setStoredText_engine room text
    exact .of_same (h.setStoredText_listeners room text) (congrArg (·.agenda.now) hengine)
  told _ _ _ := .of_same rfl rfl
  spent _ _ _ := .of_same rfl rfl
  subscribed _ name awaits _ hreaction uses hw :=
    ⟨hw.subscribe name awaits hreaction uses, rfl⟩
  unsubscribed _ id hw := ⟨hw.removeListener id, rfl⟩

variable [LE τ] [DecidableLE τ]

theorem perform_stays (fuel : Nat) :
    Relates Call.Still House.Stays (perform fuel : Call τ → HouseAction τ ν (Reply τ)) := by
  refine perform_relates House.stays_carried ?_ ?_ fuel
  · exact fun _ _ seconds hstill => absurd rfl (hstill.1 seconds)
  · exact fun _ _ limit hstill => absurd rfl (hstill.2 limit)

theorem fireAlarm_stays (fuel : Nat) (alarm : Alarm) (h : House τ ν) :
    h.Stays (fireAlarm (perform fuel) alarm h).2 :=
  publish_relates House.stays_carried (perform_stays fuel)
    (.of_same rfl (Engine.fire_sameTime h.engine alarm).now)

/-- A call comes to an end with some fuel, and is answered. -/
def House.Ends (h : House τ ν) (call : Call τ) (reply : Reply τ) (h' : House τ ν) : Prop :=
  ∃ fuel, perform fuel call h = (.ok reply, h')

/-- With more fuel, for its steps and for what its timers do, a move ends in the same way. -/
theorem advance_more {h h' : House τ ν} {seconds : τ} {count fuel fuel' steps steps' : Nat}
    (hfuel : fuel ≤ fuel') (hsteps : steps ≤ steps')
    (hrun : Timer.advance (fireAlarm (perform fuel)) seconds steps h = (.ok count, h')) :
    Timer.advance (fireAlarm (perform fuel')) seconds steps' h = (.ok count, h') := by
  have hperform : ∀ call,
      (perform fuel call : HouseAction τ ν (Reply τ)).Extends (perform fuel' call) :=
    perform_extends hfuel
  have hextends := Timer.advance_extends (fireAlarm_extends hperform) seconds hsteps h
  rw [hextends (by rw [hrun]; simp), hrun]

theorem House.ends_wait_iff {h h' : House τ ν} {seconds : τ} {count : Nat} :
    h.Ends (.wait seconds) (.count count) h' ↔
      ∃ fuel fired, Timer.Goes (fireAlarm (perform fuel)) seconds h fired count h' := by
  have hperform (fuel : Nat) : perform (fuel + 1) (.wait seconds) h =
      replying .count (Timer.advance (fireAlarm (perform fuel)) seconds fuel h) := rfl
  constructor
  · rintro ⟨fuel | fuel, hwait⟩
    · cases hwait
    · rw [hperform] at hwait
      exact ⟨fuel, _, fuel, replying_count_iff.mp hwait, rfl⟩
  · rintro ⟨fuel, fired, steps, hrun, -⟩
    refine ⟨max fuel steps + 1, ?_⟩
    rw [hperform]
    exact replying_count_iff.mpr
      (advance_more (le_max_left fuel steps) (le_max_right fuel steps) hrun)

end Moves

section Stretches
variable [AddMonoid τ] [LinearOrder τ] [Mul τ] [NatCast τ]

theorem fireAlarm_standing (fuel : Nat) :
    Timer.Standing (fireAlarm (perform fuel) : Alarm → HouseAction τ ν Unit)
      (House.Within Call.Still) where
  now_eq alarm h hw := (fireAlarm_stays fuel alarm h hw).2
  kept alarm h hw := (fireAlarm_stays fuel alarm h hw).1
  clock _ _ hw := hw

theorem House.Ends.within {h h' : House τ ν} {seconds : τ} {count : Nat}
    (h₁ : h.Ends (.wait seconds) (.count count) h') (hw : h.Within Call.Still) :
    h'.Within Call.Still := by
  obtain ⟨fuel, fired, hgoes⟩ := House.ends_wait_iff.mp h₁
  exact ((Timer.goes_iff.mp hgoes).1.ends (fireAlarm_standing fuel) hw).1

variable [AddLeftMono τ]

theorem House.ends_wait_add_iff {h h' : House τ ν} (hw : h.Within Call.Still) {a b : τ}
    (ha : 0 ≤ a) (hb : 0 ≤ b) {count : Nat} :
    h.Ends (.wait (a + b)) (.count count) h' ↔
      ∃ m h₁ n, h.Ends (.wait a) (.count m) h₁ ∧ h₁.Ends (.wait b) (.count n) h' ∧
        count = m + n := by
  simp only [ends_wait_iff]
  constructor
  · rintro ⟨fuel, fired, hgoes⟩
    obtain ⟨fired₁, m, h₁, fired₂, n, hfirst, hrest, -, rfl⟩ :=
      (Timer.goes_add_iff (fireAlarm_standing fuel) hw ha hb).mp hgoes
    exact ⟨m, h₁, n, ⟨fuel, fired₁, hfirst⟩, ⟨fuel, fired₂, hrest⟩, rfl⟩
  · rintro ⟨m, h₁, n, ⟨fuel, fired₁, steps₁, hfirst, -⟩, ⟨fuel', fired₂, steps₂, hrest, -⟩, rfl⟩
    have hfirst' := advance_more (le_max_left fuel fuel') (le_refl steps₁) hfirst
    have hrest' := advance_more (le_max_right fuel fuel') (le_refl steps₂) hrest
    exact ⟨max fuel fuel', _, (Timer.goes_add_iff (fireAlarm_standing _) hw ha hb).mpr
      ⟨_, m, h₁, _, n, ⟨steps₁, hfirst', rfl⟩, ⟨steps₂, hrest', rfl⟩, rfl, rfl⟩⟩

/-- Waits one after the other, with the number of timers that ran in all. -/
inductive House.Passes : House τ ν → List τ → Nat → House τ ν → Prop
  | nil (h : House τ ν) : House.Passes h [] 0 h
  | cons {h h₁ h' : House τ ν} {seconds : τ} {rest : List τ} {m n : Nat}
      (hwait : h.Ends (.wait seconds) (.count m) h₁) (hrest : House.Passes h₁ rest n h') :
      House.Passes h (seconds :: rest) (m + n) h'

/-- Waits one after the other come out as one wait for the whole time. -/
theorem House.passes_iff {h h' : House τ ν} (hw : h.Within Call.Still) {seconds : τ}
    {rest : List τ} (hspans : ∀ span ∈ seconds :: rest, 0 ≤ span) {count : Nat} :
    h.Passes (seconds :: rest) count h' ↔
      h.Ends (.wait (seconds :: rest).sum) (.count count) h' := by
  induction rest generalizing h seconds count with
  | nil =>
    rw [List.sum_singleton]
    constructor
    · rintro (_ | ⟨hwait, ⟨⟩⟩)
      exact hwait
    · intro hwait
      exact .cons hwait (.nil h')
  | cons next rest ih =>
    have hfirst : 0 ≤ seconds := hspans seconds (List.mem_cons_self ..)
    have hrest : ∀ span ∈ next :: rest, 0 ≤ span :=
      fun span hspan => hspans span (List.mem_cons_of_mem _ hspan)
    rw [List.sum_cons, ends_wait_add_iff hw hfirst (List.sum_nonneg hrest)]
    constructor
    · rintro (_ | ⟨hwait, hpasses⟩)
      exact ⟨_, _, _, hwait, (ih (hwait.within hw) hrest).mp hpasses, rfl⟩
    · rintro ⟨m, h₁, n, hwait, hpasses, rfl⟩
      exact .cons hwait ((ih (hwait.within hw) hrest).mpr hpasses)

/-- Time passes the same however it is cut. While tasks leave the clock alone, a move by two
amounts of time goes as one by the first and then one by the second: the same timers fire in the
same order at the same readings, as many are counted, and all is the same at the end. So, while
listeners leave the clock alone, a house comes out the same of any waits that make up the same
time. -/
theorem time_passes_the_same_however_it_is_cut :
    (∀ {ε σ α : Type} [Timer.HasAgenda σ τ α] [Timer.LawfulAgenda σ]
      (fire : α → Timer.Action ε σ Unit),
      (∀ task s, ReflTransGen Timer.Tends s (fire task s).2) →
      ∀ (a b : τ), 0 ≤ a → 0 ≤ b → ∀ (s s' : σ) (fired : List (Timer.Entry τ α × τ)) (count : Nat),
        Timer.Goes fire (a + b) s fired count s' ↔
          ∃ fired₁ m s₁ fired₂ n, Timer.Goes fire a s fired₁ m s₁ ∧
            Timer.Goes fire b s₁ fired₂ n s' ∧ fired = fired₁ ++ fired₂ ∧ count = m + n) ∧
      ∀ (h h' : House τ ν) (spans spans' : List τ) (count : Nat), h.Within Call.Still →
        spans ≠ [] → spans' ≠ [] → (∀ span ∈ spans ++ spans', 0 ≤ span) →
        spans.sum = spans'.sum → (h.Passes spans count h' ↔ h.Passes spans' count h') := by
  refine ⟨fun fire hfire a b ha hb s s' fired count =>
    Timer.goes_add_iff (Timer.standing_of_tends hfire) trivial ha hb, ?_⟩
  intro h h' spans spans' count hw hspans hspans' hnonneg hsum
  obtain ⟨first, rest, rfl⟩ := List.exists_cons_of_ne_nil hspans
  obtain ⟨first', rest', rfl⟩ := List.exists_cons_of_ne_nil hspans'
  rw [House.passes_iff hw fun span hspan => hnonneg span (List.mem_append_left _ hspan),
    House.passes_iff hw fun span hspan => hnonneg span (List.mem_append_right _ hspan), hsum]

end Stretches

/-- Tasks that schedule another one and cancel it. -/
def flicker : Bool → Timer.Action String (Timer.Agenda Nat Bool) Unit
  | true => fun a => (.ok (), (a.callLater 1 false).2)
  | false => fun a => (.ok (), a.cancel 0)

theorem flicker_tends (task : Bool) (a : Timer.Agenda Nat Bool) :
    ReflTransGen Timer.Tends a (flicker task a).2 := by
  cases task with
  | true => exact .single (.callLater a 1 false)
  | false => exact .single (.cancel a 0)

/-- The story with its first line being shown. -/
def forkPlaying : House Nat Save.MemoryStore := forkOpening.play 9 [.newGame]

theorem time_passes_the_same_however_it_is_cut_in_a_story :
    (∀ task a, ReflTransGen Timer.Tends a (flicker task a).2) ∧
      (Timer.Goes flicker (1 + 2) (Timer.Agenda.starting.callLater 2 true).2
          [(⟨2, 0, true⟩, 2), (⟨3, 1, false⟩, 3)] 2 ⟨3, [], 2, true⟩ ↔
        ∃ fired₁ m s₁ fired₂ n,
          Timer.Goes flicker 1 (Timer.Agenda.starting.callLater 2 true).2 fired₁ m s₁ ∧
            Timer.Goes flicker 2 s₁ fired₂ n ⟨3, [], 2, true⟩ ∧
              [(⟨2, 0, true⟩, 2), (⟨3, 1, false⟩, 3)] = fired₁ ++ fired₂ ∧ 2 = m + n) ∧
      forkPlaying.Within Call.Still ∧
      ∃ h', forkPlaying.Passes [60] 2 h' ∧ forkPlaying.Passes [25, 35] 2 h' := by
  obtain ⟨hscheduler, hengine⟩ :=
    @time_passes_the_same_however_it_is_cut Nat Save.MemoryStore _ _ _ _ _ _
  have hwithin : forkPlaying.Within Call.Still := by
    intro listener hmem
    have hnone : forkPlaying.listeners = [] := by decide +kernel
    rw [hnone] at hmem
    cases hmem
  have hwait : (perform 9 (.wait 60) forkPlaying).1 = .ok (.count 2) := by rfl
  have hpasses : forkPlaying.Passes [60] 2 (perform 9 (.wait 60) forkPlaying).2 :=
    .cons ⟨9, Prod.ext hwait rfl⟩ (.nil _)
  refine ⟨flicker_tends, hscheduler flicker flicker_tends 1 2 (Nat.zero_le 1) (Nat.zero_le 2)
    _ _ _ _, hwithin, _, hpasses, ?_⟩
  exact (hengine forkPlaying _ [60] [25, 35] 2 hwithin (by decide) (by decide) (by decide)
    (by decide)).mp hpasses

end VisualNovel.Playback
