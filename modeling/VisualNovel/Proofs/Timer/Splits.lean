import Mathlib.Algebra.Order.Monoid.Unbundled.Basic
import Mathlib.Logic.Relation
import VisualNovel.Proofs.Timer.Clock
import VisualNovel.Proofs.Timer.Queue

/-!
Moving the clock in parts. When a move stops short of a later end, the timers that it leaves are
those that the rest of the way finds, at the same due times; so, as long as tasks leave the clock
alone, one move goes the same way as two that add up to it.
-/
namespace VisualNovel.Timer

variable {ε σ τ α : Type}

/-- The agenda is a part of the state that can be read and replaced by itself. -/
class LawfulAgenda (σ : Type) {τ α : outParam Type} [HasAgenda σ τ α] : Prop where
  agenda_withAgenda (s : σ) (a : Agenda τ α) : agenda (withAgenda s a) = a
  withAgenda_withAgenda (s : σ) (a b : Agenda τ α) :
    withAgenda (withAgenda s a) b = withAgenda s b

instance : LawfulAgenda (Agenda τ α) where
  agenda_withAgenda _ _ := rfl
  withAgenda_withAgenda _ _ _ := rfl

variable [HasAgenda σ τ α]

section Firings
variable [LT τ] [DecidableLT τ]

/-- The timers that fire while the clock moves, with its readings. -/
def firings (fire : α → Action ε σ Unit) (target : τ) : Nat → σ → List (Entry τ α × τ)
  | 0, _ => []
  | fuel + 1, s =>
      match (agenda s).pop? target with
      | none => []
      | some (t, rest) =>
          (t, rest.now) ::
            match fire t.task (withAgenda s rest) with
            | (.ok (), s) => firings fire target fuel s
            | (.error _, _) => []

/-- A move of the clock by an amount of time comes to an end: the timers that fire, how many are
counted, and the state at the end. -/
def Goes [Add τ] (fire : α → Action ε σ Unit) (seconds : τ) (s : σ)
    (fired : List (Entry τ α × τ)) (count : Nat) (s' : σ) : Prop :=
  ∃ fuel, advance fire seconds fuel s = (.ok count, s') ∧
    firings fire ((agenda s).now + seconds) fuel s = fired

/-- The way of a move that comes to an end. -/
inductive Runs (fire : α → Action ε σ Unit) (target : τ) : σ → List (Entry τ α × τ) → σ → Prop
  | quiet {s : σ} (hpop : (agenda s).pop? target = none) :
      Runs fire target s [] (withAgenda s { agenda s with now := target })
  | due {s s₁ s' : σ} {t : Entry τ α} {rest : Agenda τ α} {fired : List (Entry τ α × τ)}
      (hpop : (agenda s).pop? target = some (t, rest))
      (htask : fire t.task (withAgenda s rest) = (.ok (), s₁))
      (hruns : Runs fire target s₁ fired s') : Runs fire target s ((t, rest.now) :: fired) s'

variable {fire : α → Action ε σ Unit} {target : τ} {s s' : σ} {fired : List (Entry τ α × τ)}

/-- With enough fuel, a move goes its way to the end. -/
theorem Runs.exists_least (h : Runs fire target s fired s') :
    ∃ least, ∀ fuel, least ≤ fuel →
      (∀ ran, runUntil fire target fuel ran s = (.ok (ran + fired.length), s')) ∧
        firings fire target fuel s = fired := by
  induction h with
  | quiet hpop =>
    refine ⟨1, fun fuel hfuel => ?_⟩
    obtain ⟨fuel, rfl⟩ := Nat.exists_eq_add_of_le' hfuel
    exact ⟨fun ran => by rw [runUntil_of_quiet hpop]; rfl, by rw [firings, hpop]⟩
  | @due s s₁ s' t rest fired hpop htask _ ih =>
    obtain ⟨least, hleast⟩ := ih
    refine ⟨least + 1, fun fuel hfuel => ?_⟩
    obtain ⟨fuel, rfl⟩ := Nat.exists_eq_add_of_le' (Nat.le_of_add_left_le hfuel)
    obtain ⟨hrun, hfired⟩ := hleast fuel (Nat.le_of_add_le_add_right hfuel)
    refine ⟨fun ran => ?_, ?_⟩
    · rw [runUntil_of_due hpop, Action.seq_of_ok htask, hrun, List.length_cons]
      congr 2
      omega
    · simp only [firings, hpop, htask, hfired]

theorem Runs.exists_runUntil (h : Runs fire target s fired s') :
    ∃ fuel, (∀ ran, runUntil fire target fuel ran s = (.ok (ran + fired.length), s')) ∧
      firings fire target fuel s = fired := by
  obtain ⟨least, hleast⟩ := h.exists_least
  exact ⟨least, hleast least (Nat.le_refl least)⟩

theorem runs_of_runUntil {fuel ran count : Nat}
    (h : runUntil fire target fuel ran s = (.ok count, s')) :
    Runs fire target s (firings fire target fuel s) s' ∧
      count = ran + (firings fire target fuel s).length := by
  induction fuel generalizing ran s with
  | zero => cases h
  | succ fuel ih =>
    cases hpop : (agenda s).pop? target with
    | none =>
      rw [runUntil_of_quiet hpop] at h
      cases h
      rw [firings, hpop]
      exact ⟨.quiet hpop, rfl⟩
    | some popped =>
      obtain ⟨t, rest⟩ := popped
      rw [runUntil_of_due hpop] at h
      rcases htask : fire t.task (withAgenda s rest) with ⟨halt | _, s₁⟩
      · rw [Action.seq_of_error htask] at h
        cases h
      · rw [Action.seq_of_ok htask] at h
        obtain ⟨hruns, rfl⟩ := ih h
        simp only [firings, hpop, htask]
        refine ⟨.due hpop htask hruns, ?_⟩
        rw [List.length_cons]
        omega

theorem goes_iff [Add τ] {seconds : τ} {count : Nat} : Goes fire seconds s fired count s' ↔
    Runs fire ((agenda s).now + seconds) s fired s' ∧ count = fired.length := by
  constructor
  · rintro ⟨fuel, hrun, rfl⟩
    obtain ⟨hruns, hcount⟩ := runs_of_runUntil hrun
    exact ⟨hruns, hcount.trans (Nat.zero_add _)⟩
  · rintro ⟨hruns, rfl⟩
    obtain ⟨fuel, hrun, hfired⟩ := hruns.exists_runUntil
    exact ⟨fuel, (hrun 0).trans (by rw [Nat.zero_add]), hfired⟩

end Firings

section Order
variable [LinearOrder τ]

/-- Among states with a property, tasks leave the clock alone. -/
structure Standing (fire : α → Action ε σ Unit) (P : σ → Prop) : Prop where
  now_eq : ∀ task s, P s → (agenda (fire task s).2).now = (agenda s).now
  kept : ∀ task s, P s → P (fire task s).2
  clock : ∀ s a, P s → P (withAgenda s a)

variable {fire : α → Action ε σ Unit} {P : σ → Prop} {s s₁ s' : σ} {target target' : τ}
  {fired fired₁ fired₂ : List (Entry τ α × τ)}

/-- A move goes the same way from states that differ in the clock alone, if it finds the same timer
first. -/
theorem Runs.of_start {s₀ : σ} (hwith : ∀ a, withAgenda s a = withAgenda s₀ a)
    (hclock : ({ agenda s with now := target } : Agenda τ α) = { agenda s₀ with now := target })
    (hpop : (agenda s).pop? target = (agenda s₀).pop? target)
    (h : Runs fire target s₀ fired s') : Runs fire target s fired s' := by
  cases h with
  | quiet hquiet =>
    rw [← hclock, ← hwith]
    exact .quiet (hpop.trans hquiet)
  | due hdue htask hruns =>
    rw [← hwith] at htask
    exact .due (hpop.trans hdue) htask hruns

variable [LawfulAgenda σ]

/-- What a task does that leaves the clock alone: it schedules timers, cancels them, and changes
what is not the agenda. -/
inductive Tends [Zero τ] [Add τ] : σ → σ → Prop
  | callLater (s : σ) (delay : τ) (task : α) :
      Tends s (withAgenda s ((agenda s).callLater delay task).2)
  | cancel (s : σ) (order : Nat) : Tends s (withAgenda s ((agenda s).cancel order))
  | other {s s' : σ} (hagenda : agenda s' = agenda s) : Tends s s'

theorem Tends.now_eq [Zero τ] [Add τ] {s s' : σ} (h : Tends s s') :
    (agenda s').now = (agenda s).now := by
  cases h with
  | callLater delay task =>
    rw [LawfulAgenda.agenda_withAgenda]
    rfl
  | cancel order =>
    rw [LawfulAgenda.agenda_withAgenda, Agenda.cancel]
    split <;> rfl
  | other hagenda => rw [hagenda]

theorem standing_of_tends [Zero τ] [Add τ] {fire : α → Action ε σ Unit}
    (hfire : ∀ task s, Relation.ReflTransGen Tends s (fire task s).2) :
    Standing fire fun _ => True where
  now_eq task s _ := by
    generalize (fire task s).2 = s', hfire task s = hpath
    induction hpath with
    | refl => rfl
    | tail _ hstep ih => exact hstep.now_eq.trans ih
  kept _ _ _ := trivial
  clock _ _ _ := trivial

/-- When nothing is due by some time, it makes no difference for later whether the clock has been
stopped there. -/
theorem Agenda.pop?_stopped {a : Agenda τ α} (hnow : a.now ≤ target)
    (hpop : a.pop? target = none) (later' : τ) :
    ({ a with now := target } : Agenda τ α).pop? later' = a.pop? later' := by
  unfold pop?
  cases hqueue : a.queue with
  | nil => rfl
  | cons t rest =>
    have hdue : target < t.due := Agenda.pop?_eq_none hpop t (by rw [hqueue]; rfl)
    dsimp only
    rw [later_eq_right hdue.le, later_eq_right (hnow.trans hdue.le)]

theorem Agenda.pop?_mono {a rest : Agenda τ α} {t : Entry τ α} (hle : target ≤ target')
    (hpop : a.pop? target = some (t, rest)) : a.pop? target' = some (t, rest) := by
  obtain ⟨queue, hqueue, hdue, rfl⟩ := Agenda.pop?_eq_some hpop
  unfold pop?
  rw [hqueue]
  dsimp only
  rw [if_neg (not_lt.mpr ((not_lt.mp hdue).trans hle))]

theorem Agenda.now_le_of_pop? {a rest : Agenda τ α} {t : Entry τ α} (hnow : a.now ≤ target)
    (hpop : a.pop? target = some (t, rest)) : rest.now ≤ target := by
  obtain ⟨queue, hqueue, hdue, rfl⟩ := Agenda.pop?_eq_some hpop
  show later a.now t.due ≤ target
  unfold later
  split
  · exact not_lt.mp hdue
  · exact hnow

theorem runs_stopped_iff (hnow : (agenda s).now ≤ target) (hpop : (agenda s).pop? target = none) :
    Runs fire target' (withAgenda s { agenda s with now := target }) fired s' ↔
      Runs fire target' s fired s' := by
  have hstopped := Agenda.pop?_stopped hnow hpop target'
  constructor
  · refine .of_start (fun a => ?_) ?_ ?_
    · rw [LawfulAgenda.withAgenda_withAgenda]
    · rw [LawfulAgenda.agenda_withAgenda]
    · rw [LawfulAgenda.agenda_withAgenda, hstopped]
  · refine .of_start (fun a => ?_) ?_ ?_
    · rw [LawfulAgenda.withAgenda_withAgenda]
    · rw [LawfulAgenda.agenda_withAgenda]
    · rw [LawfulAgenda.agenda_withAgenda, hstopped]

theorem Standing.after (hfire : Standing fire P) (hs : P s) (hnow : (agenda s).now ≤ target)
    {t : Entry τ α} {rest : Agenda τ α} (hpop : (agenda s).pop? target = some (t, rest))
    (htask : fire t.task (withAgenda s rest) = (.ok (), s₁)) :
    P s₁ ∧ (agenda s₁).now ≤ target := by
  have hkept := hfire.kept t.task _ (hfire.clock s rest hs)
  have hsame := hfire.now_eq t.task _ (hfire.clock s rest hs)
  rw [htask] at hkept hsame
  rw [LawfulAgenda.agenda_withAgenda] at hsame
  exact ⟨hkept, hsame.trans_le (Agenda.now_le_of_pop? hnow hpop)⟩

theorem Runs.append (hfire : Standing fire P) (hle : target ≤ target')
    (hfirst : Runs fire target s fired₁ s₁) (hs : P s) (hnow : (agenda s).now ≤ target)
    (hrest : Runs fire target' s₁ fired₂ s') : Runs fire target' s (fired₁ ++ fired₂) s' := by
  induction hfirst with
  | quiet hpop => exact (runs_stopped_iff hnow hpop).mp hrest
  | due hpop htask _ ih =>
    obtain ⟨hs₁, hnow₁⟩ := hfire.after hs hnow hpop htask
    exact .due (Agenda.pop?_mono hle hpop) htask (ih hs₁ hnow₁ hrest)

theorem Runs.exists_stop (hfire : Standing fire P) (hle : target ≤ target')
    (h : Runs fire target' s fired s') (hs : P s) (hnow : (agenda s).now ≤ target) :
    ∃ fired₁ s₁ fired₂, Runs fire target s fired₁ s₁ ∧ Runs fire target' s₁ fired₂ s' ∧
      fired = fired₁ ++ fired₂ := by
  induction h with
  | @quiet s hpop' =>
    have hpop : (agenda s).pop? target = none := by
      cases hdue : (agenda s).pop? target with
      | none => rfl
      | some popped => cases hpop'.symm.trans (Agenda.pop?_mono hle hdue)
    exact ⟨[], _, [], .quiet hpop, (runs_stopped_iff hnow hpop).mpr (.quiet hpop'), rfl⟩
  | @due s s₁ s' t rest fired hpop' htask hruns ih =>
    cases hpop : (agenda s).pop? target with
    | none =>
      exact ⟨[], _, _, .quiet hpop, (runs_stopped_iff hnow hpop).mpr (.due hpop' htask hruns), rfl⟩
    | some popped =>
      obtain ⟨t', rest'⟩ := popped
      cases hpop'.symm.trans (Agenda.pop?_mono hle hpop)
      obtain ⟨hs₁, hnow₁⟩ := hfire.after hs hnow hpop htask
      obtain ⟨fired₁, s₂, fired₂, hfirst, hrest, rfl⟩ := ih hs₁ hnow₁
      exact ⟨_, s₂, fired₂, .due hpop htask hfirst, hrest, rfl⟩

/-- At its end a move has taken the clock to its target, and the property still holds. -/
theorem Runs.ends (hfire : Standing fire P) (h : Runs fire target s fired s') (hs : P s) :
    P s' ∧ (agenda s').now = target := by
  induction h with
  | quiet hpop => exact ⟨hfire.clock _ _ hs, by rw [LawfulAgenda.agenda_withAgenda]⟩
  | @due s s₁ s' t rest fired hpop htask _ ih =>
    have hkept := hfire.kept t.task _ (hfire.clock s rest hs)
    rw [htask] at hkept
    exact ih hkept

end Order

section Parts
variable [LawfulAgenda σ] [AddMonoid τ] [LinearOrder τ] [AddLeftMono τ]
variable {fire : α → Action ε σ Unit} {P : σ → Prop} {s s' : σ} {fired : List (Entry τ α × τ)}

/-- A move by two amounts of time goes just as one by the first and then one by the second. -/
theorem goes_add_iff (hfire : Standing fire P) (hs : P s) {a b : τ} (ha : 0 ≤ a) (hb : 0 ≤ b)
    {count : Nat} : Goes fire (a + b) s fired count s' ↔
      ∃ fired₁ m s₁ fired₂ n, Goes fire a s fired₁ m s₁ ∧ Goes fire b s₁ fired₂ n s' ∧
        fired = fired₁ ++ fired₂ ∧ count = m + n := by
  have hnow : (agenda s).now ≤ (agenda s).now + a := le_add_of_nonneg_right ha
  have hle : (agenda s).now + a ≤ (agenda s).now + a + b := le_add_of_nonneg_right hb
  simp only [goes_iff, ← add_assoc]
  constructor
  · rintro ⟨hruns, rfl⟩
    obtain ⟨fired₁, s₁, fired₂, hfirst, hrest, rfl⟩ := hruns.exists_stop hfire hle hs hnow
    obtain ⟨-, hends⟩ := hfirst.ends hfire hs
    refine ⟨fired₁, _, s₁, fired₂, _, ⟨hfirst, rfl⟩, ⟨?_, rfl⟩, rfl, List.length_append⟩
    rw [hends]
    exact hrest
  · rintro ⟨fired₁, m, s₁, fired₂, n, ⟨hfirst, rfl⟩, ⟨hrest, rfl⟩, rfl, rfl⟩
    obtain ⟨-, hends⟩ := hfirst.ends hfire hs
    rw [hends] at hrest
    exact ⟨hfirst.append hfire hle hs hnow hrest, List.length_append.symm⟩

end Parts

end VisualNovel.Timer
