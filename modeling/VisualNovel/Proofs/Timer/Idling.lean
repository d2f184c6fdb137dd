import Mathlib.Algebra.GroupWithZero.Nat
import Mathlib.Algebra.Order.Group.Nat
import VisualNovel.Proofs.Timer.Splits

/-!
Running timers until nothing waits. It hops from one due time to the next instead of going all the
way at once, but it does not pass any timer that a single move would let fire, and it does not set
the clock where nothing is due: all that it leaves otherwise than the single move is the clock.
-/
namespace VisualNovel.Timer

open Relation

variable {ε σ τ α : Type} [HasAgenda σ τ α]

section Hops
variable [LT τ] [DecidableLT τ] [LE τ] [DecidableLE τ]

/-- The timers that fire while the clock goes from one due time to the next, with its readings. -/
def idleFirings (fire : α → Action ε σ Unit) (deadline : τ) : Nat → σ → List (Entry τ α × τ)
  | 0, _ => []
  | fuel + 1, s =>
      match (agenda s).nextDue? with
      | none => []
      | some due =>
          if due ≤ deadline then
            firings fire due fuel s ++
              match runUntil fire due fuel 0 s with
              | (.ok _, s) => idleFirings fire deadline fuel s
              | (.error _, _) => []
          else []

/-- Running until nothing waits within a limit comes to an end: the timers that fire, how many are
counted, and the state at the end. -/
def Idles [Add τ] (fire : α → Action ε σ Unit) (limit : τ) (s : σ)
    (fired : List (Entry τ α × τ)) (count : Nat) (s' : σ) : Prop :=
  ∃ fuel, runUntilIdle fire limit fuel s = (.ok count, s') ∧
    idleFirings fire ((agenda s).now + limit) fuel s = fired

/-- Moves from one due time to the next, until nothing waits that is due by the deadline. -/
inductive Hops (fire : α → Action ε σ Unit) (deadline : τ) :
    σ → List (Entry τ α × τ) → σ → Prop
  | idle {s : σ} (hidle : ∀ due, (agenda s).nextDue? = some due → ¬ due ≤ deadline) :
      Hops fire deadline s [] s
  | hop {s s₁ s' : σ} {due : τ} {fired fired' : List (Entry τ α × τ)}
      (hdue : (agenda s).nextDue? = some due) (hle : due ≤ deadline)
      (hruns : Runs fire due s fired s₁) (hrest : Hops fire deadline s₁ fired' s') :
      Hops fire deadline s (fired ++ fired') s'

variable {fire : α → Action ε σ Unit} {deadline due : τ} {s s₁ s' : σ}
  {fired : List (Entry τ α × τ)}

theorem idleFirings_of_idle (hidle : ∀ due, (agenda s).nextDue? = some due → ¬ due ≤ deadline)
    (fuel : Nat) : idleFirings fire deadline (fuel + 1) s = [] := by
  rw [idleFirings]
  cases hdue : (agenda s).nextDue? with
  | none => rfl
  | some due => exact if_neg (hidle due hdue)

theorem idleFirings_of_due (hdue : (agenda s).nextDue? = some due) (hle : due ≤ deadline)
    {fuel count : Nat} (hrun : runUntil fire due fuel 0 s = (.ok count, s₁)) :
    idleFirings fire deadline (fuel + 1) s =
      firings fire due fuel s ++ idleFirings fire deadline fuel s₁ := by
  rw [idleFirings, hdue]
  dsimp only
  rw [if_pos hle, hrun]

/-- With enough fuel, the clock goes from hop to hop to the end. -/
theorem Hops.exists_least (h : Hops fire deadline s fired s') :
    ∃ least, ∀ fuel, least ≤ fuel →
      (∀ ran, runUntilQuiet fire deadline fuel ran s = (.ok (ran + fired.length), s')) ∧
        idleFirings fire deadline fuel s = fired := by
  induction h with
  | idle hidle =>
    refine ⟨1, fun fuel hfuel => ?_⟩
    obtain ⟨fuel, rfl⟩ := Nat.exists_eq_add_of_le' hfuel
    exact ⟨fun ran => runUntilQuiet_of_idle hidle fuel ran, idleFirings_of_idle hidle fuel⟩
  | @hop s s₁ s' due fired fired' hdue hle hruns _ ih =>
    obtain ⟨least₁, hfirst⟩ := hruns.exists_least
    obtain ⟨least₂, hrest⟩ := ih
    refine ⟨max least₁ least₂ + 1, fun fuel hfuel => ?_⟩
    obtain ⟨fuel, rfl⟩ := Nat.exists_eq_add_of_le' (Nat.le_of_add_left_le hfuel)
    have henough := Nat.le_of_add_le_add_right hfuel
    obtain ⟨hrun, hfired⟩ := hfirst fuel (le_trans (le_max_left ..) henough)
    obtain ⟨hrun', hfired'⟩ := hrest fuel (le_trans (le_max_right ..) henough)
    refine ⟨fun ran => ?_, ?_⟩
    · rw [runUntilQuiet_of_due hdue hle, Action.seq_of_ok (hrun 0), hrun', List.length_append,
        Nat.zero_add, Nat.add_assoc]
    · rw [idleFirings_of_due hdue hle (hrun 0), hfired, hfired']

theorem hops_of_runUntilQuiet {fuel ran count : Nat}
    (h : runUntilQuiet fire deadline fuel ran s = (.ok count, s')) :
    Hops fire deadline s (idleFirings fire deadline fuel s) s' ∧
      count = ran + (idleFirings fire deadline fuel s).length := by
  induction fuel generalizing ran s with
  | zero => cases h
  | succ fuel ih =>
    by_cases hidle : ∀ due, (agenda s).nextDue? = some due → ¬ due ≤ deadline
    · rw [runUntilQuiet_of_idle hidle] at h
      cases h
      rw [idleFirings_of_idle hidle]
      exact ⟨.idle hidle, rfl⟩
    · simp only [Classical.not_forall, Decidable.not_not] at hidle
      obtain ⟨due, hdue, hle⟩ := hidle
      rw [runUntilQuiet_of_due hdue hle] at h
      rcases hrun : runUntil fire due fuel 0 s with ⟨halt | more, s₁⟩
      · rw [Action.seq_of_error hrun] at h
        cases h
      · rw [Action.seq_of_ok hrun] at h
        obtain ⟨hhops, rfl⟩ := ih h
        obtain ⟨hruns, rfl⟩ := runs_of_runUntil hrun
        rw [idleFirings_of_due hdue hle hrun]
        refine ⟨.hop hdue hle hruns hhops, ?_⟩
        rw [List.length_append]
        omega

theorem idles_iff [Add τ] {limit : τ} {count : Nat} : Idles fire limit s fired count s' ↔
    Hops fire ((agenda s).now + limit) s fired s' ∧ count = fired.length := by
  constructor
  · rintro ⟨fuel, hrun, rfl⟩
    obtain ⟨hhops, hcount⟩ := hops_of_runUntilQuiet hrun
    exact ⟨hhops, hcount.trans (Nat.zero_add _)⟩
  · rintro ⟨hhops, rfl⟩
    obtain ⟨least, hleast⟩ := hhops.exists_least
    obtain ⟨hrun, hfired⟩ := hleast least (Nat.le_refl least)
    exact ⟨least, (hrun 0).trans (by rw [Nat.zero_add]), hfired⟩

end Hops

section Order
variable [LinearOrder τ]

/-- Timers wait in the order of their due times, and none of these has passed. -/
structure Agenda.OnTime (a : Agenda τ α) : Prop where
  inOrder : InOrder a.queue
  ahead : ∀ t ∈ a.queue, a.now ≤ t.due

namespace Agenda.OnTime

variable {a rest : Agenda τ α} {t : Entry τ α} {target due : τ}

theorem starting [Zero τ] : (Agenda.starting : Agenda τ α).OnTime := ⟨.nil, fun _ ht => nomatch ht⟩

theorem callLater [AddZeroClass τ] [AddLeftMono τ] (h : a.OnTime) (delay : τ) (task : α) :
    (a.callLater delay task).2.OnTime where
  inOrder := inOrder_place h.inOrder
  ahead := by
    intro t ht
    rcases mem_place.mp ht with rfl | ht
    · exact le_add_of_nonneg_right (later_nonneg delay)
    · exact h.ahead t ht

theorem cancel (h : a.OnTime) (order : Nat) : (a.cancel order).OnTime := by
  unfold Agenda.cancel
  split
  · exact ⟨h.inOrder.filter _, fun t ht => h.ahead t (List.mem_filter.mp ht).1⟩
  · exact h

theorem pop (h : a.OnTime) (hpop : a.pop? target = some (t, rest)) :
    rest.OnTime ∧ rest.now = t.due ∧ a.now ≤ t.due ∧ t.due ≤ target := by
  obtain ⟨queue, hqueue, hdue, rfl⟩ := Agenda.pop?_eq_some hpop
  have hfirst := h.ahead t (hqueue ▸ List.mem_cons_self)
  have hnow : later a.now t.due = t.due := later_eq_right hfirst
  obtain ⟨hlast, hrest⟩ := List.pairwise_cons.mp (hqueue ▸ h.inOrder)
  exact ⟨⟨hrest, fun u hu => hnow.trans_le (hlast u hu)⟩, hnow, hfirst, not_lt.mp hdue⟩

theorem stopped (h : a.OnTime) (hpop : a.pop? target = none) :
    ({ a with now := target } : Agenda τ α).OnTime := by
  refine ⟨h.inOrder, fun t ht => ?_⟩
  have hhead := Agenda.pop?_eq_none hpop
  cases hqueue : a.queue with
  | nil => simp [hqueue] at ht
  | cons first queue =>
    have hfirst : target < first.due := hhead first (by rw [hqueue]; rfl)
    rcases List.mem_cons.mp (hqueue ▸ ht) with rfl | hlater
    · exact hfirst.le
    · exact hfirst.le.trans ((List.pairwise_cons.mp (hqueue ▸ h.inOrder)).1 t hlater)

theorem now_le_next (h : a.OnTime) (hdue : a.nextDue? = some due) : a.now ≤ due := by
  obtain ⟨t, hhead, rfl⟩ := Option.map_eq_some_iff.mp hdue
  exact h.ahead t (List.mem_of_mem_head? hhead)

end Agenda.OnTime

theorem Agenda.pop?_eq_none_of_next {a : Agenda τ α} {target : τ}
    (h : ∀ due, a.nextDue? = some due → ¬ due ≤ target) : a.pop? target = none := by
  cases hpop : a.pop? target with
  | none => rfl
  | some popped =>
    obtain ⟨t, rest⟩ := popped
    obtain ⟨queue, hqueue, hdue, -⟩ := Agenda.pop?_eq_some hpop
    exact absurd (not_lt.mp hdue) (h t.due (by rw [Agenda.nextDue?, hqueue]; rfl))

end Order

section Tasks
variable [LawfulAgenda σ] [AddZeroClass τ] [LinearOrder τ] [AddLeftMono τ]
variable {fire : α → Action ε σ Unit} {target deadline due : τ} {s s₁ s' : σ}
  {fired : List (Entry τ α × τ)}

theorem Tends.onTime (h : Tends s s') (hs : (agenda s).OnTime) : (agenda s').OnTime := by
  cases h with
  | callLater delay task =>
    rw [LawfulAgenda.agenda_withAgenda]
    exact hs.callLater delay task
  | cancel order =>
    rw [LawfulAgenda.agenda_withAgenda]
    exact hs.cancel order
  | other hagenda => rwa [hagenda]

theorem onTime_of_path (hpath : ReflTransGen Tends s s') (hs : (agenda s).OnTime) :
    (agenda s').OnTime := by
  induction hpath with
  | refl => exact hs
  | tail _ hstep ih => exact hstep.onTime ih

/-- What is done with timers from outside: one is scheduled or cancelled, or the clock is moved. -/
inductive Use (fire : α → Action ε σ Unit) : σ → σ → Prop
  | tends {s s' : σ} (h : Tends s s') : Use fire s s'
  | advance (s : σ) (seconds : τ) (fuel : Nat) : Use fire s (advance fire seconds fuel s).2

section Fire
variable (hfire : ∀ task s, ReflTransGen Tends s (fire task s).2)
include hfire

theorem onTime_of_task (task : α) (hs : (agenda s).OnTime) : (agenda (fire task s).2).OnTime :=
  onTime_of_path (hfire task s) hs

theorem Use.onTime (h : Use fire s s') (hs : (agenda s).OnTime) : (agenda s').OnTime := by
  cases h with
  | tends h => exact h.onTime hs
  | advance seconds fuel =>
    refine runUntil_relates (R := fun s s' => (agenda s).OnTime → (agenda s').OnTime)
      (fun _ => id) (fun hfirst hsecond hs => hsecond (hfirst hs)) ?_ ?_ _ fuel 0 s hs
    · intro s target t rest hpop hs
      refine onTime_of_task hfire t.task ?_
      rw [LawfulAgenda.agenda_withAgenda]
      exact (hs.pop hpop).1
    · intro s target hpop hs
      rw [LawfulAgenda.agenda_withAgenda]
      exact hs.stopped hpop

/-- A task leaves the clock at the due time of its timer. -/
theorem onTime_of_fired {t : Entry τ α} {rest : Agenda τ α} (hs : (agenda s).OnTime)
    (hpop : (agenda s).pop? target = some (t, rest))
    (htask : fire t.task (withAgenda s rest) = (.ok (), s₁)) :
    (agenda s₁).OnTime ∧ (agenda s₁).now = t.due := by
  obtain ⟨hrest, hnow, -, -⟩ := hs.pop hpop
  have hkept := onTime_of_task hfire (s := withAgenda s rest) t.task
    (by rwa [LawfulAgenda.agenda_withAgenda])
  have hstands := (standing_of_tends hfire).now_eq t.task (withAgenda s rest) trivial
  rw [htask] at hkept hstands
  rw [LawfulAgenda.agenda_withAgenda, hnow] at hstands
  exact ⟨hkept, hstands⟩

/-- Each timer fires when it is due, and none is overdue at the end. -/
theorem Runs.onTime (h : Runs fire target s fired s') (hs : (agenda s).OnTime) :
    (agenda s').OnTime ∧ ∀ p ∈ fired, (agenda s).now ≤ p.1.due ∧ p.1.due ≤ target := by
  induction h with
  | quiet hpop =>
    rw [LawfulAgenda.agenda_withAgenda]
    exact ⟨hs.stopped hpop, fun p hp => nomatch hp⟩
  | @due s s₁ s' t rest fired hpop htask hruns ih =>
    obtain ⟨-, -, hahead, hdue⟩ := hs.pop hpop
    obtain ⟨hs₁, hnow⟩ := onTime_of_fired hfire hs hpop htask
    obtain ⟨hs', hlater⟩ := ih hs₁
    refine ⟨hs', fun p hp => ?_⟩
    rcases List.mem_cons.mp hp with rfl | hp
    · exact ⟨hahead, hdue⟩
    · obtain ⟨hfrom, hto⟩ := hlater p hp
      exact ⟨hahead.trans (hnow ▸ hfrom), hto⟩

/-- A hop lets timers of one due time fire, at least one of them. -/
theorem Runs.hop (h : Runs fire due s fired s₁) (hs : (agenda s).OnTime)
    (hdue : (agenda s).nextDue? = some due) : fired ≠ [] ∧ ∀ p ∈ fired, p.1.due = due := by
  cases h with
  | quiet hpop => exact absurd (Agenda.lt_of_nextDue? hpop hdue) (lt_irrefl due)
  | @due s s₂ s₁ t rest fired hpop htask hruns =>
    have hfirst : t.due = due := by
      obtain ⟨queue, hqueue, -, -⟩ := Agenda.pop?_eq_some hpop
      rw [Agenda.nextDue?, hqueue] at hdue
      exact Option.some.inj hdue
    obtain ⟨hs₂, hnow⟩ := onTime_of_fired hfire hs hpop htask
    refine ⟨List.cons_ne_nil _ _, fun p hp => ?_⟩
    rcases List.mem_cons.mp hp with rfl | hp
    · exact hfirst
    · obtain ⟨hfrom, hto⟩ := (hruns.onTime hfire hs₂).2 p hp
      exact le_antisymm hto (hfirst ▸ hnow ▸ hfrom)

/-- Hopping to a deadline, and then setting the clock to it, is moving there at once. -/
theorem Hops.runs (h : Hops fire deadline s fired s') (hs : (agenda s).OnTime) :
    Runs fire deadline s fired (withAgenda s' { agenda s' with now := deadline }) := by
  induction h with
  | idle hidle => exact .quiet (Agenda.pop?_eq_none_of_next hidle)
  | hop hdue hle hruns _ ih =>
    have hs₁ := (hruns.onTime hfire hs).1
    exact hruns.append (standing_of_tends hfire) hle trivial (hs.now_le_next hdue) (ih hs₁)

/-- Whatever fires on the way to a deadline also fires when hopping there. -/
theorem Runs.exists_hops (h : Runs fire deadline s fired s') (hs : (agenda s).OnTime) :
    ∃ s₁, Hops fire deadline s fired s₁ ∧
      s' = withAgenda s₁ { agenda s₁ with now := deadline } := by
  -- The first hop uses up at least one of the timers that fire.
  induction hlength : fired.length using Nat.strong_induction_on generalizing fired s with
  | _ n ih =>
    subst hlength
    by_cases hidle : ∀ due, (agenda s).nextDue? = some due → ¬ due ≤ deadline
    · have hquiet := Agenda.pop?_eq_none_of_next hidle
      cases h with
      | quiet hpop => exact ⟨s, .idle hidle, rfl⟩
      | due hpop htask hruns => cases hquiet.symm.trans hpop
    · simp only [Classical.not_forall, Decidable.not_not] at hidle
      obtain ⟨due, hdue, hle⟩ := hidle
      obtain ⟨fired₁, s₁, fired₂, hfirst, hrest, rfl⟩ :=
        h.exists_stop (standing_of_tends hfire) hle trivial (hs.now_le_next hdue)
      obtain ⟨hfired, -⟩ := hfirst.hop hfire hs hdue
      have hfewer : fired₂.length < (fired₁ ++ fired₂).length := by
        rw [List.length_append]
        exact Nat.lt_add_of_pos_left (List.length_pos_iff.mpr hfired)
      obtain ⟨s₂, hhops, hs'⟩ := ih _ hfewer hrest (hfirst.onTime hfire hs).1 rfl
      exact ⟨s₂, .hop hdue hle hfirst hhops, hs'⟩

theorem Hops.now_eq (h : Hops fire deadline s fired s') (hs : (agenda s).OnTime) :
    (agenda s').now = (fired.getLast?.map (·.1.due)).getD (agenda s).now := by
  induction h with
  | idle hidle => rfl
  | @hop s s₁ s' due fired fired' hdue hle hruns hrest ih =>
    obtain ⟨hfired, hsame⟩ := hruns.hop hfire hs hdue
    rw [ih (hruns.onTime hfire hs).1, (hruns.ends (standing_of_tends hfire) trivial).2,
      List.getLast?_append]
    cases fired'.getLast? with
    | some p => rfl
    | none =>
      have hlast := hsame _ (List.getLast_mem hfired)
      simp [List.getLast?_eq_some_getLast hfired, hlast]

end Fire

/-- As long as tasks only schedule and cancel, running timers until nothing waits within a limit
ends just where a move by that limit does. It lets the same timers fire in the same order at the
same readings, counts as many, and leaves the same behind, except that the clock stands at the due
time of the last timer that fired. -/
theorem idling_is_advancing_without_overshooting (fire : α → Action ε σ Unit)
    (hfire : ∀ task s, ReflTransGen Tends s (fire task s).2) {s₀ s : σ}
    (hstart : agenda s₀ = Agenda.starting) (hreached : ReflTransGen (Use fire) s₀ s) (limit : τ) :
    (∀ fired count s', Goes fire limit s fired count s' ↔
      ∃ s₁, Idles fire limit s fired count s₁ ∧
        s' = withAgenda s₁ { agenda s₁ with now := (agenda s).now + limit }) ∧
    ∀ fired count s₁, Idles fire limit s fired count s₁ →
      (agenda s₁).now = (fired.getLast?.map (·.1.due)).getD (agenda s).now := by
  have hs : (agenda s).OnTime := by
    induction hreached with
    | refl => exact hstart ▸ .starting
    | tail _ hstep ih => exact hstep.onTime hfire ih
  simp only [goes_iff, idles_iff]
  refine ⟨fun fired count s' => ⟨?_, ?_⟩, ?_⟩
  · rintro ⟨hruns, hcount⟩
    obtain ⟨s₁, hhops, hs'⟩ := hruns.exists_hops hfire hs
    exact ⟨s₁, ⟨hhops, hcount⟩, hs'⟩
  · rintro ⟨s₁, ⟨hhops, hcount⟩, rfl⟩
    exact ⟨hhops.runs hfire hs, hcount⟩
  · rintro fired count s₁ ⟨hhops, -⟩
    exact hhops.now_eq hfire hs

end Tasks

/-- Tasks that schedule one timer within reach and one beyond it, or cancel one that waits. -/
def chores : Nat → Action String (Agenda Nat Nat) Unit
  | 0 => fun a => (.ok (), ((a.callLater 1 2).2.callLater 100 2).2)
  | 1 => fun a => (.ok (), a.cancel 2)
  | _ => fun a => (.ok (), a)

theorem chores_tend (task : Nat) (a : Agenda Nat Nat) :
    ReflTransGen Tends a (chores task a).2 :=
  match task with
  | 0 => .head (.callLater a 1 2) (.single (.callLater _ 100 2))
  | 1 => .single (.cancel a 2)
  | _ + 2 => .refl

/-- Two timers due at the same time, and a later one that the second of them cancels. -/
def busyAgenda : Agenda Nat Nat :=
  (((Agenda.starting.callLater 2 0).2.callLater 2 1).2.callLater 5 2).2

theorem busyAgenda_used : ReflTransGen (Use chores) Agenda.starting busyAgenda :=
  .head (.tends (.callLater _ 2 0)) (.head (.tends (.callLater _ 2 1))
    (.single (.tends (.callLater _ 5 2))))

theorem idling_is_advancing_without_overshooting_through_chores :
    (∀ task a, ReflTransGen Tends a (chores task a).2) ∧
      ReflTransGen (Use chores) Agenda.starting busyAgenda ∧
      ∃ a : Agenda Nat Nat,
        Idles chores 10 busyAgenda [(⟨2, 0, 0⟩, 2), (⟨2, 1, 1⟩, 2), (⟨3, 3, 2⟩, 3)] 3 a ∧
          ({ a with now := 10 } : Agenda Nat Nat) = ⟨10, [⟨102, 4, 2⟩], 5, true⟩ ∧ a.now = 3 := by
  obtain ⟨hsame, hnow⟩ := idling_is_advancing_without_overshooting chores chores_tend rfl
    busyAgenda_used 10
  have hgoes : Goes chores 10 busyAgenda [(⟨2, 0, 0⟩, 2), (⟨2, 1, 1⟩, 2), (⟨3, 3, 2⟩, 3)] 3
      ⟨10, [⟨102, 4, 2⟩], 5, true⟩ := ⟨9, rfl, rfl⟩
  obtain ⟨a, hidles, hends⟩ := (hsame _ _ _).mp hgoes
  exact ⟨chores_tend, busyAgenda_used, a, hidles, hends.symm, hnow _ _ _ hidles⟩

end VisualNovel.Timer
