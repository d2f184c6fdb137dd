import Mathlib.Order.WellFounded
import VisualNovel.Proofs.Timer.Splits

/-!
When a move of the clock comes to an end. If every task that runs lowers a rank, and a rank cannot
be lowered for ever, then only finitely many tasks run before the clock has got to its target, or
before nothing waits that is due in time.
-/
namespace VisualNovel.Timer

variable {ε σ τ α β : Type} [HasAgenda σ τ α] [LinearOrder τ] [Preorder β]

/-- Among states with a property, every task that runs by a deadline succeeds and lowers the rank.
Setting the clock when nothing is due does not change it. -/
structure Settles (fire : α → Action ε σ Unit) (deadline : τ) (P : σ → Prop) (rank : σ → β) :
    Prop where
  fires : ∀ {s : σ} {t : Entry τ α} {rest : Agenda τ α}, P s →
    (agenda s).pop? deadline = some (t, rest) →
      ∃ s', fire t.task (withAgenda s rest) = (.ok (), s') ∧ P s' ∧ rank s' < rank s
  clock : ∀ {s : σ} {now : τ}, P s → (agenda s).pop? now = none →
    P (withAgenda s { agenda s with now }) ∧
      rank (withAgenda s { agenda s with now }) = rank s

namespace Settles

variable {fire : α → Action ε σ Unit} {target deadline : τ} {P : σ → Prop} {rank : σ → β}

/-- A move up to the deadline comes to an end, and has lowered the rank if anything was due. -/
theorem exists_runs [WellFoundedLT β] (h : Settles fire deadline P rank) (hle : target ≤ deadline)
    (s : σ) (hs : P s) :
    ∃ fired s', Runs fire target s fired s' ∧ P s' ∧ rank s' ≤ rank s ∧
      (fired ≠ [] → rank s' < rank s) := by
  -- Tasks may leave the time as it is, so the rank is all that there is to go by.
  induction hrank : rank s using WellFoundedLT.induction generalizing s with
  | ind r ih =>
    subst hrank
    cases hpop : (agenda s).pop? target with
    | none =>
      obtain ⟨hkept, hsame⟩ := h.clock hs hpop
      exact ⟨[], _, .quiet hpop, hkept, hsame.le, fun hne => absurd rfl hne⟩
    | some popped =>
      obtain ⟨t, rest⟩ := popped
      obtain ⟨s₁, htask, hs₁, hless⟩ := h.fires hs (Agenda.pop?_mono hle hpop)
      obtain ⟨fired, s', hruns, hs', hlower, -⟩ := ih (rank s₁) hless s₁ hs₁ rfl
      have hfinal : rank s' < rank s := hlower.trans_lt hless
      exact ⟨_, s', .due hpop htask hruns, hs', hfinal.le, fun _ => hfinal⟩

theorem exists_runUntilQuiet [WellFoundedLT β] (h : Settles fire deadline P rank) (s : σ)
    (hs : P s) : ∃ fuel s', ∀ ran, ∃ count,
      runUntilQuiet fire deadline fuel ran s = (.ok count, s') := by
  induction hrank : rank s using WellFoundedLT.induction generalizing s with
  | ind r ih =>
    subst hrank
    by_cases hidle : ∀ due, (agenda s).nextDue? = some due → ¬ due ≤ deadline
    · exact ⟨1, s, fun ran => ⟨ran, runUntilQuiet_of_idle hidle 0 ran⟩⟩
    · simp only [not_forall, not_not] at hidle
      obtain ⟨due, hdue, hle⟩ := hidle
      obtain ⟨fired, s₁, hruns, hs₁, -, hlower⟩ := h.exists_runs hle s hs
      -- What is due first runs in the move to its time, so every such move lowers the rank.
      have hfired : fired ≠ [] := by
        rintro rfl
        cases hruns with
        | quiet hpop =>
          obtain ⟨t, ht, rfl⟩ := Option.map_eq_some_iff.mp hdue
          exact lt_irrefl _ (Agenda.pop?_eq_none hpop t ht)
      obtain ⟨fuel₁, hfirst, -⟩ := hruns.exists_runUntil
      obtain ⟨fuel₂, s', hrest⟩ := ih (rank s₁) (hlower hfired) s₁ hs₁ rfl
      refine ⟨max fuel₁ fuel₂ + 1, s', fun ran => ?_⟩
      have hsame : ∀ task, (fire task).Extends (fire task) := fun _ _ _ => rfl
      obtain ⟨count, hquiet⟩ := hrest (ran + (0 + fired.length))
      have hmove := runUntil_extends hsame due (le_max_left fuel₁ fuel₂) 0 s
        (by rw [hfirst]; exact nofun)
      have hon := runUntilQuiet_extends hsame deadline (le_max_right fuel₁ fuel₂)
        (ran + (0 + fired.length)) s₁ (by rw [hquiet]; exact nofun)
      refine ⟨count, ?_⟩
      rw [runUntilQuiet_of_due hdue hle, Action.seq_of_ok (hmove.trans (hfirst 0)), hon, hquiet]

/-- With enough fuel, running until nothing waits within the limit ends in the same way. -/
theorem exists_runUntilIdle [WellFoundedLT β] [Add τ] {limit : τ} {s : σ}
    (h : Settles fire ((agenda s).now + limit) P rank) (hs : P s) :
    ∃ least count s', ∀ fuel, least ≤ fuel → runUntilIdle fire limit fuel s = (.ok count, s') := by
  obtain ⟨least, s', hquiet⟩ := h.exists_runUntilQuiet s hs
  obtain ⟨count, hcount⟩ := hquiet 0
  have hdone : runUntilIdle fire limit least s = (.ok count, s') := hcount
  refine ⟨least, count, s', fun fuel hfuel => ?_⟩
  have hmore := runUntilIdle_extends (fun _ _ _ => rfl) limit hfuel s (by rw [hdone]; exact nofun)
  exact hmore.trans hdone

end Settles

end VisualNovel.Timer
