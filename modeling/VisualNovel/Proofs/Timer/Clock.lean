import VisualNovel.Timer.Running

/-!
What a move of the clock does, told by what its single steps do. A relation that every step
respects holds between the ends of a move, and a move that comes to an end with some fuel goes the
same way with more.
-/
namespace VisualNovel.Timer

variable {ε σ τ α ρ ρ' : Type}

namespace Action

/-- One action after the other, unless the first one fails. -/
def seq (act : Action ε σ ρ) (next : ρ → Action ε σ ρ') : Action ε σ ρ' := fun s =>
  match act s with
  | (.ok a, s) => next a s
  | (.error halt, s) => (.error halt, s)

theorem seq_of_ok {act : Action ε σ ρ} {next : ρ → Action ε σ ρ'} {s t : σ} {a : ρ}
    (h : act s = (.ok a, t)) : act.seq next s = next a t := by
  unfold seq
  rw [h]

theorem seq_of_error {act : Action ε σ ρ} {next : ρ → Action ε σ ρ'} {s t : σ} {halt : Halt ε}
    (h : act s = (.error halt, t)) : act.seq next s = (.error halt, t) := by
  unfold seq
  rw [h]

/-- What relates the states before and after actions, whether these succeed or fail, relates them
for one action after the other. -/
theorem seq_keeps {R : Bool → σ → σ → Prop}
    (htrans : ∀ {b s t u}, R true s t → R b t u → R b s u) {act : Action ε σ ρ}
    {next : ρ → Action ε σ ρ'} {s : σ} (hact : R (act s).1.isOk s (act s).2)
    (hnext : ∀ a t, R (next a t).1.isOk t (next a t).2) :
    R (act.seq next s).1.isOk s (act.seq next s).2 := by
  rcases hrun : act s with ⟨halt | a, t⟩
  · rw [seq_of_error hrun]
    rw [hrun] at hact
    exact hact
  · rw [seq_of_ok hrun]
    rw [hrun] at hact
    exact htrans hact (hnext a t)

theorem seq_relates {R : σ → σ → Prop} (htrans : ∀ {s t u}, R s t → R t u → R s u)
    {act : Action ε σ ρ} {next : ρ → Action ε σ ρ'} {s : σ} (hact : R s (act s).2)
    (hnext : ∀ a t, R t (next a t).2) : R s (act.seq next s).2 :=
  seq_keeps (R := fun _ => R) htrans hact hnext

/-- One action does what another does, wherever the other has enough fuel. -/
def Extends (shorter longer : Action ε σ ρ) : Prop :=
  ∀ s, (shorter s).1 ≠ .error .outOfFuel → longer s = shorter s

theorem ne_outOfFuel_of_seq {act : Action ε σ ρ} {next : ρ → Action ε σ ρ'} {s : σ}
    (h : (act.seq next s).1 ≠ .error .outOfFuel) : (act s).1 ≠ .error .outOfFuel := by
  intro hout
  have hrun : act s = (.error .outOfFuel, (act s).2) := Prod.ext hout rfl
  rw [seq_of_error hrun] at h
  exact h rfl

theorem Extends.seq {act act' : Action ε σ ρ} {next next' : ρ → Action ε σ ρ'}
    (hact : act.Extends act') (hnext : ∀ a, (next a).Extends (next' a)) :
    (act.seq next).Extends (act'.seq next') := by
  intro s hs
  have hsame : act' s = act s := hact s (ne_outOfFuel_of_seq hs)
  rcases hrun : act s with ⟨halt | a, t⟩
  · rw [seq_of_error hrun, seq_of_error (hsame.trans hrun)]
  · rw [seq_of_ok hrun] at hs
    rw [seq_of_ok hrun, seq_of_ok (hsame.trans hrun)]
    exact hnext a t hs

end Action

variable [HasAgenda σ τ α] [LT τ] [DecidableLT τ]

theorem runUntil_of_quiet {fire : α → Action ε σ Unit} {target : τ} {s : σ}
    (hquiet : (agenda s).pop? target = none) (fuel ran : Nat) :
    runUntil fire target (fuel + 1) ran s =
      (.ok ran, withAgenda s { agenda s with now := target }) := by
  rw [runUntil, hquiet]

theorem runUntil_of_due {fire : α → Action ε σ Unit} {target : τ} {s : σ} {entry : Entry τ α}
    {rest : Agenda τ α} (hdue : (agenda s).pop? target = some (entry, rest)) (fuel ran : Nat) :
    runUntil fire target (fuel + 1) ran s =
      (fire entry.task).seq (fun () => runUntil fire target fuel (ran + 1))
        (withAgenda s rest) := by
  rw [runUntil, hdue]
  unfold Action.seq
  dsimp only
  rcases fire entry.task (withAgenda s rest) with ⟨halt | _, t⟩ <;> rfl

theorem runUntilQuiet_of_due [LE τ] [DecidableLE τ] {fire : α → Action ε σ Unit}
    {deadline due : τ} {s : σ} (hdue : (agenda s).nextDue? = some due) (hle : due ≤ deadline)
    (fuel ran : Nat) :
    runUntilQuiet fire deadline (fuel + 1) ran s =
      (runUntil fire due fuel 0).seq (fun more => runUntilQuiet fire deadline fuel (ran + more))
        s := by
  rw [runUntilQuiet, hdue]
  dsimp only
  rw [if_pos hle]
  unfold Action.seq
  rcases runUntil fire due fuel 0 s with ⟨halt | more, t⟩ <;> rfl

theorem runUntilQuiet_of_idle [LE τ] [DecidableLE τ] {fire : α → Action ε σ Unit} {deadline : τ}
    {s : σ} (hidle : ∀ due, (agenda s).nextDue? = some due → ¬ due ≤ deadline) (fuel ran : Nat) :
    runUntilQuiet fire deadline (fuel + 1) ran s = (.ok ran, s) := by
  rw [runUntilQuiet]
  cases hdue : (agenda s).nextDue? with
  | none => rfl
  | some due =>
    dsimp only
    rw [if_neg (hidle due hdue)]

/-- A relation between the states before and after something that succeeds, or that fails. A failure
can come at any time. -/
structure Serial (R : Bool → σ → σ → Prop) : Prop where
  refl (s : σ) : R true s s
  trans {b : Bool} {s t u : σ} (hfirst : R true s t) (hsecond : R b t u) : R b s u
  fails {s t : σ} (h : R true s t) : R false s t

section Outcome
variable {R : Bool → σ → σ → Prop} {fire : α → Action ε σ Unit}

theorem runUntil_keeps (hR : Serial R)
    (hfire : ∀ s target entry rest, (agenda s).pop? target = some (entry, rest) →
      R (fire entry.task (withAgenda s rest)).1.isOk s (fire entry.task (withAgenda s rest)).2)
    (hclock : ∀ s target, (agenda s).pop? target = none →
      R true s (withAgenda s { agenda s with now := target }))
    (target : τ) (fuel ran : Nat) (s : σ) :
    R (runUntil fire target fuel ran s).1.isOk s (runUntil fire target fuel ran s).2 := by
  induction fuel generalizing ran s with
  | zero => exact hR.fails (hR.refl s)
  | succ fuel ih =>
    cases hpop : (agenda s).pop? target with
    | none =>
      rw [runUntil_of_quiet hpop]
      exact hclock s target hpop
    | some popped =>
      obtain ⟨entry, rest⟩ := popped
      have hstep := hfire s target entry rest hpop
      rw [runUntil_of_due hpop]
      rcases hrun : fire entry.task (withAgenda s rest) with ⟨halt | _, t⟩
      · rw [Action.seq_of_error hrun]
        rw [hrun] at hstep
        exact hstep
      · rw [Action.seq_of_ok hrun]
        rw [hrun] at hstep
        exact hR.trans hstep (ih (ran + 1) t)

theorem runUntilQuiet_keeps [LE τ] [DecidableLE τ] (hR : Serial R)
    (hfire : ∀ s target entry rest, (agenda s).pop? target = some (entry, rest) →
      R (fire entry.task (withAgenda s rest)).1.isOk s (fire entry.task (withAgenda s rest)).2)
    (hclock : ∀ s target, (agenda s).pop? target = none →
      R true s (withAgenda s { agenda s with now := target }))
    (deadline : τ) (fuel ran : Nat) (s : σ) :
    R (runUntilQuiet fire deadline fuel ran s).1.isOk s
      (runUntilQuiet fire deadline fuel ran s).2 := by
  induction fuel generalizing ran s with
  | zero => exact hR.fails (hR.refl s)
  | succ fuel ih =>
    by_cases hidle : ∀ due, (agenda s).nextDue? = some due → ¬ due ≤ deadline
    · rw [runUntilQuiet_of_idle hidle]
      exact hR.refl s
    · simp only [Classical.not_forall, Decidable.not_not] at hidle
      obtain ⟨due, hdue, hle⟩ := hidle
      rw [runUntilQuiet_of_due hdue hle]
      refine Action.seq_keeps (R := R) hR.trans ?_ ?_
      · exact runUntil_keeps hR hfire hclock due fuel 0 s
      · exact fun more t => ih (ran + more) t

end Outcome

section Relation
variable {R : σ → σ → Prop} {fire : α → Action ε σ Unit}

theorem serial_of_trans (hrefl : ∀ s, R s s) (htrans : ∀ {s t u}, R s t → R t u → R s u) :
    Serial fun _ => R := ⟨hrefl, htrans, id⟩

theorem runUntil_relates (hrefl : ∀ s, R s s) (htrans : ∀ {s t u}, R s t → R t u → R s u)
    (hfire : ∀ s target entry rest, (agenda s).pop? target = some (entry, rest) →
      R s (fire entry.task (withAgenda s rest)).2)
    (hclock : ∀ s target, (agenda s).pop? target = none →
      R s (withAgenda s { agenda s with now := target }))
    (target : τ) (fuel ran : Nat) (s : σ) : R s (runUntil fire target fuel ran s).2 :=
  runUntil_keeps (serial_of_trans hrefl htrans) hfire hclock target fuel ran s

theorem runUntilQuiet_relates [LE τ] [DecidableLE τ] (hrefl : ∀ s, R s s)
    (htrans : ∀ {s t u}, R s t → R t u → R s u)
    (hfire : ∀ s target entry rest, (agenda s).pop? target = some (entry, rest) →
      R s (fire entry.task (withAgenda s rest)).2)
    (hclock : ∀ s target, (agenda s).pop? target = none →
      R s (withAgenda s { agenda s with now := target }))
    (deadline : τ) (fuel ran : Nat) (s : σ) :
    R s (runUntilQuiet fire deadline fuel ran s).2 :=
  runUntilQuiet_keeps (serial_of_trans hrefl htrans) hfire hclock deadline fuel ran s

end Relation

section Fuel
variable {fire fire' : α → Action ε σ Unit}

theorem runUntil_extends (hfire : ∀ task, (fire task).Extends (fire' task)) (target : τ)
    {fuel fuel' : Nat} (hfuel : fuel ≤ fuel') (ran : Nat) :
    (runUntil fire target fuel ran).Extends (runUntil fire' target fuel' ran) := by
  induction fuel generalizing fuel' ran with
  | zero => exact fun s h => absurd rfl h
  | succ fuel ih =>
    intro s hs
    obtain ⟨more, rfl⟩ : ∃ more, fuel' = more + 1 := ⟨fuel' - 1, by omega⟩
    cases hpop : (agenda s).pop? target with
    | none => rw [runUntil_of_quiet hpop, runUntil_of_quiet hpop]
    | some popped =>
      obtain ⟨entry, rest⟩ := popped
      rw [runUntil_of_due hpop] at hs
      rw [runUntil_of_due hpop, runUntil_of_due hpop]
      exact (hfire entry.task).seq (fun () => ih (by omega) (ran + 1)) _ hs

theorem advance_extends [Add τ] (hfire : ∀ task, (fire task).Extends (fire' task)) (seconds : τ)
    {fuel fuel' : Nat} (hfuel : fuel ≤ fuel') :
    (advance fire seconds fuel).Extends (advance fire' seconds fuel') :=
  fun s hs => runUntil_extends hfire ((agenda s).now + seconds) hfuel 0 s hs

theorem runUntilQuiet_extends [LE τ] [DecidableLE τ]
    (hfire : ∀ task, (fire task).Extends (fire' task)) (deadline : τ) {fuel fuel' : Nat}
    (hfuel : fuel ≤ fuel') (ran : Nat) :
    (runUntilQuiet fire deadline fuel ran).Extends (runUntilQuiet fire' deadline fuel' ran) := by
  induction fuel generalizing fuel' ran with
  | zero => exact fun s h => absurd rfl h
  | succ fuel ih =>
    intro s hs
    obtain ⟨more, rfl⟩ : ∃ more, fuel' = more + 1 := ⟨fuel' - 1, by omega⟩
    by_cases hidle : ∀ due, (agenda s).nextDue? = some due → ¬ due ≤ deadline
    · rw [runUntilQuiet_of_idle hidle, runUntilQuiet_of_idle hidle]
    · simp only [Classical.not_forall, Decidable.not_not] at hidle
      obtain ⟨due, hdue, hle⟩ := hidle
      rw [runUntilQuiet_of_due hdue hle] at hs
      rw [runUntilQuiet_of_due hdue hle, runUntilQuiet_of_due hdue hle]
      have hmove := runUntil_extends hfire due (show fuel ≤ more by omega) 0
      exact hmove.seq (fun ran' => ih (by omega) (ran + ran')) s hs

theorem runUntilIdle_extends [Add τ] [LE τ] [DecidableLE τ]
    (hfire : ∀ task, (fire task).Extends (fire' task)) (limit : τ) {fuel fuel' : Nat}
    (hfuel : fuel ≤ fuel') :
    (runUntilIdle fire limit fuel).Extends (runUntilIdle fire' limit fuel') :=
  fun s hs => runUntilQuiet_extends hfire ((agenda s).now + limit) hfuel 0 s hs

end Fuel

/-- The states in which the timers that run during a move leave things, one after the other. -/
def passed (fire : α → Action ε σ Unit) (target : τ) : Nat → σ → List σ
  | 0, _ => []
  | fuel + 1, s =>
      match (agenda s).pop? target with
      | none => []
      | some (entry, rest) =>
          match fire entry.task (withAgenda s rest) with
          | (.ok (), s) => s :: passed fire target fuel s
          | (.error _, s) => [s]

theorem passed_of_quiet {fire : α → Action ε σ Unit} {target : τ} {s : σ}
    (hquiet : (agenda s).pop? target = none) (fuel : Nat) :
    passed fire target (fuel + 1) s = [] := by
  rw [passed, hquiet]

theorem passed_of_ok {fire : α → Action ε σ Unit} {target : τ} {s t : σ} {entry : Entry τ α}
    {rest : Agenda τ α} (hdue : (agenda s).pop? target = some (entry, rest))
    (hrun : fire entry.task (withAgenda s rest) = (.ok (), t)) (fuel : Nat) :
    passed fire target (fuel + 1) s = t :: passed fire target fuel t := by
  rw [passed, hdue]
  dsimp only
  rw [hrun]

theorem passed_of_error {fire : α → Action ε σ Unit} {target : τ} {s t : σ} {entry : Entry τ α}
    {rest : Agenda τ α} {halt : Halt ε} (hdue : (agenda s).pop? target = some (entry, rest))
    (hrun : fire entry.task (withAgenda s rest) = (.error halt, t)) (fuel : Nat) :
    passed fire target (fuel + 1) s = [t] := by
  rw [passed, hdue]
  dsimp only
  rw [hrun]

/-- A move that comes to an end passes the same states with more fuel. -/
theorem passed_extends {fire fire' : α → Action ε σ Unit}
    (hfire : ∀ task, (fire task).Extends (fire' task)) {target : τ} {fuel fuel' ran : Nat}
    (hfuel : fuel ≤ fuel') {s : σ} (hs : (runUntil fire target fuel ran s).1 ≠ .error .outOfFuel) :
    passed fire' target fuel' s = passed fire target fuel s := by
  induction fuel generalizing fuel' ran s with
  | zero => exact absurd rfl hs
  | succ fuel ih =>
    obtain ⟨more, rfl⟩ : ∃ more, fuel' = more + 1 := ⟨fuel' - 1, by omega⟩
    cases hpop : (agenda s).pop? target with
    | none => rw [passed_of_quiet hpop, passed_of_quiet hpop]
    | some popped =>
      obtain ⟨entry, rest⟩ := popped
      rw [runUntil_of_due hpop] at hs
      have hsame := hfire entry.task _ (Action.ne_outOfFuel_of_seq hs)
      rcases hrun : fire entry.task (withAgenda s rest) with ⟨halt | _, t⟩
      · rw [passed_of_error hpop hrun, passed_of_error hpop (hsame.trans hrun)]
      · rw [Action.seq_of_ok hrun] at hs
        rw [passed_of_ok hpop hrun, passed_of_ok hpop (hsame.trans hrun), ih (by omega) hs]

end VisualNovel.Timer
