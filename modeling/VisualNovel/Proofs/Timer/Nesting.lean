import VisualNovel.Proofs.Timer.Discipline

/-!
Tasks that move the clock themselves. A move within a move may take the clock beyond the end of the
outer one, which then sets it back when it ends. Nothing else ever does: the readings of the clock
never fall, and no timer is queued for a time before some earlier reading, exactly if no move ends
with the clock already beyond its end.
-/
namespace VisualNovel.Timer

open Relation

variable {ε τ α μ : Type}

def Event.reading? : Event τ α → Option τ
  | fired _ now => some now
  | arrived _ now => some now
  | _ => none

def readingsIn (log : List (Event τ α)) : List τ := log.filterMap Event.reading?

@[simp] theorem readingsIn_append (log log' : List (Event τ α)) :
    readingsIn (log ++ log') = readingsIn log ++ readingsIn log' := List.filterMap_append

section Single
variable (t : Entry τ α) (order : Nat) (now was : τ)

@[simp] theorem readingsIn_scheduled : readingsIn [.scheduled t] = [] := rfl
@[simp] theorem readingsIn_cancelled :
    readingsIn [(.cancelled order : Event τ α)] = [] := rfl
@[simp] theorem readingsIn_fired : readingsIn [.fired t now] = [now] := rfl
@[simp] theorem readingsIn_arrived : readingsIn [(.arrived was now : Event τ α)] = [now] := rfl

end Single

/-- From a start on no reading of the clock is earlier than one before it, and no timer is queued
for a time before an earlier reading. -/
structure Steady [LE τ] (start : τ) (log : List (Event τ α)) : Prop where
  readings : (start :: readingsIn log).Pairwise (· ≤ ·)
  queued : ∀ before t after, log = before ++ .scheduled t :: after →
    ∀ reading ∈ start :: readingsIn before, reading ≤ t.due

/-- No move ends with the clock beyond its end. -/
def InTime [LE τ] (log : List (Event τ α)) : Prop :=
  ∀ was now, .arrived was now ∈ log → was ≤ now

/-- The clock shows the last reading, and shows it when a move ends. -/
structure Timed (start now : τ) (log : List (Event τ α)) : Prop where
  now_eq : (start :: readingsIn log).getLast? = some now
  arrived : ∀ before was target after, log = before ++ .arrived was target :: after →
    (start :: readingsIn before).getLast? = some was

section Order
variable {start now now' : τ} {log : List (Event τ α)} {e : Event τ α}

theorem Timed.append (h : Timed start now log)
    (hnow : readingsIn [e] = [] ∧ now' = now ∨ readingsIn [e] = [now'])
    (harrived : ∀ was target, e = .arrived was target → was = now) :
    Timed start now' (log ++ [e]) where
  now_eq := by
    rw [readingsIn_append, ← List.cons_append]
    obtain ⟨hnone, rfl⟩ | hone := hnow
    · rw [hnone, List.append_nil, h.now_eq]
    · rw [hone, List.getLast?_concat]
  arrived := by
    intro before was target after hlog
    obtain ⟨rfl, rfl⟩ | ⟨init, hinit⟩ := eq_or_exists_of_append hlog
    · rw [harrived was target rfl, h.now_eq]
    · exact h.arrived before was target init hinit

variable [LinearOrder τ]

/-- When readings do not fall, a move has ended in time. -/
theorem Timed.inTime (h : Timed start now log) (hsteady : Steady start log) : InTime log := by
  intro was target hmem
  obtain ⟨before, after, rfl⟩ := List.append_of_mem hmem
  have hwas := List.mem_of_getLast? (h.arrived before was target after rfl)
  have hreadings := hsteady.readings
  rw [readingsIn_append, ← List.cons_append, List.pairwise_append] at hreadings
  exact hreadings.2.2 was hwas target (List.mem_cons_self ..)

/-- A record of readings that do not fall, up to the present one. -/
structure Progress (start now : τ) (log : List (Event τ α)) : Prop extends Steady start log where
  le_now : ∀ reading ∈ start :: readingsIn log, reading ≤ now

theorem Progress.append (h : Progress start now log) (hle : now ≤ now')
    (hreading : readingsIn [e] = [] ∨ readingsIn [e] = [now'])
    (hqueued : ∀ t, e = .scheduled t → now ≤ t.due) : Progress start now' (log ++ [e]) where
  readings := by
    rw [readingsIn_append, ← List.cons_append, List.pairwise_append]
    refine ⟨h.readings, ?_, fun reading hmem later hlater => ?_⟩
    · obtain hnone | hone := hreading
      · rw [hnone]
        exact .nil
      · rw [hone]
        exact List.pairwise_singleton ..
    · obtain hnone | hone := hreading
      · rw [hnone] at hlater
        cases hlater
      · rw [hone, List.mem_singleton] at hlater
        exact hlater ▸ (h.le_now reading hmem).trans hle
  queued := by
    intro before t after hlog reading hmem
    obtain ⟨rfl, rfl⟩ | ⟨init, hinit⟩ := eq_or_exists_of_append hlog
    · exact (h.le_now reading hmem).trans (hqueued t rfl)
    · exact h.queued before t init hinit reading hmem
  le_now := by
    intro reading hmem
    rw [readingsIn_append, ← List.cons_append, List.mem_append] at hmem
    obtain hmem | hmem := hmem
    · exact (h.le_now reading hmem).trans hle
    · obtain hnone | hone := hreading
      · rw [hnone] at hmem
        cases hmem
      · rw [hone, List.mem_singleton] at hmem
        exact hmem.le

theorem InTime.of_append {log' : List (Event τ α)} (h : InTime (log ++ log')) : InTime log :=
  fun was target hmem => h was target (List.mem_append_left _ hmem)

end Order

namespace Chronicle

section Order
variable [AddZeroClass τ] [LinearOrder τ] {c c' : Chronicle τ α μ}

/-- Tasks at a depth act with moves of the clock that let the tasks at the next depth fire; at the
last depth they leave the clock alone. -/
structure Nested (fire : Nat → α → Action ε (Chronicle τ α μ) Unit) : Prop where
  zero : ∀ task c, ReflTransGen Deed c (fire 0 task c).2
  succ : ∀ depth task c, ReflTransGen (Act (fire depth)) c (fire (depth + 1) task c).2

/-- From a sound state, single steps lead to another one. -/
def Leads (c c' : Chronicle τ α μ) : Prop := c.Sound → ReflTransGen Happens c c'

namespace Leads

variable {c'' : Chronicle τ α μ} {fire : α → Action ε (Chronicle τ α μ) Unit}

theorem refl (c : Chronicle τ α μ) : c.Leads c := fun _ => .refl

theorem of_quiet {target : τ} (hpop : c.agenda.pop? target = none) :
    c.Leads (withAgenda c { c.agenda with now := target }) := by
  intro hc
  rw [withAgenda_of_quiet]
  exact .single (.arrives (hc.lt_due (Agenda.pop?_eq_none hpop)))

variable [AddLeftMono τ]

theorem trans (h : c.Leads c') (h' : c'.Leads c'') : c.Leads c'' :=
  fun hc => (h hc).trans (h' (sound_of_path hc (h hc)))

theorem of_due (hfire : ∀ task (c : Chronicle τ α μ), c.Leads (fire task c).2) {target : τ}
    {t : Entry τ α} {rest : Agenda τ α} (hpop : c.agenda.pop? target = some (t, rest)) :
    c.Leads (fire t.task (withAgenda c rest)).2 := by
  intro hc
  obtain ⟨queue, hqueue, -, hrest⟩ := hc.withAgenda_of_due hpop
  have hstep : Happens c (c.fireNext t queue) := .fires hqueue
  rw [hrest]
  exact .head hstep (hfire t.task _ (hc.happens hstep))

theorem run (hfire : ∀ task (c : Chronicle τ α μ), c.Leads (fire task c).2) (move : Move τ)
    (fuel : Nat) (c : Chronicle τ α μ) : c.Leads (move.run fire fuel c).2 := by
  cases move with
  | advance seconds =>
    exact runUntil_relates refl trans (fun _ _ _ _ => of_due hfire) (fun _ _ => of_quiet) _ fuel 0 c
  | idle limit =>
    exact runUntilQuiet_relates refl trans (fun _ _ _ _ => of_due hfire) (fun _ _ => of_quiet)
      _ fuel 0 c

theorem of_acts (hfire : ∀ task (c : Chronicle τ α μ), c.Leads (fire task c).2)
    (h : ReflTransGen (Act fire) c c') : c.Leads c' := by
  induction h with
  | refl => exact refl c
  | tail _ hact ih =>
    cases hact with
    | deed hdeed => exact ih.trans fun _ => .single (.deed hdeed)
    | move move _ fuel => exact ih.trans (run hfire move fuel _)

end Leads

theorem timed_of_happens {start : τ} (h : Timed start c.agenda.now c.log) (hstep : Happens c c') :
    Timed start c'.agenda.now c'.log := by
  cases hstep with
  | deed hdeed =>
    have hstands := hdeed.standing.1
    cases hdeed with
    | callLater delay task => exact h.append (.inl ⟨rfl, hstands⟩) fun _ _ he => nomatch he
    | cancel horder => exact h.append (.inl ⟨rfl, hstands⟩) fun _ _ he => nomatch he
    | remember memory => exact h
  | fires hqueue => exact h.append (.inr rfl) fun _ _ he => nomatch he
  | arrives hlate =>
    refine h.append (.inr rfl) fun _ _ he => ?_
    cases he
    rfl

theorem timed_of_path {memory : μ} (h : ReflTransGen Happens (opening memory) c) :
    Timed 0 c.agenda.now c.log := by
  induction h with
  | refl => exact ⟨rfl, fun before was target after h => by simp [opening] at h⟩
  | tail _ hstep ih => exact timed_of_happens ih hstep

variable [AddLeftMono τ]

theorem Nested.leads {fire : Nat → α → Action ε (Chronicle τ α μ) Unit} (hfire : Nested fire)
    (depth : Nat) (task : α) (c : Chronicle τ α μ) : c.Leads (fire depth task c).2 := by
  induction depth generalizing task c with
  | zero => exact fun _ => happens_of_deeds (hfire.zero task c)
  | succ depth ih => exact .of_acts ih (hfire.succ depth task c)

theorem progress_of_happens {start : τ} (hc : c.Sound) (h : Progress start c.agenda.now c.log)
    (hstep : Happens c c') (hintime : InTime c'.log) : Progress start c'.agenda.now c'.log := by
  cases hstep with
  | deed hdeed =>
    have hstands := hdeed.standing.1
    cases hdeed with
    | callLater delay task =>
      refine h.append hstands.ge (.inl rfl) fun t he => ?_
      cases he
      exact c.agenda.now_le_coming delay task
    | cancel horder => exact h.append hstands.ge (.inl rfl) fun _ he => nomatch he
    | remember memory => exact h
  | @fires t rest hqueue =>
    have hdue : c.agenda.now ≤ t.due := hc.timely t (hqueue ▸ List.mem_cons_self ..)
    exact h.append hdue (.inr rfl) fun _ he => nomatch he
  | @arrives target hlate =>
    have hahead : c.agenda.now ≤ target :=
      hintime _ _ (List.mem_append_right _ (List.mem_singleton_self _))
    exact h.append hahead (.inr rfl) fun _ he => nomatch he

theorem progress_of_path {memory : μ} (h : ReflTransGen Happens (opening memory) c)
    (hintime : InTime c.log) : Progress 0 c.agenda.now c.log := by
  induction h with
  | refl =>
    exact ⟨⟨List.pairwise_singleton .., fun before t after h => by simp [opening] at h⟩,
      fun reading hmem => (List.mem_singleton.mp hmem).le⟩
  | tail hpath hstep ih =>
    have hc := sound_of_path (sound_opening memory) hpath
    obtain ⟨es, hes⟩ := hstep.exists_log
    exact progress_of_happens hc (ih (hes ▸ hintime).of_append) hstep hintime

/-- The readings of a program's clock do not fall exactly if all its moves end in time. -/
theorem steady_iff_inTime {memory : μ} (h : ReflTransGen Happens (opening memory) c) :
    Steady 0 c.log ↔ InTime c.log :=
  ⟨(timed_of_path h).inTime, fun hintime => (progress_of_path h hintime).toSteady⟩

/-- A move that comes to an end does so in time exactly if none of its tasks leaves the clock beyond
its end. -/
theorem runUntil_inTime_iff {fire : α → Action ε (Chronicle τ α μ) Unit}
    (hfire : ∀ task (c : Chronicle τ α μ), c.Leads (fire task c).2) (hc : c.Sound) {target : τ}
    (hnow : c.agenda.now ≤ target) {fuel ran n : Nat}
    (hrun : runUntil fire target fuel ran c = (.ok n, c')) :
    ∃ es was, c'.log = c.log ++ es ++ [.arrived was target] ∧
      (was ≤ target ↔ ∀ s ∈ passed fire target fuel c, s.agenda.now ≤ target) := by
  induction fuel generalizing ran c with
  | zero => cases hrun
  | succ fuel ih =>
    cases hpop : c.agenda.pop? target with
    | none =>
      rw [runUntil_of_quiet hpop] at hrun
      cases hrun
      refine ⟨[], c.agenda.now, ?_, ?_⟩
      · rw [List.append_nil]
        exact congrArg Chronicle.log (withAgenda_of_quiet c target)
      · rw [passed_of_quiet hpop]
        exact iff_of_true hnow fun _ hs => nomatch hs
    | some popped =>
      obtain ⟨t, rest⟩ := popped
      rw [runUntil_of_due hpop] at hrun
      have hpath := Leads.of_due hfire hpop hc
      rcases htask : fire t.task (withAgenda c rest) with ⟨halt | _, s⟩
      · rw [Action.seq_of_error htask] at hrun
        cases hrun
      · rw [Action.seq_of_ok htask] at hrun
        simp only [htask] at hpath
        have hs := sound_of_path hc hpath
        obtain ⟨before, hbefore⟩ := exists_log_of_path hpath
        rw [passed_of_ok hpop htask]
        by_cases hbeyond : s.agenda.now ≤ target
        · obtain ⟨es, was, hlog, hiff⟩ := ih hs hbeyond hrun
          refine ⟨before ++ es, was, by simp only [hlog, hbefore, List.append_assoc], ?_⟩
          rw [hiff, List.forall_mem_cons]
          exact (and_iff_right hbeyond).symm
        · -- Whatever still waits is due later than the clock shows, so the outer move ends here.
          have hlate : s.agenda.pop? target = none :=
            Agenda.pop?_of_coming fun t ht => (not_le.mp hbeyond).trans_le (hs.timely t ht)
          cases fuel with
          | zero => cases hrun
          | succ fuel =>
            rw [runUntil_of_quiet hlate] at hrun
            cases hrun
            refine ⟨before, s.agenda.now, ?_, iff_of_false hbeyond fun hall => ?_⟩
            · rw [← hbefore]
              exact congrArg Chronicle.log (withAgenda_of_quiet s target)
            · exact hbeyond (hall s (List.mem_cons_self ..))

/-- The clock of a program with moves inside of moves, which shows the last of its readings, never
falls, and no timer is queued for a time that some reading has passed, exactly if every move ends in
time; and a move that comes to an end, at whatever depth, ends in time exactly if none of its tasks
leaves the clock beyond its end. -/
theorem clock_never_falls_iff {fire : Nat → α → Action ε (Chronicle τ α μ) Unit}
    (hfire : Nested fire) {memory : μ} {depth : Nat}
    (hc : ReflTransGen (Act (fire depth)) (opening memory) c) :
    (0 :: readingsIn c.log).getLast? = some c.agenda.now ∧ (Steady 0 c.log ↔ InTime c.log) ∧
      ∀ (inner : Nat) (before after : Chronicle τ α μ) (target : τ) (fuel n : Nat),
        ReflTransGen Happens (opening memory) before → before.agenda.now ≤ target →
        runUntil (fire inner) target fuel 0 before = (.ok n, after) →
        ∃ es was, after.log = before.log ++ es ++ [.arrived was target] ∧
          (was ≤ target ↔
            ∀ s ∈ passed (fire inner) target fuel before, s.agenda.now ≤ target) := by
  have hopening : (opening memory : Chronicle τ α μ).Sound := sound_opening memory
  have hpath : ReflTransGen Happens (opening memory) c :=
    Leads.of_acts (hfire.leads depth) hc hopening
  refine ⟨(timed_of_path hpath).now_eq, steady_iff_inTime hpath, ?_⟩
  intro inner before after target fuel n hreached hnow hrun
  exact runUntil_inTime_iff (hfire.leads inner) (sound_of_path hopening hreached) hnow hrun

end Order

/-- A task that moves the clock on, far beyond the move that lets it fire. -/
def overtake : Nat → Bool → Action String (Chronicle Nat Bool Unit) Unit
  | 0, _ => fun c => (.error .outOfFuel, c)
  | _ + 1, false => fun c => (.ok (), c)
  | depth + 1, true => fun c =>
      let (result, c) := Move.run (overtake depth) 9 (.advance 10) c
      (result.map fun _ => (), c)

theorem overtake_nested : Nested overtake where
  zero _ _ := .refl
  succ depth task c := by
    cases task with
    | false => exact .refl
    | true => exact .single (.move c (.advance 10) (Nat.zero_le 10) 9)

/-- Two timers, due at 1 and 5, and a move to 2. -/
def overtaken : Chronicle Nat Bool Unit :=
  (Move.run (overtake 2) 9 (.advance 2)
    (((opening ()).callLater 1 true).callLater 5 false)).2

theorem overtaken_reached : ReflTransGen (Act (overtake 2)) (opening ()) overtaken :=
  .tail (.tail (.single (.deed (.callLater _ 1 true))) (.deed (.callLater _ 5 false)))
    (.move _ (.advance 2) (Nat.zero_le 2) 9)

theorem clock_never_falls_iff_when_overtaken :
    Nested overtake ∧ ReflTransGen (Act (overtake 2)) (opening ()) overtaken ∧
      (Steady 0 overtaken.log ↔ InTime overtaken.log) := by
  have hiff := @clock_never_falls_iff String Nat Bool Unit _ _ _ _ _ overtake_nested () 2
    overtaken_reached
  exact ⟨overtake_nested, overtaken_reached, hiff.2.1⟩

/-- The inner move takes the clock to 11, the outer one back to 2. -/
theorem an_inner_move_is_taken_back :
    ReflTransGen (Act (overtake 2)) (opening ()) overtaken ∧
      readingsIn overtaken.log = [1, 5, 11, 2] ∧ ¬ Steady 0 overtaken.log := by
  have hreadings : readingsIn overtaken.log = [1, 5, 11, 2] := by decide
  refine ⟨overtaken_reached, hreadings, fun hsteady => ?_⟩
  have hpairs := hsteady.readings
  rw [hreadings] at hpairs
  revert hpairs
  decide

end Chronicle

end VisualNovel.Timer
