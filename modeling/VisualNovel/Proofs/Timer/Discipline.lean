import Mathlib.Algebra.GroupWithZero.Nat
import Mathlib.Algebra.Order.Group.Nat
import Mathlib.Logic.Relation
import VisualNovel.Proofs.Timer.Chronicle
import VisualNovel.Proofs.Timer.Clock

/-!
What a program may rely on that works with timers: whatever its tasks schedule, cancel and
remember, and wherever they fail, every timer fires at most once, on time and in order, and none
gets lost. The program's state carries a record of what happened, which moving the clock writes
itself.
-/
namespace VisualNovel.Timer

open Relation

variable {ε τ α μ : Type}

/-- `memory` is whatever else the tasks work on. -/
structure Chronicle (τ α μ : Type) where
  agenda : Agenda τ α
  memory : μ
  log : List (Event τ α) := []

/-- What moving the clock has done to an agenda: its first timer went, or the clock moved alone. -/
def Agenda.movedTo (old new : Agenda τ α) : Event τ α :=
  match old.queue with
  | [] => .arrived old.now new.now
  | t :: rest =>
      if new.queue.length = rest.length then .fired t new.now else .arrived old.now new.now

instance : HasAgenda (Chronicle τ α μ) τ α where
  agenda c := c.agenda
  withAgenda c a := { c with agenda := a, log := c.log ++ [c.agenda.movedTo a] }

@[simp] theorem agenda_chronicle (c : Chronicle τ α μ) : agenda c = c.agenda := rfl

inductive Move (τ : Type) where
  | advance (seconds : τ)
  | idle (limit : τ)

namespace Move

/-- How far the clock may go. -/
def span : Move τ → τ
  | advance seconds => seconds
  | idle limit => limit

def run {σ : Type} [HasAgenda σ τ α] [Add τ] [LT τ] [DecidableLT τ] [LE τ] [DecidableLE τ]
    (fire : α → Action ε σ Unit) (fuel : Nat) : Move τ → Action ε σ Nat
  | advance seconds => Timer.advance fire seconds fuel
  | idle limit => runUntilIdle fire limit fuel

end Move

namespace Chronicle

section Program
variable [Zero τ] [Add τ] [LT τ] [DecidableLT τ]

def opening (memory : μ) : Chronicle τ α μ := ⟨.starting, memory, []⟩

def callLater (c : Chronicle τ α μ) (delay : τ) (task : α) : Chronicle τ α μ :=
  { c with
    agenda := (c.agenda.callLater delay task).2
    log := c.log ++ [.scheduled (c.agenda.coming delay task)] }

def cancel (c : Chronicle τ α μ) (order : Nat) : Chronicle τ α μ :=
  { c with agenda := c.agenda.cancel order, log := c.log ++ [.cancelled order] }

def fireNext (c : Chronicle τ α μ) (t : Entry τ α) (rest : List (Entry τ α)) : Chronicle τ α μ :=
  { c with
    agenda := { c.agenda with now := t.due, queue := rest }
    log := c.log ++ [.fired t t.due] }

def arrive (c : Chronicle τ α μ) (target : τ) : Chronicle τ α μ :=
  { c with
    agenda := { c.agenda with now := target }
    log := c.log ++ [.arrived c.agenda.now target] }

/-- What a program does while the clock stands: it schedules a timer, cancels any timer that has
been scheduled, or changes what it remembers. -/
inductive Deed : Chronicle τ α μ → Chronicle τ α μ → Prop
  | callLater (c : Chronicle τ α μ) (delay : τ) (task : α) : Deed c (c.callLater delay task)
  | cancel (c : Chronicle τ α μ) {order : Nat} (horder : order < c.agenda.nextOrder) :
      Deed c (c.cancel order)
  | remember (c : Chronicle τ α μ) (memory : μ) : Deed c { c with memory }

/-- What a program does on the whole: such deeds, and moves of the clock. -/
inductive Act [LE τ] [DecidableLE τ] (fire : α → Action ε (Chronicle τ α μ) Unit) :
    Chronicle τ α μ → Chronicle τ α μ → Prop
  | deed {c c' : Chronicle τ α μ} (h : Deed c c') : Act fire c c'
  | move (c : Chronicle τ α μ) (move : Move τ) (hspan : 0 ≤ move.span) (fuel : Nat) :
      Act fire c (move.run fire fuel c).2

/-- The steps that all of this is made of. -/
inductive Happens : Chronicle τ α μ → Chronicle τ α μ → Prop
  | deed {c c' : Chronicle τ α μ} (h : Deed c c') : Happens c c'
  | fires {c : Chronicle τ α μ} {t : Entry τ α} {rest : List (Entry τ α)}
      (hqueue : c.agenda.queue = t :: rest) : Happens c (c.fireNext t rest)
  | arrives {c : Chronicle τ α μ} {target : τ} (hlate : ∀ t ∈ c.agenda.queue, target < t.due) :
      Happens c (c.arrive target)

/-- A step that does not take the clock back. -/
def Onward [LE τ] (c c' : Chronicle τ α μ) : Prop := Happens c c' ∧ c.agenda.now ≤ c'.agenda.now

/-- In the middle of a move of the clock: a task has started, and done something by now. -/
inductive Midway [LE τ] (fire : α → Action ε (Chronicle τ α μ) Unit) :
    Chronicle τ α μ → Chronicle τ α μ → Prop
  | task {c s : Chronicle τ α μ} {t : Entry τ α} {rest : List (Entry τ α)}
      (hqueue : c.agenda.queue = t :: rest) (hdeeds : ReflTransGen Deed (c.fireNext t rest) s) :
      Midway fire c s
  | later {c c' s : Chronicle τ α μ} {t : Entry τ α} {rest : List (Entry τ α)}
      (hqueue : c.agenda.queue = t :: rest) (htask : fire t.task (c.fireNext t rest) = (.ok (), c'))
      (hrest : Midway fire c' s) : Midway fire c s
  /-- Between two due times while timers wait, the clock arrives at the earlier one. -/
  | arrives {c s : Chronicle τ α μ} {target : τ} (hlate : ∀ t ∈ c.agenda.queue, target < t.due)
      (hnow : c.agenda.now ≤ target) (hrest : Midway fire (c.arrive target) s) : Midway fire c s

end Program

section Order
variable {c c' : Chronicle τ α μ}

theorem withAgenda_of_quiet (c : Chronicle τ α μ) (target : τ) :
    withAgenda c { c.agenda with now := target } = c.arrive target := by
  cases hqueue : c.agenda.queue <;> simp [withAgenda, Agenda.movedTo, hqueue, arrive]

variable [LinearOrder τ]

def Sound (c : Chronicle τ α μ) : Prop := Faithful c.agenda c.log

theorem Sound.lt_due (hc : c.Sound) {target : τ}
    (hhead : ∀ t ∈ c.agenda.queue.head?, target < t.due) :
    ∀ t ∈ c.agenda.queue, target < t.due := by
  intro t ht
  cases hqueue : c.agenda.queue with
  | nil =>
    rw [hqueue] at ht
    cases ht
  | cons first rest =>
    have hfirst : target < first.due := hhead first (by rw [hqueue]; rfl)
    obtain rfl | ht := List.mem_cons.mp (hqueue ▸ ht)
    · exact hfirst
    · exact hfirst.trans_le ((List.pairwise_cons.mp (hqueue ▸ hc.sorted)).1 t ht).due_le

/-- What moving the clock writes down when the next timer goes. -/
theorem Sound.withAgenda_of_due (hc : c.Sound) {target : τ} {t : Entry τ α} {rest : Agenda τ α}
    (hpop : c.agenda.pop? target = some (t, rest)) :
    ∃ queue, c.agenda.queue = t :: queue ∧ t.due ≤ target ∧
      withAgenda c rest = c.fireNext t queue := by
  obtain ⟨queue, hqueue, hdue, rfl⟩ := Agenda.pop?_eq_some hpop
  have hnow := later_eq_right (hc.timely t (hqueue ▸ List.mem_cons_self ..))
  exact ⟨queue, hqueue, not_lt.mp hdue, by
    simp [withAgenda, Agenda.movedTo, hqueue, hnow, fireNext]⟩

/-- A move of the clock ends at once if nothing falls due, and else lets the first timer fire. -/
theorem Sound.runUntil_cases (hc : c.Sound) (fire : α → Action ε (Chronicle τ α μ) Unit)
    (target : τ) (fuel ran : Nat) :
    ((∀ t ∈ c.agenda.queue, target < t.due) ∧
        runUntil fire target (fuel + 1) ran c = (.ok ran, c.arrive target)) ∨
      ∃ t rest, c.agenda.queue = t :: rest ∧ t.due ≤ target ∧
        runUntil fire target (fuel + 1) ran c =
          (fire t.task).seq (fun () => runUntil fire target fuel (ran + 1))
            (c.fireNext t rest) := by
  cases hpop : c.agenda.pop? target with
  | none =>
    refine .inl ⟨hc.lt_due (Agenda.pop?_eq_none hpop), ?_⟩
    rw [runUntil_of_quiet hpop, ← withAgenda_of_quiet]
    rfl
  | some popped =>
    obtain ⟨t, rest⟩ := popped
    obtain ⟨queue, hqueue, hdue, hrest⟩ := hc.withAgenda_of_due hpop
    exact .inr ⟨t, queue, hqueue, hdue, by rw [runUntil_of_due hpop, hrest]⟩

/-- What the record of a program tells whenever one looks at it. -/
structure Orderly (c : Chronicle τ α μ) : Prop where
  once : (firedOrders c.log).Nodup
  uncancelled : ∀ before t now after, c.log = before ++ .fired t now :: after →
    t.order ∉ cancelledIn before
  increasing : (firedIn c.log).Pairwise fun p q => p.1.Before q.1
  punctual : ∀ p ∈ firedIn c.log, p.2 = p.1.due
  waits_iff : ∀ t, t ∈ c.agenda.queue ↔ Waits c.log t
  balance : c.agenda.pending + (firedIn c.log).length + (droppedIn c.log).length =
    (scheduledIn c.log).length

theorem Sound.orderly (hc : c.Sound) (hlog : Ascending c.agenda c.log) : c.Orderly where
  once := hc.once
  uncancelled := hc.uncancelled
  increasing := hlog.increasing
  punctual := hc.punctual
  waits_iff := hc.waits_iff
  balance := Faithful.balance hc

theorem Sound.le_order (hc : c.Sound) (hc' : c'.Sound) {es : List (Event τ α)}
    (hlog : c'.log = c.log ++ es) : ∀ t ∈ scheduledIn es, c.agenda.nextOrder ≤ t.order := by
  intro t ht
  by_contra hold
  have hnodup : ((scheduledIn c'.log).map (·.order)).Nodup := hc'.numbered ▸ List.nodup_range
  rw [hlog, scheduledIn_append, List.map_append, hc.numbered] at hnodup
  exact List.disjoint_of_nodup_append hnodup (List.mem_range.mpr (not_le.mp hold))
    (List.mem_map_of_mem ht)

theorem Sound.waits_iff_append (hc : c.Sound) (hc' : c'.Sound) {es : List (Event τ α)}
    (hlog : c'.log = c.log ++ es) (t : Entry τ α) :
    t ∈ c'.agenda.queue ↔ (t ∈ c.agenda.queue ∨ t ∈ scheduledIn es) ∧
      t.order ∉ cancelledIn es ∧ t.order ∉ firedOrders es := by
  have hwaits := Faithful.waits_iff hc t
  rw [Faithful.waits_iff hc', hwaits, hlog]
  simp only [Waits, scheduledIn_append, cancelledIn_append, firedOrders_append, List.mem_append,
    not_or]
  constructor
  · rintro ⟨hscheduled, hcancelled, hfired⟩
    exact ⟨hscheduled.imp (fun h => ⟨h, hcancelled.1, hfired.1⟩) id, hcancelled.2, hfired.2⟩
  · rintro ⟨⟨hscheduled, hcancelled, hfired⟩ | hscheduled, hcancelled', hfired'⟩
    · exact ⟨.inl hscheduled, ⟨hcancelled, hcancelled'⟩, hfired, hfired'⟩
    · have hnew := hc.le_order hc' hlog t hscheduled
      exact ⟨.inr hscheduled, ⟨fun h => hnew.not_gt (hc.cancelled_lt _ h), hcancelled'⟩,
        fun h => hnew.not_gt (hc.fired_lt h), hfired'⟩

/-- What a move of the clock up to a deadline does, `es` being what it adds to the record. Whether
it ends or a task fails, just those timers still wait that waited before or came up, and have been
neither cancelled nor fired. If it ends, every timer that was due in time has been served. -/
structure Proper (c : Chronicle τ α μ) (deadline : τ) (result : Except (Halt ε) Nat)
    (c' : Chronicle τ α μ) (es : List (Event τ α)) : Prop where
  log_eq : c'.log = c.log ++ es
  waits_iff : ∀ t, t ∈ c'.agenda.queue ↔ (t ∈ c.agenda.queue ∨ t ∈ scheduledIn es) ∧
    t.order ∉ cancelledIn es ∧ t.order ∉ firedOrders es
  fired_due : ∀ p ∈ firedIn es, p.1.due ≤ c'.agenda.now
  now_le : c'.agenda.now ≤ deadline
  count : ∀ n, result = .ok n → n = (firedIn es).length
  served : ∀ n, result = .ok n → ∀ t, t ∈ c.agenda.queue ∨ t ∈ scheduledIn es →
    t.due ≤ deadline → t.order ∈ cancelledIn es ∨ t.order ∈ firedOrders es

variable [AddZeroClass τ]

theorem sound_opening (memory : μ) : (opening memory : Chronicle τ α μ).Sound := faithful_starting

/-- The clock stands still while a program acts, and nothing fires. -/
theorem Deed.standing (h : Deed c c') :
    c'.agenda.now = c.agenda.now ∧ firedIn c'.log = firedIn c.log := by
  cases h with
  | callLater delay task => exact ⟨rfl, by simp [Chronicle.callLater]⟩
  | cancel horder =>
    refine ⟨?_, by simp [Chronicle.cancel]⟩
    simp only [Chronicle.cancel, Agenda.cancel]
    split <;> rfl
  | remember memory => exact ⟨rfl, rfl⟩

theorem Happens.exists_log (h : Happens c c') : ∃ es, c'.log = c.log ++ es := by
  cases h with
  | deed h =>
    cases h with
    | callLater delay task => exact ⟨_, rfl⟩
    | cancel horder => exact ⟨_, rfl⟩
    | remember memory => exact ⟨[], (List.append_nil _).symm⟩
  | fires hqueue => exact ⟨_, rfl⟩
  | arrives hlate => exact ⟨_, rfl⟩

theorem Sound.onward_fireNext (hc : c.Sound) {t : Entry τ α} {rest : List (Entry τ α)}
    (hqueue : c.agenda.queue = t :: rest) : Onward c (c.fireNext t rest) :=
  ⟨.fires hqueue, hc.timely t (hqueue ▸ List.mem_cons_self ..)⟩

theorem happens_of_onward (h : ReflTransGen Onward c c') : ReflTransGen Happens c c' :=
  h.lift id fun _ _ hstep => hstep.1

theorem happens_of_deeds (h : ReflTransGen Deed c c') : ReflTransGen Happens c c' :=
  h.lift id fun _ _ => .deed

theorem exists_log_of_path (h : ReflTransGen Happens c c') : ∃ es, c'.log = c.log ++ es := by
  induction h with
  | refl => exact ⟨[], (List.append_nil _).symm⟩
  | tail _ hstep ih =>
    obtain ⟨es, hes⟩ := ih
    obtain ⟨more, hmore⟩ := hstep.exists_log
    exact ⟨es ++ more, by rw [hmore, hes, List.append_assoc]⟩

theorem onward_of_deeds (h : ReflTransGen Deed c c') : ReflTransGen Onward c c' :=
  h.lift id fun _ _ hdeed => ⟨.deed hdeed, hdeed.standing.1.ge⟩

theorem standing_of_deeds (h : ReflTransGen Deed c c') :
    c'.agenda.now = c.agenda.now ∧ firedIn c'.log = firedIn c.log := by
  induction h with
  | refl => exact ⟨rfl, rfl⟩
  | tail _ hdeed ih => exact ⟨hdeed.standing.1.trans ih.1, hdeed.standing.2.trans ih.2⟩

variable [AddLeftMono τ]

theorem Sound.deed (hc : c.Sound) (h : Deed c c') : c'.Sound := by
  cases h with
  | callLater delay task => exact Faithful.callLater hc delay task
  | cancel horder => exact Faithful.cancel hc horder
  | remember memory => exact hc

theorem Sound.happens (hc : c.Sound) (h : Happens c c') : c'.Sound := by
  cases h with
  | deed h => exact hc.deed h
  | fires hqueue => exact Faithful.fires hc hqueue
  | arrives hlate => exact Faithful.arrives hc (fun t ht => (hlate t ht).le) _

theorem Onward.ascending (hc : c.Sound) (hlog : Ascending c.agenda c.log) (h : Onward c c') :
    Ascending c'.agenda c'.log := by
  obtain ⟨h, hnow⟩ := h
  cases h with
  | deed h =>
    cases h with
    | callLater delay task => exact hlog.callLater hc delay task
    | cancel horder => exact hlog.cancel _
    | remember memory => exact hlog
  | fires hqueue => exact hlog.fires hc hqueue
  | arrives hlate => exact hlog.arrives hnow _

theorem sound_of_path (hc : c.Sound) (h : ReflTransGen Happens c c') : c'.Sound := by
  induction h with
  | refl => exact hc
  | tail _ hstep ih => exact ih.happens hstep

theorem sound_of_onward (hc : c.Sound) (h : ReflTransGen Onward c c') : c'.Sound :=
  sound_of_path hc (happens_of_onward h)

theorem ascending_of_path (hc : c.Sound) (hlog : Ascending c.agenda c.log)
    (h : ReflTransGen Onward c c') : Ascending c'.agenda c'.log := by
  induction h with
  | refl => exact hlog
  | tail hpath hstep ih => exact hstep.ascending (sound_of_onward hc hpath) ih

/-- What has happened when a move of the clock ends, or breaks off. -/
structure Served (c : Chronicle τ α μ) (deadline : τ) (ran : Nat)
    (outcome : Except (Halt ε) Nat × Chronicle τ α μ) : Prop where
  path : ReflTransGen Onward c outcome.2
  now_le : outcome.2.agenda.now ≤ deadline
  count {n : Nat} : outcome.1 = .ok n →
    n + (firedIn c.log).length = ran + (firedIn outcome.2.log).length
  lt_due {n : Nat} : outcome.1 = .ok n → ∀ t ∈ outcome.2.agenda.queue, deadline < t.due

variable {fire : α → Action ε (Chronicle τ α μ) Unit}

section Fire
variable (hfire : ∀ task c, ReflTransGen Deed c (fire task c).2)
include hfire

theorem Midway.path (hc : c.Sound) (h : Midway fire c c') : ReflTransGen Onward c c' := by
  induction h with
  | task hqueue hdeeds => exact .head (hc.onward_fireNext hqueue) (onward_of_deeds hdeeds)
  | @later c c₁ s t rest hqueue htask _ ih =>
    have hdeeds := hfire t.task (c.fireNext t rest)
    rw [htask] at hdeeds
    have hpath := ReflTransGen.head (hc.onward_fireNext hqueue) (onward_of_deeds hdeeds)
    exact hpath.trans (ih (sound_of_onward hc hpath))
  | arrives hlate hnow _ ih =>
    exact .head ⟨.arrives hlate, hnow⟩ (ih (hc.happens (.arrives hlate)))

theorem runUntil_served (hc : c.Sound) {target : τ} (hnow : c.agenda.now ≤ target)
    (fuel ran : Nat) : Served c target ran (runUntil fire target fuel ran c) ∧
      ∀ n, (runUntil fire target fuel ran c).1 = .ok n →
        (runUntil fire target fuel ran c).2.agenda.now = target := by
  induction fuel generalizing ran c with
  | zero => exact ⟨⟨.refl, hnow, (nomatch ·), (nomatch ·)⟩, fun _ h => nomatch h⟩
  | succ fuel ih =>
    obtain ⟨hlate, hrun⟩ | ⟨t, rest, hqueue, hdue, hrun⟩ := hc.runUntil_cases fire target fuel ran
    · rw [hrun]
      refine ⟨⟨.single ⟨.arrives hlate, hnow⟩, le_refl target, fun h => ?_, fun _ => hlate⟩,
        fun _ _ => rfl⟩
      cases h
      simp [arrive]
    · rw [hrun]
      have hdeeds := hfire t.task (c.fireNext t rest)
      obtain ⟨hstands, hfired⟩ := standing_of_deeds hdeeds
      have hpath := ReflTransGen.head (hc.onward_fireNext hqueue) (onward_of_deeds hdeeds)
      rcases htask : fire t.task (c.fireNext t rest) with ⟨halt | _, c'⟩
      · rw [Action.seq_of_error htask]
        rw [htask] at hpath hstands
        exact ⟨⟨hpath, hstands.trans_le hdue, (nomatch ·), (nomatch ·)⟩, fun _ h => nomatch h⟩
      · rw [Action.seq_of_ok htask]
        simp only [htask] at hpath hstands hfired
        have hc' := sound_of_onward hc hpath
        obtain ⟨hserved, hends⟩ := ih hc' (hstands.trans_le hdue) (ran + 1)
        refine ⟨⟨hpath.trans hserved.path, hserved.now_le, fun h => ?_, hserved.lt_due⟩, hends⟩
        have hcount := hserved.count h
        have hone : (firedIn c'.log).length = (firedIn c.log).length + 1 := by
          rw [hfired]
          simp [fireNext]
        omega

theorem runUntilQuiet_served (hc : c.Sound) {deadline : τ} (hnow : c.agenda.now ≤ deadline)
    (fuel ran : Nat) : Served c deadline ran (runUntilQuiet fire deadline fuel ran c) := by
  induction fuel generalizing ran c with
  | zero => exact ⟨.refl, hnow, (nomatch ·), (nomatch ·)⟩
  | succ fuel ih =>
    by_cases hidle : ∀ due, c.agenda.nextDue? = some due → ¬ due ≤ deadline
    · rw [runUntilQuiet_of_idle hidle]
      refine ⟨.refl, hnow, fun h => by cases h; rfl, fun _ => hc.lt_due fun t ht => ?_⟩
      exact not_le.mp (hidle t.due (by rw [Agenda.nextDue?, Option.mem_def.mp ht]; rfl))
    · simp only [Classical.not_forall, Decidable.not_not] at hidle
      obtain ⟨due, hdue, hle⟩ := hidle
      rw [runUntilQuiet_of_due hdue hle]
      have hfirst : c.agenda.now ≤ due := by
        obtain ⟨t, ht, rfl⟩ := Option.map_eq_some_iff.mp hdue
        exact hc.timely t (List.mem_of_head? ht)
      obtain ⟨hserved, hends⟩ := runUntil_served hfire hc hfirst fuel 0
      rcases hmove : runUntil fire due fuel 0 c with ⟨halt | more, c'⟩
      · rw [Action.seq_of_error hmove]
        rw [hmove] at hserved
        exact ⟨hserved.path, hserved.now_le.trans hle, (nomatch ·), (nomatch ·)⟩
      · rw [Action.seq_of_ok hmove]
        simp only [hmove] at hserved hends
        have hc' := sound_of_onward hc hserved.path
        have hrest := ih hc' ((hends more rfl).trans_le hle) (ran + more)
        refine ⟨hserved.path.trans hrest.path, hrest.now_le, fun h => ?_, hrest.lt_due⟩
        have hcount : more + (firedIn c.log).length = 0 + (firedIn c'.log).length :=
          hserved.count rfl
        have hmore := hrest.count h
        dsimp only at hmore ⊢
        omega

theorem Sound.run_served (hc : c.Sound) (move : Move τ) (hspan : 0 ≤ move.span) (fuel : Nat) :
    Served c (c.agenda.now + move.span) 0 (move.run fire fuel c) := by
  have hnow : c.agenda.now ≤ c.agenda.now + move.span := le_add_of_nonneg_right hspan
  cases move with
  | advance seconds => exact (runUntil_served hfire hc hnow fuel 0).1
  | idle limit => exact runUntilQuiet_served hfire hc hnow fuel 0

end Fire

theorem Served.proper {deadline : τ} {outcome : Except (Halt ε) Nat × Chronicle τ α μ}
    (hc : c.Sound) (hlog : Ascending c.agenda c.log) (h : Served c deadline 0 outcome) :
    ∃ es, Proper c deadline outcome.1 outcome.2 es := by
  have hc' := sound_of_onward hc h.path
  obtain ⟨es, hes⟩ := exists_log_of_path (happens_of_onward h.path)
  have hwaits := hc.waits_iff_append hc' hes
  refine ⟨es, hes, hwaits, fun p hp => ?_, h.now_le, fun n hn => ?_, fun n hn t ht hdue => ?_⟩
  · refine (ascending_of_path hc hlog h.path).passed p ?_
    rw [hes, firedIn_append]
    exact List.mem_append_right _ hp
  · have hcount := h.count hn
    rw [hes, firedIn_append, List.length_append] at hcount
    omega
  · by_contra hunserved
    obtain ⟨hcancelled, hfired⟩ := not_or.mp hunserved
    exact (h.lt_due hn t ((hwaits t).mpr ⟨ht, hcancelled, hfired⟩)).not_ge hdue

section Reached
variable (hfire : ∀ task c, ReflTransGen Deed c (fire task c).2) {memory : μ}
  (hc : ReflTransGen (Act fire) (opening memory) c)
include hfire hc

theorem onward_of_reached : ReflTransGen Onward (opening memory) c := by
  induction hc with
  | refl => exact .refl
  | tail _ hact ih =>
    cases hact with
    | deed hdeed => exact ih.trans (onward_of_deeds (.single hdeed))
    | move move hspan fuel =>
      have hsound := sound_of_onward (sound_opening memory) ih
      exact ih.trans (hsound.run_served hfire move hspan fuel).path

/-- Whatever the tasks do, timers fire at most once, never after they were cancelled, at their due
times and in order, and each is waiting, fired or dropped, also in the middle of a move of the
clock; and every move, also one that a task breaks off, loses none and serves what is due. -/
theorem timers_fire_once_in_order_and_on_time :
    c.Orderly ∧ (∀ s, Midway fire c s → s.Orderly) ∧
      ∀ (move : Move τ) (fuel : Nat), 0 ≤ move.span →
        (∃ es, Proper c (c.agenda.now + move.span) (move.run fire fuel c).1
          (move.run fire fuel c).2 es) ∧
        ∀ seconds n, move = .advance seconds → (move.run fire fuel c).1 = .ok n →
          (move.run fire fuel c).2.agenda.now = c.agenda.now + seconds := by
  have hpath := onward_of_reached hfire hc
  have hsound := sound_of_onward (sound_opening memory) hpath
  have hlog := ascending_of_path (sound_opening memory) ascending_starting hpath
  refine ⟨hsound.orderly hlog, fun s hmidway => ?_, fun move fuel hspan => ?_⟩
  · have hon := hmidway.path hfire hsound
    exact (sound_of_onward hsound hon).orderly (ascending_of_path hsound hlog hon)
  · refine ⟨(hsound.run_served hfire move hspan fuel).proper hsound hlog, ?_⟩
    rintro seconds n rfl hn
    exact (runUntil_served hfire hsound (le_add_of_nonneg_right hspan) fuel 0).2 n hn

end Reached

end Order

/-- A task that schedules another one, which fails. -/
def chime : Bool → Action String (Chronicle Nat Bool Unit) Unit
  | true => fun c => (.ok (), c.callLater 1 false)
  | false => fun c => (.error (.raised "broken"), c)

theorem chime_deeds (task : Bool) (c : Chronicle Nat Bool Unit) :
    ReflTransGen Deed c (chime task c).2 := by
  cases task with
  | true => exact .single (.callLater c 1 false)
  | false => exact .refl

theorem timers_fire_once_in_order_and_on_time_in_a_chime :
    (∀ task c, ReflTransGen Deed c (chime task c).2) ∧
      ReflTransGen (Act chime) (opening ()) ((opening ()).callLater 2 true) ∧
      ((opening ()).callLater 2 true : Chronicle Nat Bool Unit).Orderly ∧
      (((opening ()).callLater 2 true).fireNext ⟨2, 0, true⟩ [] : Chronicle Nat Bool Unit).Orderly ∧
      ∃ es, Proper ((opening ()).callLater 2 true) (0 + 5)
        (Move.run chime 9 (.advance 5) ((opening ()).callLater 2 true)).1
        (Move.run chime 9 (.advance 5) ((opening ()).callLater 2 true)).2 es := by
  have hreached : ReflTransGen (Act chime) (opening ()) ((opening ()).callLater 2 true) :=
    .single (.deed (.callLater _ 2 true))
  obtain ⟨horderly, hmidway, hmoves⟩ := @timers_fire_once_in_order_and_on_time String Nat Bool
    Unit _ _ _ _ chime chime_deeds () hreached
  exact ⟨chime_deeds, hreached, horderly, hmidway _ (.task rfl .refl),
    (hmoves (.advance 5) 9 (Nat.zero_le 5)).1⟩

/-- The second task fails, and by then both timers have fired. -/
example : (firedIn (Move.run chime 9 (.advance 5) ((opening ()).callLater 2 true)).2.log).map
    (fun p => (p.1.order, p.2)) = [(0, 2), (1, 3)] := by decide

end Chronicle

end VisualNovel.Timer
