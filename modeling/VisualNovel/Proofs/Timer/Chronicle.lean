import Mathlib.Algebra.Order.Monoid.Unbundled.Basic
import Mathlib.Data.List.Nodup
import Mathlib.Logic.Relation
import VisualNovel.Proofs.Timer.Queue
import VisualNovel.Timer.Running

/-!
An agenda with a record of everything that happened to it. Timers are scheduled and cancelled, they
fire, and the clock arrives where a move ends; whatever a program does with an agenda is made of
such steps. After any of them the record tells exactly which timers wait.
-/
namespace VisualNovel.Timer

open Relation

variable {τ α μ : Type}

inductive Event (τ α : Type) where
  | scheduled (t : Entry τ α)
  | cancelled (order : Nat)
  /-- A timer's task starts with the clock at `now`. -/
  | fired (t : Entry τ α) (now : τ)
  /-- A move of the clock ends. -/
  | arrived (was now : τ)

namespace Event

def scheduled? : Event τ α → Option (Entry τ α)
  | scheduled t => some t
  | _ => none

def cancelled? : Event τ α → Option Nat
  | cancelled order => some order
  | _ => none

def fired? : Event τ α → Option (Entry τ α × τ)
  | fired t now => some (t, now)
  | _ => none

end Event

def scheduledIn (log : List (Event τ α)) : List (Entry τ α) := log.filterMap Event.scheduled?

def cancelledIn (log : List (Event τ α)) : List Nat := log.filterMap Event.cancelled?

/-- The timers that fired, each with the reading of the clock. -/
def firedIn (log : List (Event τ α)) : List (Entry τ α × τ) := log.filterMap Event.fired?

def firedOrders (log : List (Event τ α)) : List Nat := (firedIn log).map (·.1.order)

/-- The timers that were cancelled and have not fired. -/
def droppedIn (log : List (Event τ α)) : List (Entry τ α) :=
  (scheduledIn log).filter fun t =>
    (cancelledIn log).contains t.order && !(firedOrders log).contains t.order

theorem eq_or_exists_of_append {log before after : List (Event τ α)} {e e' : Event τ α}
    (h : log ++ [e] = before ++ e' :: after) :
    (before = log ∧ e' = e) ∨ ∃ init, log = before ++ e' :: init := by
  obtain rfl | ⟨init, last, rfl⟩ := List.eq_nil_or_concat after
  · obtain ⟨rfl, hlast⟩ := List.append_inj' h rfl
    exact .inl ⟨rfl, (List.singleton_inj.mp hlast).symm⟩
  · rw [List.concat_eq_append, ← List.cons_append, ← List.append_assoc] at h
    exact .inr ⟨init, (List.append_inj' h rfl).1⟩

section Append
variable (log log' : List (Event τ α))

@[simp] theorem scheduledIn_append :
    scheduledIn (log ++ log') = scheduledIn log ++ scheduledIn log' := List.filterMap_append

@[simp] theorem cancelledIn_append :
    cancelledIn (log ++ log') = cancelledIn log ++ cancelledIn log' := List.filterMap_append

@[simp] theorem firedIn_append : firedIn (log ++ log') = firedIn log ++ firedIn log' :=
  List.filterMap_append

@[simp] theorem firedOrders_append :
    firedOrders (log ++ log') = firedOrders log ++ firedOrders log' := by
  simp [firedOrders]

end Append

section Single
variable (t : Entry τ α) (order : Nat) (now was : τ)

@[simp] theorem scheduledIn_scheduled : scheduledIn [.scheduled t] = [t] := rfl
@[simp] theorem scheduledIn_cancelled :
    scheduledIn [(.cancelled order : Event τ α)] = [] := rfl
@[simp] theorem scheduledIn_fired : scheduledIn [.fired t now] = [] := rfl
@[simp] theorem scheduledIn_arrived : scheduledIn [(.arrived was now : Event τ α)] = [] := rfl
@[simp] theorem cancelledIn_scheduled : cancelledIn [.scheduled t] = [] := rfl
@[simp] theorem cancelledIn_cancelled :
    cancelledIn [(.cancelled order : Event τ α)] = [order] := rfl
@[simp] theorem cancelledIn_fired : cancelledIn [.fired t now] = [] := rfl
@[simp] theorem cancelledIn_arrived : cancelledIn [(.arrived was now : Event τ α)] = [] := rfl
@[simp] theorem firedIn_scheduled : firedIn [.scheduled t] = [] := rfl
@[simp] theorem firedIn_cancelled : firedIn [(.cancelled order : Event τ α)] = [] := rfl
@[simp] theorem firedIn_fired : firedIn [.fired t now] = [(t, now)] := rfl
@[simp] theorem firedIn_arrived : firedIn [(.arrived was now : Event τ α)] = [] := rfl
@[simp] theorem firedOrders_scheduled : firedOrders [.scheduled t] = [] := rfl
@[simp] theorem firedOrders_cancelled : firedOrders [(.cancelled order : Event τ α)] = [] := rfl
@[simp] theorem firedOrders_fired : firedOrders [.fired t now] = [t.order] := rfl
@[simp] theorem firedOrders_arrived : firedOrders [(.arrived was now : Event τ α)] = [] := rfl

end Single

/-- A timer waits once it is scheduled, until it is cancelled or fires. -/
def Waits (log : List (Event τ α)) (t : Entry τ α) : Prop :=
  t ∈ scheduledIn log ∧ t.order ∉ cancelledIn log ∧ t.order ∉ firedOrders log

/-- Timers run by due time, and by the order in which they were scheduled if due together. -/
def Entry.Before [LT τ] (s t : Entry τ α) : Prop :=
  s.due < t.due ∨ s.due = t.due ∧ s.order < t.order

/-- A record and an agenda fit together. -/
structure Faithful [LE τ] [LT τ] (a : Agenda τ α) (log : List (Event τ α)) : Prop where
  heeds : a.heedsCancel = true
  sorted : a.queue.Pairwise Entry.Before
  timely : ∀ t ∈ a.queue, a.now ≤ t.due
  numbered : (scheduledIn log).map (·.order) = List.range a.nextOrder
  cancelled_lt : ∀ order ∈ cancelledIn log, order < a.nextOrder
  fired_scheduled : ∀ p ∈ firedIn log, p.1 ∈ scheduledIn log
  waits_iff : ∀ t, t ∈ a.queue ↔ Waits log t
  punctual : ∀ p ∈ firedIn log, p.2 = p.1.due
  once : (firedOrders log).Nodup
  uncancelled : ∀ before t now after, log = before ++ .fired t now :: after →
    t.order ∉ cancelledIn before

/-- The timer that is scheduled next. -/
def Agenda.coming [Zero τ] [Add τ] [LT τ] [DecidableLT τ] (a : Agenda τ α) (delay : τ)
    (task : α) : Entry τ α :=
  ⟨a.now + later 0 delay, a.nextOrder, task⟩

section Order
variable [LinearOrder τ]

theorem sorted_place {e : Entry τ α} {queue : List (Entry τ α)} (h : queue.Pairwise Entry.Before)
    (hlast : ∀ t ∈ queue, t.order < e.order) : (place e queue).Pairwise Entry.Before := by
  induction queue with
  | nil => exact List.pairwise_singleton _ e
  | cons f rest ih =>
    obtain ⟨hfirst, hrest⟩ := List.pairwise_cons.mp h
    unfold place
    split
    · next hless =>
      refine List.pairwise_cons.mpr ⟨fun t ht => .inl ?_, h⟩
      obtain rfl | ht := List.mem_cons.mp ht
      · exact hless
      · obtain hdue | ⟨hdue, -⟩ := hfirst t ht
        · exact hless.trans hdue
        · exact hdue ▸ hless
    · next hless =>
      refine List.pairwise_cons.mpr ⟨fun t ht => ?_, ih hrest fun t ht =>
        hlast t (List.mem_cons_of_mem _ ht)⟩
      obtain rfl | ht := mem_place.mp ht
      · obtain hdue | hdue := (not_lt.mp hless).lt_or_eq
        · exact .inl hdue
        · exact .inr ⟨hdue, hlast f (List.mem_cons_self ..)⟩
      · exact hfirst t ht

theorem Entry.Before.irrefl {t : Entry τ α} : ¬ t.Before t := by
  rintro (h | ⟨-, h⟩)
  · exact lt_irrefl _ h
  · exact lt_irrefl _ h

theorem Agenda.now_le_coming [AddZeroClass τ] [AddLeftMono τ] (a : Agenda τ α) (delay : τ)
    (task : α) : a.now ≤ (a.coming delay task).due :=
  le_add_of_nonneg_right (later_nonneg delay)

theorem faithful_starting [AddZeroClass τ] : Faithful (Agenda.starting : Agenda τ α) [] where
  heeds := rfl
  sorted := .nil
  timely _ ht := nomatch ht
  numbered := rfl
  cancelled_lt _ h := nomatch h
  fired_scheduled _ h := nomatch h
  waits_iff t := ⟨(nomatch ·), (nomatch ·.1)⟩
  punctual _ h := nomatch h
  once := .nil
  uncancelled before t now after h := by simp at h

namespace Faithful

variable {a : Agenda τ α} {log : List (Event τ α)} (h : Faithful a log)
include h

theorem order_lt {t : Entry τ α} (ht : t ∈ scheduledIn log) : t.order < a.nextOrder := by
  have hmem := List.mem_map_of_mem (f := (·.order)) ht
  rwa [h.numbered, List.mem_range] at hmem

theorem eq_of_order {s t : Entry τ α} (hs : s ∈ scheduledIn log) (ht : t ∈ scheduledIn log)
    (horder : s.order = t.order) : s = t := by
  have hnodup : ((scheduledIn log).map (·.order)).Nodup := h.numbered ▸ List.nodup_range
  exact List.inj_on_of_nodup_map hnodup hs ht horder

theorem fired_lt {order : Nat} (horder : order ∈ firedOrders log) : order < a.nextOrder := by
  obtain ⟨p, hp, rfl⟩ := List.mem_map.mp horder
  exact h.order_lt (h.fired_scheduled p hp)

/-- No cancellation came before a firing, also once one more event is recorded. -/
theorem uncancelled_append {e : Event τ α}
    (he : ∀ t now, e = .fired t now → t.order ∉ cancelledIn log) :
    ∀ before t now after, log ++ [e] = before ++ .fired t now :: after →
      t.order ∉ cancelledIn before := by
  intro before t now after hlog
  obtain ⟨rfl, rfl⟩ | ⟨init, hinit⟩ := eq_or_exists_of_append hlog
  · exact he t now rfl
  · exact h.uncancelled before t now init hinit

theorem callLater [AddZeroClass τ] [AddLeftMono τ] (delay : τ) (task : α) :
    Faithful (a.callLater delay task).2 (log ++ [.scheduled (a.coming delay task)]) where
  heeds := h.heeds
  sorted := sorted_place h.sorted fun t ht => h.order_lt ((h.waits_iff t).mp ht).1
  timely := by
    intro t ht
    obtain rfl | ht := mem_place.mp ht
    · exact a.now_le_coming delay task
    · exact h.timely t ht
  numbered := by
    rw [scheduledIn_append, List.map_append, h.numbered]
    exact List.range_succ.symm
  cancelled_lt := by
    intro order horder
    rw [cancelledIn_append, cancelledIn_scheduled, List.append_nil] at horder
    exact Nat.lt_succ_of_lt (h.cancelled_lt order horder)
  fired_scheduled := by
    intro p hp
    rw [firedIn_append, firedIn_scheduled, List.append_nil] at hp
    rw [scheduledIn_append]
    exact List.mem_append_left _ (h.fired_scheduled p hp)
  waits_iff := by
    intro t
    have hqueue : t ∈ (a.callLater delay task).2.queue ↔ t = a.coming delay task ∨ t ∈ a.queue :=
      mem_place
    have hfresh : (a.coming delay task).order ∉ cancelledIn log ∧
        (a.coming delay task).order ∉ firedOrders log :=
      ⟨fun hmem => lt_irrefl _ (h.cancelled_lt _ hmem), fun hmem => lt_irrefl _ (h.fired_lt hmem)⟩
    rw [hqueue, h.waits_iff]
    simp only [Waits, scheduledIn_append, scheduledIn_scheduled, cancelledIn_append,
      cancelledIn_scheduled, firedOrders_append, firedOrders_scheduled, List.append_nil,
      List.mem_append, List.mem_singleton]
    constructor
    · rintro (rfl | ⟨hscheduled, hwaits⟩)
      · exact ⟨.inr rfl, hfresh⟩
      · exact ⟨.inl hscheduled, hwaits⟩
    · rintro ⟨hscheduled | rfl, hwaits⟩
      · exact .inr ⟨hscheduled, hwaits⟩
      · exact .inl rfl
  punctual := by simpa using h.punctual
  once := by simpa using h.once
  uncancelled := h.uncancelled_append fun _ _ he => nomatch he

theorem cancel {order : Nat} (horder : order < a.nextOrder) :
    Faithful (a.cancel order) (log ++ [.cancelled order]) := by
  rw [Agenda.cancel, if_pos h.heeds]
  exact
    { heeds := h.heeds
      sorted := h.sorted.filter _
      timely := fun t ht => h.timely t (List.mem_filter.mp ht).1
      numbered := by simpa using h.numbered
      cancelled_lt := by
        intro o ho
        rw [cancelledIn_append, cancelledIn_cancelled, List.mem_append, List.mem_singleton] at ho
        exact ho.elim (h.cancelled_lt o) fun ho => ho ▸ horder
      fired_scheduled := by simpa using h.fired_scheduled
      waits_iff := by
        intro t
        simp only [List.mem_filter, h.waits_iff, Waits, scheduledIn_append, scheduledIn_cancelled,
          cancelledIn_append, cancelledIn_cancelled, firedOrders_append, firedOrders_cancelled,
          List.append_nil, List.mem_append, List.mem_singleton, bne_iff_ne, not_or]
        tauto
      punctual := by simpa using h.punctual
      once := by simpa using h.once
      uncancelled := h.uncancelled_append (by rintro _ _ ⟨⟩) }

theorem fires {t : Entry τ α} {rest : List (Entry τ α)} (hqueue : a.queue = t :: rest) :
    Faithful { a with now := t.due, queue := rest } (log ++ [.fired t t.due]) := by
  have hwaits : Waits log t := (h.waits_iff t).mp (hqueue ▸ List.mem_cons_self ..)
  obtain ⟨hfirst, hsorted⟩ := List.pairwise_cons.mp (hqueue ▸ h.sorted)
  exact
    { heeds := h.heeds
      sorted := hsorted
      timely := fun s hs => (hfirst s hs).elim le_of_lt fun hsame => hsame.1.le
      numbered := by simpa using h.numbered
      cancelled_lt := by simpa using h.cancelled_lt
      fired_scheduled := by
        intro p hp
        rw [firedIn_append, firedIn_fired, List.mem_append, List.mem_singleton] at hp
        rw [scheduledIn_append, scheduledIn_fired, List.append_nil]
        exact hp.elim (h.fired_scheduled p) fun hp => hp ▸ hwaits.1
      waits_iff := by
        intro s
        have hothers : s ∈ rest ↔ s ∈ a.queue ∧ s.order ≠ t.order := by
          rw [hqueue, List.mem_cons]
          constructor
          · intro hs
            have hscheduled := ((h.waits_iff s).mp (hqueue ▸ List.mem_cons_of_mem _ hs)).1
            refine ⟨.inr hs, fun hsame => ?_⟩
            obtain rfl := h.eq_of_order hscheduled hwaits.1 hsame
            exact Entry.Before.irrefl (hfirst s hs)
          · rintro ⟨rfl | hs, hne⟩
            · exact absurd rfl hne
            · exact hs
        simp only [hothers, h.waits_iff, Waits, scheduledIn_append, scheduledIn_fired,
          cancelledIn_append, cancelledIn_fired, firedOrders_append, firedOrders_fired,
          List.append_nil, List.mem_append, List.mem_singleton, not_or]
        tauto
      punctual := by
        intro p hp
        rw [firedIn_append, firedIn_fired, List.mem_append, List.mem_singleton] at hp
        exact hp.elim (h.punctual p) fun hp => hp ▸ rfl
      once := by
        rw [firedOrders_append, firedOrders_fired]
        exact List.concat_eq_append ▸ h.once.concat hwaits.2.2
      uncancelled := h.uncancelled_append fun s now he => by
        cases he
        exact hwaits.2.1 }

theorem arrives {target : τ} (hlate : ∀ t ∈ a.queue, target ≤ t.due) (was : τ) :
    Faithful { a with now := target } (log ++ [.arrived was target]) where
  heeds := h.heeds
  sorted := h.sorted
  timely := hlate
  numbered := by simpa using h.numbered
  cancelled_lt := by simpa using h.cancelled_lt
  fired_scheduled := by simpa using h.fired_scheduled
  waits_iff := by simpa [Waits] using h.waits_iff
  punctual := by simpa using h.punctual
  once := by simpa using h.once
  uncancelled := h.uncancelled_append fun _ _ he => nomatch he

theorem balance :
    a.pending + (firedIn log).length + (droppedIn log).length = (scheduledIn log).length := by
  have hnodup : ((scheduledIn log).map (·.order)).Nodup := h.numbered ▸ List.nodup_range
  have hqueue : a.queue.Nodup := by
    refine List.Pairwise.imp ?_ h.sorted
    rintro s t hbefore rfl
    exact Entry.Before.irrefl hbefore
  have hfired : (firedIn log).length =
      ((scheduledIn log).filter fun t => (firedOrders log).contains t.order).length := by
    have hperm : (firedOrders log).Perm
        (((scheduledIn log).filter fun t => (firedOrders log).contains t.order).map (·.order)) := by
      refine (List.perm_ext_iff_of_nodup h.once
        (hnodup.sublist (List.filter_sublist.map _))).mpr fun order => ?_
      simp only [List.mem_map, List.mem_filter, List.contains_iff_mem]
      constructor
      · intro horder
        obtain ⟨p, hp, rfl⟩ := List.mem_map.mp horder
        exact ⟨p.1, ⟨h.fired_scheduled p hp, horder⟩, rfl⟩
      · rintro ⟨t, ⟨-, ht⟩, rfl⟩
        exact ht
    simpa [firedOrders] using hperm.length_eq
  have hwaiting : a.pending = (((scheduledIn log).filter fun t =>
      !(firedOrders log).contains t.order).filter fun t =>
        !(cancelledIn log).contains t.order).length := by
    refine ((List.perm_ext_iff_of_nodup hqueue
      ((hnodup.of_map.filter _).filter _)).mpr fun t => ?_).length_eq
    simp only [h.waits_iff, Waits, List.mem_filter, Bool.not_eq_true', ← Bool.not_eq_true,
      List.contains_iff_mem]
    tauto
  have hsplit := List.length_eq_length_filter_add (l := scheduledIn log)
    fun t => (firedOrders log).contains t.order
  have hrest := List.length_eq_length_filter_add (l := (scheduledIn log).filter fun t =>
    !(firedOrders log).contains t.order) fun t => (cancelledIn log).contains t.order
  have hdropped : droppedIn log = ((scheduledIn log).filter fun t =>
      !(firedOrders log).contains t.order).filter fun t =>
        (cancelledIn log).contains t.order := by
    rw [List.filter_filter, droppedIn]
  rw [hdropped]
  omega

end Faithful

/-- All firings came in order, and before whatever still waits. -/
structure Ascending (a : Agenda τ α) (log : List (Event τ α)) : Prop where
  increasing : (firedIn log).Pairwise fun p q => p.1.Before q.1
  passed : ∀ p ∈ firedIn log, p.1.due ≤ a.now
  before : ∀ p ∈ firedIn log, ∀ t ∈ a.queue, p.1.Before t

theorem ascending_starting [AddZeroClass τ] : Ascending (Agenda.starting : Agenda τ α) [] where
  increasing := .nil
  passed _ h := nomatch h
  before _ h := nomatch h

theorem Entry.Before.due_le {s t : Entry τ α} (h : s.Before t) : s.due ≤ t.due :=
  h.elim le_of_lt fun hsame => hsame.1.le

namespace Ascending

variable {a : Agenda τ α} {log : List (Event τ α)} (hlog : Ascending a log) (h : Faithful a log)
include hlog

section Faithful
include h

theorem callLater [AddZeroClass τ] [AddLeftMono τ] (delay : τ) (task : α) :
    Ascending (a.callLater delay task).2 (log ++ [.scheduled (a.coming delay task)]) where
  increasing := by simpa using hlog.increasing
  passed := by
    intro p hp
    rw [firedIn_append, firedIn_scheduled, List.append_nil] at hp
    exact hlog.passed p hp
  before := by
    intro p hp t ht
    rw [firedIn_append, firedIn_scheduled, List.append_nil] at hp
    obtain rfl | ht := mem_place.mp ht
    · have hdue := (hlog.passed p hp).trans (a.now_le_coming delay task)
      have horder := h.order_lt (h.fired_scheduled p hp)
      exact hdue.lt_or_eq.imp id fun hsame => ⟨hsame, horder⟩
    · exact hlog.before p hp t ht

theorem fires {t : Entry τ α} {rest : List (Entry τ α)} (hqueue : a.queue = t :: rest) :
    Ascending { a with now := t.due, queue := rest } (log ++ [.fired t t.due]) := by
  have hfirst := (List.pairwise_cons.mp (hqueue ▸ h.sorted)).1
  have hlast : ∀ p ∈ firedIn log, p.1.Before t := fun p hp =>
    hlog.before p hp t (hqueue ▸ List.mem_cons_self ..)
  refine ⟨?_, ?_, ?_⟩
  · rw [firedIn_append, firedIn_fired, List.pairwise_append]
    refine ⟨hlog.increasing, List.pairwise_singleton .., fun p hp q hq => ?_⟩
    exact List.mem_singleton.mp hq ▸ hlast p hp
  · intro p hp
    rw [firedIn_append, firedIn_fired, List.mem_append, List.mem_singleton] at hp
    exact hp.elim (fun hp => (hlast p hp).due_le) fun hp => hp ▸ le_refl t.due
  · intro p hp s hs
    rw [firedIn_append, firedIn_fired, List.mem_append, List.mem_singleton] at hp
    obtain hp | rfl := hp
    · exact hlog.before p hp s (hqueue ▸ List.mem_cons_of_mem _ hs)
    · exact hfirst s hs

end Faithful

theorem cancel (order : Nat) : Ascending (a.cancel order) (log ++ [.cancelled order]) := by
  have hnow : (a.cancel order).now = a.now := by
    unfold Agenda.cancel
    split <;> rfl
  have hqueue : ∀ t ∈ (a.cancel order).queue, t ∈ a.queue := by
    intro t ht
    unfold Agenda.cancel at ht
    split at ht
    · exact (List.mem_filter.mp ht).1
    · exact ht
  refine ⟨by simpa using hlog.increasing, fun p hp => ?_, fun p hp t ht => ?_⟩
  · rw [firedIn_append, firedIn_cancelled, List.append_nil] at hp
    exact hnow ▸ hlog.passed p hp
  · rw [firedIn_append, firedIn_cancelled, List.append_nil] at hp
    exact hlog.before p hp t (hqueue t ht)

theorem arrives {target : τ} (hnow : a.now ≤ target) (was : τ) :
    Ascending { a with now := target } (log ++ [.arrived was target]) where
  increasing := by simpa using hlog.increasing
  passed := by
    intro p hp
    rw [firedIn_append, firedIn_arrived, List.append_nil] at hp
    exact (hlog.passed p hp).trans hnow
  before := by simpa using hlog.before

end Ascending

end Order

end VisualNovel.Timer
