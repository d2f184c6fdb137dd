import Mathlib.Order.Lattice
import VisualNovel.Timer.Agenda

/-!
What the operations on an agenda do to its queue: where a new timer goes, and what cancelling and
running take out.
-/
namespace VisualNovel.Timer

variable {τ α : Type}

theorem Agenda.foldl_cancel (a : Agenda τ α) (orders : List Nat) :
    orders.foldl Agenda.cancel a = { a with
      queue := if a.heedsCancel then a.queue.filter fun t => !orders.contains t.order
        else a.queue } := by
  induction orders generalizing a with
  | nil =>
    obtain ⟨now, queue, nextOrder, heedsCancel⟩ := a
    cases heedsCancel with
    | false => rfl
    | true => simp [List.filter_eq_self.mpr (fun _ _ => rfl)]
  | cons order rest ih =>
    rw [List.foldl_cons, ih]
    cases hheeds : a.heedsCancel with
    | false => simp [Agenda.cancel, hheeds]
    | true =>
      simp only [Agenda.cancel, hheeds, if_true, List.filter_filter]
      congr 1
      apply List.filter_congr
      intro t _
      by_cases horder : t.order = order
      · simp [horder]
      · simp [horder]

theorem Agenda.foldl_cancel_of_ignores {a : Agenda τ α} (h : a.heedsCancel = false)
    (orders : List Nat) : orders.foldl Agenda.cancel a = a := by
  rw [foldl_cancel]
  simp only [h, Bool.false_eq_true, if_false]
  rw [← h]

theorem Agenda.pop?_eq_some [LT τ] [DecidableLT τ] {a rest : Agenda τ α} {target : τ}
    {entry : Entry τ α} (h : a.pop? target = some (entry, rest)) :
    ∃ queue, a.queue = entry :: queue ∧ ¬ target < entry.due ∧
      rest = { a with now := later a.now entry.due, queue } := by
  unfold Agenda.pop? at h
  split at h
  · cases h
  · next first queue hqueue =>
    split at h
    · cases h
    · next hdue =>
      simp only [Option.some.injEq, Prod.mk.injEq] at h
      obtain ⟨rfl, rfl⟩ := h
      exact ⟨queue, hqueue, hdue, rfl⟩

theorem Agenda.pop?_eq_none [LT τ] [DecidableLT τ] {a : Agenda τ α} {target : τ}
    (h : a.pop? target = none) : ∀ t ∈ a.queue.head?, target < t.due := by
  unfold Agenda.pop? at h
  intro t ht
  split at h
  · next hqueue => simp [hqueue] at ht
  · next first queue hqueue =>
    split at h
    · next hdue =>
      rw [hqueue, List.head?_cons, Option.mem_some_iff] at ht
      exact ht ▸ hdue
    · cases h

theorem Agenda.lt_of_nextDue? [LT τ] [DecidableLT τ] {a : Agenda τ α} {target due : τ}
    (hquiet : a.pop? target = none) (hnext : a.nextDue? = some due) : target < due := by
  obtain ⟨t, hhead, rfl⟩ := Option.map_eq_some_iff.mp hnext
  exact Agenda.pop?_eq_none hquiet t hhead

section Order
variable [LinearOrder τ]

theorem mem_place {e t : Entry τ α} {queue : List (Entry τ α)} :
    t ∈ place e queue ↔ t = e ∨ t ∈ queue := by
  induction queue with
  | nil => simp [place]
  | cons f rest ih =>
    unfold place
    split
    · simp
    · rw [List.mem_cons, ih, List.mem_cons]
      exact or_left_comm

def InOrder (queue : List (Entry τ α)) : Prop := queue.Pairwise fun s t => s.due ≤ t.due

theorem inOrder_place {e : Entry τ α} {queue : List (Entry τ α)} (h : InOrder queue) :
    InOrder (place e queue) := by
  induction queue with
  | nil => exact List.pairwise_singleton _ e
  | cons f rest ih =>
    obtain ⟨hfirst, hrest⟩ := List.pairwise_cons.mp h
    unfold place
    split
    · next hless =>
      refine List.pairwise_cons.mpr ⟨?_, h⟩
      intro t ht
      rcases List.mem_cons.mp ht with rfl | ht
      · exact le_of_lt hless
      · exact le_trans (le_of_lt hless) (hfirst t ht)
    · next hless =>
      refine List.pairwise_cons.mpr ⟨?_, ih hrest⟩
      intro t ht
      rcases mem_place.mp ht with rfl | ht
      · exact not_lt.mp hless
      · exact hfirst t ht

theorem place_eq_cons {e : Entry τ α} {queue : List (Entry τ α)}
    (h : ∀ t ∈ queue, e.due < t.due) : place e queue = e :: queue := by
  cases queue with
  | nil => rfl
  | cons f rest =>
    unfold place
    rw [if_pos (h f List.mem_cons_self)]

/-- Leaving timers out of a queue in order does not change where a new one goes. -/
theorem filter_place {keep : Entry τ α → Bool} {e : Entry τ α} {queue : List (Entry τ α)}
    (hkeep : keep e = true) (h : InOrder queue) :
    (place e queue).filter keep = place e (queue.filter keep) := by
  induction queue with
  | nil => simp [place, hkeep]
  | cons f rest ih =>
    obtain ⟨hfirst, hrest⟩ := List.pairwise_cons.mp h
    by_cases hless : e.due < f.due
    · have hall : ∀ t ∈ (f :: rest).filter keep, e.due < t.due := by
        intro t ht
        rcases List.mem_cons.mp (List.mem_filter.mp ht).1 with rfl | ht
        · exact hless
        · exact lt_of_lt_of_le hless (hfirst t ht)
      rw [place_eq_cons hall, place, if_pos hless, List.filter_cons_of_pos hkeep]
    · rw [place, if_neg hless]
      by_cases hf : keep f = true
      · rw [List.filter_cons_of_pos hf, List.filter_cons_of_pos hf, ih hrest, place, if_neg hless]
      · rw [List.filter_cons_of_neg hf, List.filter_cons_of_neg hf, ih hrest]

theorem later_eq_max (a b : τ) : later a b = max a b := (max_def_lt a b).symm

theorem earlier_eq_min (a b : τ) : earlier a b = min a b := by
  rw [min_comm]
  exact (min_def_lt b a).symm

theorem later_eq_right {a b : τ} (h : a ≤ b) : later a b = b := by
  rw [later_eq_max, max_eq_right h]

/-- Nothing is due in the past: delays below zero count as zero. -/
theorem later_nonneg [Zero τ] (delay : τ) : 0 ≤ later 0 delay := by
  rw [later_eq_max]
  exact le_max_left _ _

theorem Agenda.pop?_of_coming {a : Agenda τ α} {target : τ} (h : ∀ t ∈ a.queue, target < t.due) :
    a.pop? target = none := by
  unfold pop?
  cases hqueue : a.queue with
  | nil => rfl
  | cons e rest =>
    dsimp only
    rw [if_pos (h e (hqueue ▸ List.mem_cons_self))]

theorem Agenda.pop?_of_due {a : Agenda τ α} {target : τ} {e : Entry τ α}
    {rest : List (Entry τ α)} (hqueue : a.queue = e :: rest) (hnow : a.now ≤ e.due)
    (hdue : e.due ≤ target) :
    a.pop? target = some (e, { a with now := e.due, queue := rest }) := by
  unfold pop?
  rw [hqueue]
  dsimp only
  rw [if_neg (not_lt.mpr hdue), later_eq_right hnow]

end Order

end VisualNovel.Timer
