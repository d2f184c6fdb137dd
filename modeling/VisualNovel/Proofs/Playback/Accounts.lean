import VisualNovel.Proofs.Playback.Ledger

/-!
The accounts of a record. What was delivered are the frames that were issued; each notification
that has come to its end has told exactly those who were subscribed when it began, in the order of
their subscriptions; and the issues are those of the run.
-/
namespace VisualNovel.Playback.Ledger

variable {τ ν : Type}

/-- Those who were given the frame of an issue, in order. -/
def told (r : Ledger τ ν) (number : Nat) : List (Listener τ) :=
  (r.given.filter (·.number == number)).map (·.listener)

/-- The notification of an issue has come to its end, and was not given up. -/
structure Complete (r : Ledger τ ν) (number : Nat) : Prop where
  ended : number ∉ r.rounds.map (·.number)
  kept : number ∉ r.dropped

structure Sound (r : Ledger τ ν) : Prop where
  delivered : r.house.delivered = r.given.map fun gift => (gift.listener.name, gift.frame)
  given : ∀ gift ∈ r.given, ∃ issue, r.issues[gift.number]? = some issue ∧ issue.frame = gift.frame
  nested : r.rounds.Pairwise fun inner outer => outer.number < inner.number
  underway : ∀ round ∈ r.rounds, r.issues[round.number]? = some round.issue ∧
    r.told round.number ++ round.waiting = round.issue.audience
  complete : ∀ number issue, r.issues[number]? = some issue → r.Complete number →
    r.told number = issue.audience

theorem told_give (r : Ledger τ ν) (number : Nat) (issue : Issue τ) (listener : Listener τ)
    (waiting : List (Listener τ)) (outer : List (Round τ)) (other : Nat) :
    (r.give number issue listener waiting outer).told other =
      r.told other ++ if number = other then [listener] else [] := by
  simp only [told, give, List.filter_append, List.map_append]
  split
  · next hsame => simp [hsame]
  · next hother => simp [hother]

namespace Sound

variable {r r' : Ledger τ ν}

theorem opening (engine : Engine τ ν) (stamps : Stamps) : (opening engine stamps).Sound where
  delivered := rfl
  given _ hgift := (List.not_mem_nil hgift).elim
  nested := .nil
  underway _ hround := (List.not_mem_nil hround).elim
  complete _ _ hissue := (Option.some_ne_none _ (hissue.symm.trans List.getElem?_nil)).elim

theorem lt_of_given (h : r.Sound) {gift : Gift τ} (hgift : gift ∈ r.given) :
    gift.number < r.issues.length := by
  obtain ⟨issue, hissue, -⟩ := h.given gift hgift
  exact (List.getElem?_eq_some_iff.mp hissue).1

theorem lt_of_round (h : r.Sound) {round : Round τ} (hround : round ∈ r.rounds) :
    round.number < r.issues.length :=
  (List.getElem?_eq_some_iff.mp (h.underway round hround).1).1

theorem of_same (h : r.Sound) (hdelivered : r'.house.delivered = r.house.delivered)
    (hissues : r'.issues = r.issues) (hrounds : r'.rounds = r.rounds)
    (hgiven : r'.given = r.given) (hdropped : r'.dropped = r.dropped) : r'.Sound where
  delivered := by
    rw [hdelivered, hgiven]
    exact h.delivered
  given := by
    rw [hgiven, hissues]
    exact h.given
  nested := hrounds ▸ h.nested
  underway := by
    unfold told
    rw [hrounds, hissues, hgiven]
    exact h.underway
  complete number issue hissue hcomplete := by
    unfold told
    rw [hgiven]
    exact h.complete number issue (hissues ▸ hissue) ⟨hrounds ▸ hcomplete.ended,
      hdropped ▸ hcomplete.kept⟩

theorem issue (h : r.Sound) (c : Change τ ν) : (r.issue c).Sound where
  delivered := h.delivered
  given gift hgift := by
    obtain ⟨issue, hissue, hframe⟩ := h.given gift hgift
    exact ⟨issue, (List.getElem?_append_left (h.lt_of_given hgift)).trans hissue, hframe⟩
  nested := .cons (fun _ => h.lt_of_round) h.nested
  underway round hround := by
    rcases List.mem_cons.mp hround with rfl | hround
    · refine ⟨List.getElem?_concat_length, ?_⟩
      have hnone : r.told r.issues.length = [] := by
        refine List.map_eq_nil_iff.mpr (List.filter_eq_nil_iff.mpr fun gift hgift => ?_)
        simpa using (h.lt_of_given hgift).ne
      exact congrArg (· ++ r.house.listeners) hnone
    · obtain ⟨hissue, htold⟩ := h.underway round hround
      exact ⟨(List.getElem?_append_left (h.lt_of_round hround)).trans hissue, htold⟩
  complete number issue hissue hcomplete := by
    -- The notification of the new issue has only just begun.
    obtain ⟨hnew, hover⟩ := not_or.mp (mt List.mem_cons.mpr hcomplete.ended)
    have hlt : number < r.issues.length := by
      have hle := (List.getElem?_eq_some_iff.mp hissue).1
      rw [Ledger.issue, List.length_append, List.length_singleton] at hle
      exact lt_of_le_of_ne (Nat.le_of_lt_succ hle) hnew
    exact h.complete number issue ((List.getElem?_append_left hlt).symm.trans hissue)
      ⟨hover, hcomplete.kept⟩

theorem give (h : r.Sound) {number : Nat} {issue : Issue τ} {listener : Listener τ}
    {waiting : List (Listener τ)} {outer : List (Round τ)}
    (hround : r.rounds = ⟨number, issue, listener :: waiting⟩ :: outer) :
    (r.give number issue listener waiting outer).Sound := by
  have hnested := h.nested
  have hunderway := h.underway
  rw [hround] at hnested hunderway
  obtain ⟨hissue, htold⟩ := hunderway _ List.mem_cons_self
  have hothers : ∀ other ∈ outer, number ≠ other.number :=
    fun other hother => ((List.pairwise_cons.mp hnested).1 other hother).ne'
  refine ⟨?_, ?_, ?_, ?_, ?_⟩
  · simp only [Ledger.give, House.record, h.delivered, List.map_append, List.map_singleton]
  · intro gift hgift
    rcases List.mem_append.mp hgift with hold | hnew
    · exact h.given gift hold
    · obtain rfl := List.mem_singleton.mp hnew
      exact ⟨issue, hissue, rfl⟩
  · exact .cons (List.pairwise_cons.mp hnested).1 (List.pairwise_cons.mp hnested).2
  · intro other hother
    rw [told_give]
    rcases List.mem_cons.mp hother with rfl | hother
    · refine ⟨hissue, ?_⟩
      rw [if_pos rfl, List.append_assoc]
      exact htold
    · rw [if_neg (hothers other hother), List.append_nil]
      exact hunderway other (List.mem_cons_of_mem _ hother)
  · intro other issue' hissue' hcomplete
    have hne : number ≠ other := by
      rintro rfl
      exact hcomplete.ended List.mem_cons_self
    rw [told_give, if_neg hne, List.append_nil]
    refine h.complete other issue' hissue' ⟨?_, hcomplete.kept⟩
    rw [hround]
    exact hcomplete.ended

/-- Nothing else changes when the innermost notification ends. -/
theorem leave_round (h : r.Sound) {round : Round τ} {outer : List (Round τ)}
    (hround : r.rounds = round :: outer) {dropped : List Nat}
    (hended : round.waiting = [] ∨ round.number ∈ dropped) (hdropped : r.dropped ⊆ dropped) :
    ({ r with rounds := outer, dropped := dropped } : Ledger τ ν).Sound := by
  have hnested := h.nested
  have hunderway := h.underway
  rw [hround] at hnested hunderway
  refine ⟨h.delivered, h.given, (List.pairwise_cons.mp hnested).2,
    fun other hother => hunderway other (List.mem_cons_of_mem _ hother), ?_⟩
  intro number issue hissue hcomplete
  by_cases hthis : number = round.number
  · subst hthis
    obtain ⟨hissue', htold⟩ := hunderway round List.mem_cons_self
    obtain rfl := Option.some.inj (hissue.symm.trans hissue')
    rcases hended with hdone | hgone
    · rw [hdone, List.append_nil] at htold
      exact htold
    · exact absurd hgone hcomplete.kept
  · refine h.complete number issue hissue ⟨?_, fun hgone => hcomplete.kept (hdropped hgone)⟩
    rw [hround, List.map_cons, List.mem_cons, not_or]
    exact ⟨hthis, hcomplete.ended⟩

end Sound

variable [Save.KeyValueStore ν]
variable [Zero τ] [Add τ] [Mul τ] [NatCast τ] [LT τ] [DecidableLT τ]
variable {r r' : Ledger τ ν} {engine : Engine τ ν} {stamps : Stamps}

theorem Step.sound (hstep : r.Step r') (h : r.Sound) : r'.Sound := by
  cases hstep with
  | pass hpasses => exact h.of_same hpasses.delivered rfl rfl rfl rfl
  | issue => exact h.issue _
  | give hround => exact h.give hround
  | close hround hdone => exact h.leave_round hround (.inl hdone) (List.Subset.refl _)
  | drop hround =>
    exact h.leave_round hround (.inr (List.mem_append_right _ List.mem_cons_self))
      (List.subset_append_left _ _)
  | enroll | subscribe | leave => exact h.of_same rfl rfl rfl rfl rfl

theorem Reached.sound (hreached : r.Reached engine stamps) : r.Sound := by
  induction hreached with
  | refl => exact .opening engine stamps
  | tail _ hstep ih => exact hstep.sound ih

/-- The issues are those of the events that the engine has gone through. -/
theorem Reached.exists_course (hreached : r.Reached engine stamps) :
    ∃ events, engine.Course events r.house.engine ∧ issued events = r.issues.map (·.frame) := by
  induction hreached with
  | refl => exact ⟨[], .nil _, rfl⟩
  | tail _ hstep ih =>
    obtain ⟨events, hcourse, hissued⟩ := ih
    cases hstep with
    | pass hpasses =>
      obtain ⟨more, hmore, hnone⟩ := hpasses.course
      refine ⟨events ++ more, hcourse.append hmore, ?_⟩
      rw [issued_append, hnone, List.append_nil]
      exact hissued
    | @issue ev hoccurs hbefore htold =>
      refine ⟨events ++ [ev], hcourse.append (hbefore ▸ .single hoccurs), ?_⟩
      rw [issued_append, hissued, issued_cons, Event.frame?, if_pos htold, Ledger.issue,
        List.map_append]
      rfl
    | give | close | drop | enroll | subscribe | leave => exact ⟨events, hcourse, hissued⟩

/-- What is shown is what was issued last. -/
theorem Reached.frame_eq (hreached : r.Reached engine stamps) {issue : Issue τ}
    (hlast : r.issues.getLast? = some issue) : r.house.engine.frame = issue.frame := by
  obtain ⟨events, hcourse, hissued⟩ := hreached.exists_course
  rw [hcourse.frame_eq, hissued, List.getLast?_map, hlast]
  rfl

end VisualNovel.Playback.Ledger
