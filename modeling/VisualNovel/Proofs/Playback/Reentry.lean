import VisualNovel.Proofs.Playback.Accounts

/-!
Listeners that call back. A frame that is issued while an older one is still on its way to a
listener overtakes it: the listener is given the newer frame first and is left with the older one. A
listener to whom this never happens is given the frames in the order of the states they show, and
the last of them shows how things are.
-/
namespace VisualNovel.Playback

variable {τ ν : Type}

/-- The frame is issued to a listener to whom an older one is still on its way. -/
def Issue.overtakes (issue : Issue τ) (id : Nat) : Bool :=
  issue.audience.any (·.id == id) && issue.behind.any (·.id == id)

/-- The frame is still on its way to a listener. -/
def Round.awaited (round : Round τ) (id : Nat) : Bool := round.waiting.any (·.id == id)

theorem awaited_of_other {listener : Listener τ} {id : Nat} (number : Nat) (issue : Issue τ)
    (waiting : List (Listener τ)) (hother : listener.id ≠ id) :
    (⟨number, issue, waiting⟩ : Round τ).awaited id =
      (⟨number, issue, listener :: waiting⟩ : Round τ).awaited id := by
  simp [Round.awaited, hother]

namespace Ledger

/-- Some frame has overtaken an older one on its way to a listener. -/
def overtaken (r : Ledger τ ν) (id : Nat) : Bool := r.issues.any (·.overtakes id)

def gifts (r : Ledger τ ν) (id : Nat) : List (Gift τ) := r.given.filter (·.listener.id == id)

theorem gifts_give (r : Ledger τ ν) (number : Nat) (issue : Issue τ) (listener : Listener τ)
    (waiting : List (Listener τ)) (outer : List (Round τ)) (id : Nat) :
    (r.give number issue listener waiting outer).gifts id =
      r.gifts id ++ if listener.id = id then [⟨number, issue.frame, listener⟩] else [] := by
  simp only [gifts, give, List.filter_append]
  split
  · next hsame => simp [hsame]
  · next hother => simp [hother]

/-- A listener was given frames in the order in which they were issued. -/
def InOrder (r : Ledger τ ν) (id : Nat) : Prop :=
  (r.gifts id).Pairwise fun earlier later => earlier.number ≤ later.number

/-- While no frame overtakes another on its way to a listener, at most one is on its way to it, and
it is newer than all that the listener has been given. -/
structure Orderly (r : Ledger τ ν) (id : Nat) : Prop where
  sorted : r.InOrder id
  ahead : ∀ round ∈ r.rounds, round.awaited id = true →
    ∀ gift ∈ r.gifts id, gift.number ≤ round.number
  alone : r.rounds.Pairwise fun inner outer => inner.awaited id = true → outer.awaited id = false

namespace Orderly

variable {r r' : Ledger τ ν} {id : Nat}

theorem opening (engine : Engine τ ν) (stamps : Stamps) (id : Nat) :
    (opening engine stamps).Orderly id where
  sorted := .nil
  ahead _ hround := (List.not_mem_nil hround).elim
  alone := .nil

theorem of_same (h : r.Orderly id) (hrounds : r'.rounds = r.rounds) (hgiven : r'.given = r.given) :
    r'.Orderly id where
  sorted := by
    unfold InOrder gifts
    rw [hgiven]
    exact h.sorted
  ahead := by
    unfold gifts
    rw [hrounds, hgiven]
    exact h.ahead
  alone := hrounds ▸ h.alone

theorem issue (h : r.Orderly id) (hsound : r.Sound) {c : Change τ ν}
    (hnew : (r.issue c).overtaken id = false) : (r.issue c).Orderly id where
  sorted := h.sorted
  ahead round hround hawaited gift hgift := by
    rcases List.mem_cons.mp hround with rfl | hround
    · exact (hsound.lt_of_given (List.mem_filter.mp hgift).1).le
    · exact h.ahead round hround hawaited gift hgift
  alone := by
    refine .cons (fun outer houter hawaited => ?_) h.alone
    have hbehind : r.behind.any (·.id == id) = false := by
      have hissue := List.any_eq_false.mp hnew _ (List.mem_append_right _ List.mem_cons_self)
      rw [Bool.not_eq_true, Issue.overtakes, Bool.and_eq_false_iff] at hissue
      exact hissue.resolve_left (Bool.not_eq_false _ ▸ hawaited)
    rw [behind, List.any_flatMap] at hbehind
    simpa [Round.awaited] using List.any_eq_false.mp hbehind outer houter

theorem tail (h : r.Orderly id) {round : Round τ} {outer : List (Round τ)}
    (hround : r.rounds = round :: outer) {dropped : List Nat} :
    ({ r with rounds := outer, dropped := dropped } : Ledger τ ν).Orderly id where
  sorted := h.sorted
  ahead other hother := h.ahead other (hround ▸ List.mem_cons_of_mem _ hother)
  alone := (List.pairwise_cons.mp (hround ▸ h.alone)).2

section Give
variable {number : Nat} {issue : Issue τ} {listener : Listener τ} {waiting : List (Listener τ)}
variable {outer : List (Round τ)}

/-- Once the listener has been given the frame that was on its way, there is no other. -/
theorem give_self (h : r.Orderly id)
    (hround : r.rounds = ⟨number, issue, listener :: waiting⟩ :: outer) (hself : listener.id = id) :
    (r.give number issue listener waiting outer).Orderly id := by
  have hahead := h.ahead
  have halone := h.alone
  rw [hround] at hahead halone
  obtain ⟨hfirst, hrest⟩ := List.pairwise_cons.mp halone
  have hawaited : (⟨number, issue, listener :: waiting⟩ : Round τ).awaited id = true := by
    simp [Round.awaited, hself]
  have hle := hahead _ List.mem_cons_self hawaited
  have hgifts := r.gifts_give number issue listener waiting outer id
  rw [if_pos hself] at hgifts
  refine ⟨?_, ?_, .cons (fun other hother _ => hfirst other hother hawaited) hrest⟩
  · rw [InOrder, hgifts, List.pairwise_append]
    refine ⟨h.sorted, List.pairwise_singleton _ _, fun earlier hearlier later hlater => ?_⟩
    rw [List.mem_singleton.mp hlater]
    exact hle earlier hearlier
  · intro round hmem hround gift hgift
    rcases List.mem_cons.mp hmem with rfl | hother
    · rw [hgifts] at hgift
      rcases List.mem_append.mp hgift with hold | hnew
      · exact hle gift hold
      · exact (congrArg Gift.number (List.mem_singleton.mp hnew)).le
    · rw [hfirst round hother hawaited] at hround
      cases hround

theorem give_other (h : r.Orderly id)
    (hround : r.rounds = ⟨number, issue, listener :: waiting⟩ :: outer)
    (hother : listener.id ≠ id) : (r.give number issue listener waiting outer).Orderly id := by
  have hahead := h.ahead
  have halone := h.alone
  rw [hround] at hahead halone
  obtain ⟨hfirst, hrest⟩ := List.pairwise_cons.mp halone
  have hgifts := r.gifts_give number issue listener waiting outer id
  rw [if_neg hother, List.append_nil] at hgifts
  have hsame := awaited_of_other number issue waiting hother
  refine ⟨?_, ?_, .cons (fun round hmem => hsame ▸ hfirst round hmem) hrest⟩
  · rw [InOrder, hgifts]
    exact h.sorted
  · intro round hmem hround gift hgift
    rw [hgifts] at hgift
    rcases List.mem_cons.mp hmem with rfl | houter
    · exact hahead _ List.mem_cons_self (hsame ▸ hround) gift hgift
    · exact hahead round (List.mem_cons_of_mem _ houter) hround gift hgift

end Give

end Orderly

/-- The frame of an issue has come to a listener, or is on its way to it. -/
def Comes (r : Ledger τ ν) (id number : Nat) : Prop :=
  (∃ gift ∈ r.gifts id, gift.number = number) ∨
    ∃ round ∈ r.rounds, round.awaited id = true ∧ round.number = number

/-- A frame is on its way to a listener to whom a newer one comes first. -/
def Late (r : Ledger τ ν) (id : Nat) : Prop :=
  ∃ round ∈ r.rounds, round.awaited id = true ∧ ∃ newer, round.number < newer ∧ r.Comes id newer

section Late
variable {r : Ledger τ ν} {id number : Nat}

theorem Comes.issue (h : r.Comes id number) (c : Change τ ν) : (r.issue c).Comes id number := by
  rcases h with hgift | ⟨round, hround, hcomes⟩
  · exact Or.inl hgift
  · exact Or.inr ⟨round, List.mem_cons_of_mem _ hround, hcomes⟩

theorem Late.issue (h : r.Late id) (c : Change τ ν) : (r.issue c).Late id := by
  obtain ⟨round, hround, hawaited, newer, hlt, hcomes⟩ := h
  exact ⟨round, List.mem_cons_of_mem _ hround, hawaited, newer, hlt, hcomes.issue c⟩

/-- A frame that overtakes an older one makes it late. -/
theorem late_of_overtakes (hsound : r.Sound) {c : Change τ ν}
    (hovertakes : (r.announce c).overtakes id = true) : (r.issue c).Late id := by
  obtain ⟨haudience, hbehind⟩ := Bool.and_eq_true_iff.mp hovertakes
  obtain ⟨listener, hlistener, hid⟩ := List.any_eq_true.mp hbehind
  obtain ⟨round, hround, hwaiting⟩ := List.mem_flatMap.mp hlistener
  refine ⟨round, List.mem_cons_of_mem _ hround, List.any_eq_true.mpr ⟨listener, hwaiting, hid⟩,
    r.issues.length, hsound.lt_of_round hround, Or.inr ⟨_, List.mem_cons_self, haudience, rfl⟩⟩

section Give
variable {issue : Issue τ} {listener : Listener τ} {waiting : List (Listener τ)}
variable {outer : List (Round τ)}

theorem Comes.give {first : Nat} (h : r.Comes id number)
    (hround : r.rounds = ⟨first, issue, listener :: waiting⟩ :: outer) :
    (r.give first issue listener waiting outer).Comes id number := by
  unfold Comes
  rw [gifts_give]
  rcases h with ⟨gift, hgift, hnumber⟩ | ⟨round, hmem, hawaited, hnumber⟩
  · exact Or.inl ⟨gift, List.mem_append_left _ hgift, hnumber⟩
  · rw [hround] at hmem
    rcases List.mem_cons.mp hmem with rfl | houter
    · by_cases hself : listener.id = id
      · rw [if_pos hself]
        exact Or.inl ⟨_, List.mem_append_right _ List.mem_cons_self, hnumber⟩
      · refine Or.inr ⟨⟨first, issue, waiting⟩, List.mem_cons_self, ?_, hnumber⟩
        rw [awaited_of_other first issue waiting hself]
        exact hawaited
    · exact Or.inr ⟨round, List.mem_cons_of_mem _ houter, hawaited, hnumber⟩

/-- A frame that is late stays late until it is given, which is then out of order. -/
theorem late_give (hsound : r.Sound)
    (hround : r.rounds = ⟨number, issue, listener :: waiting⟩ :: outer)
    (h : r.InOrder id → r.Late id)
    (hsorted : (r.give number issue listener waiting outer).InOrder id) :
    (r.give number issue listener waiting outer).Late id := by
  rw [InOrder, gifts_give, List.pairwise_append] at hsorted
  obtain ⟨hbefore, -, hcross⟩ := hsorted
  obtain ⟨round, hmem, hawaited, newer, hlt, hcomes⟩ := h hbefore
  have hcomes' := hcomes.give hround
  rw [hround] at hmem
  rcases List.mem_cons.mp hmem with rfl | houter
  · by_cases hself : listener.id = id
    · rw [if_pos hself] at hcross
      rcases hcomes with ⟨gift, hgift, rfl⟩ | ⟨inner, hinner, -, rfl⟩
      · exact absurd (hcross gift hgift _ List.mem_cons_self) hlt.not_ge
      · -- The innermost notification is the newest one.
        have hnested := hsound.nested
        rw [hround] at hnested hinner
        rcases List.mem_cons.mp hinner with rfl | hinner
        · exact absurd hlt (lt_irrefl _)
        · exact absurd ((List.pairwise_cons.mp hnested).1 inner hinner) hlt.asymm
    · refine ⟨⟨number, issue, waiting⟩, List.mem_cons_self, ?_, newer, hlt, hcomes'⟩
      rw [awaited_of_other number issue waiting hself]
      exact hawaited
  · exact ⟨round, List.mem_cons_of_mem _ houter, hawaited, newer, hlt, hcomes'⟩

end Give

/-- The end of a notification of which everybody has been told changes nothing. -/
theorem Late.close (h : r.Late id) {round : Round τ} {outer : List (Round τ)}
    (hround : r.rounds = round :: outer) (hdone : round.waiting = []) :
    ({ r with rounds := outer } : Ledger τ ν).Late id := by
  have hstill : ∀ other ∈ r.rounds, other.awaited id = true → other ∈ outer := by
    intro other hother hawaited
    rw [hround] at hother
    rcases List.mem_cons.mp hother with rfl | hother
    · rw [Round.awaited, hdone] at hawaited
      cases hawaited
    · exact hother
  obtain ⟨late, hlate, hawaited, newer, hlt, hcomes⟩ := h
  refine ⟨late, hstill late hlate hawaited, hawaited, newer, hlt, ?_⟩
  rcases hcomes with hgift | ⟨inner, hinner, hcoming, hnumber⟩
  · exact Or.inl hgift
  · exact Or.inr ⟨inner, hstill inner hinner hcoming, hcoming, hnumber⟩

theorem late_of_same {r' : Ledger τ ν} (hrounds : r'.rounds = r.rounds)
    (hgiven : r'.given = r.given) (h : r.InOrder id → r.Late id) :
    r'.InOrder id → r'.Late id := by
  unfold InOrder Late Comes gifts at h ⊢
  rw [hrounds, hgiven]
  exact h

end Late

variable {r r' : Ledger τ ν} {engine : Engine τ ν} {stamps : Stamps} {id : Nat}

theorem overtaken_issue (r : Ledger τ ν) (c : Change τ ν) (id : Nat) :
    (r.issue c).overtaken id = (r.overtaken id || (r.announce c).overtakes id) := by
  simp [overtaken, Ledger.issue]

theorem InOrder.le_last {gift last : Gift τ} (h : r.InOrder id) (hgift : gift ∈ r.gifts id)
    (hlast : (r.gifts id).getLast? = some last) : gift.number ≤ last.number := by
  obtain ⟨before, hgifts⟩ := List.getLast?_eq_some_iff.mp hlast
  rw [InOrder, hgifts, List.pairwise_append] at h
  rw [hgifts] at hgift
  rcases List.mem_append.mp hgift with hbefore | hthis
  · exact h.2.2 gift hbefore last List.mem_cons_self
  · exact (congrArg Gift.number (List.mem_singleton.mp hthis)).le

theorem Sound.mem_gifts (h : r.Sound) {number : Nat} {issue : Issue τ}
    (hissue : r.issues[number]? = some issue) (hcomplete : r.Complete number)
    (hmember : ∃ listener ∈ issue.audience, listener.id = id) :
    ∃ gift ∈ r.gifts id, gift.number = number := by
  obtain ⟨listener, hlistener, hid⟩ := hmember
  rw [← h.complete number issue hissue hcomplete] at hlistener
  obtain ⟨gift, hgift, rfl⟩ := List.mem_map.mp hlistener
  obtain ⟨hgiven, hnumber⟩ := List.mem_filter.mp hgift
  exact ⟨gift, List.mem_filter.mpr ⟨hgiven, beq_iff_eq.mpr hid⟩, beq_iff_eq.mp hnumber⟩

/-- One who was to be told of the last issue, and got everything in order, got that frame last. -/
theorem InOrder.last (h : r.InOrder id) (hsound : r.Sound) {issue : Issue τ}
    (hissue : r.issues.getLast? = some issue) (hcomplete : r.Complete (r.issues.length - 1))
    (hmember : ∃ listener ∈ issue.audience, listener.id = id) :
    ∃ gift, (r.gifts id).getLast? = some gift ∧ gift.frame = issue.frame := by
  rw [List.getLast?_eq_getElem?] at hissue
  obtain ⟨newest, hnewest, hnumber⟩ := hsound.mem_gifts hissue hcomplete hmember
  cases hlast : (r.gifts id).getLast? with
  | none =>
    rw [List.getLast?_eq_none_iff.mp hlast] at hnewest
    cases hnewest
  | some gift =>
    have hgift : gift ∈ r.given := (List.mem_filter.mp (List.mem_of_getLast? hlast)).1
    have hle := h.le_last hnewest hlast
    have hlt := hsound.lt_of_given hgift
    have hsame : gift.number = r.issues.length - 1 := by omega
    obtain ⟨issue', hissue', hframe⟩ := hsound.given gift hgift
    rw [hsame, hissue] at hissue'
    exact ⟨gift, rfl, by rw [← hframe, Option.some.inj hissue']⟩

variable [Save.KeyValueStore ν]
variable [Zero τ] [Add τ] [Mul τ] [NatCast τ] [LT τ] [DecidableLT τ]

theorem Step.orderly (hstep : r.Step r') (hsound : r.Sound) (hnever : r'.overtaken id = false)
    (h : r.Orderly id) : r'.Orderly id := by
  cases hstep with
  | issue => exact h.issue hsound hnever
  | @give _ _ listener _ _ hround =>
    by_cases hself : listener.id = id
    · exact h.give_self hround hself
    · exact h.give_other hround hself
  | close hround => exact h.tail hround
  | drop hround => exact h.tail hround
  | pass | enroll | subscribe | leave => exact h.of_same rfl rfl

/-- As long as no notification is given up, an overtaken listener is or was given frames out of
order. -/
theorem Step.late (hstep : r.Step r') (hsound : r.Sound) (hover : r'.overtaken id = true)
    (hkept : r'.dropped = [])
    (h : r.overtaken id = true → r.dropped = [] → r.InOrder id → r.Late id) :
    r'.InOrder id → r'.Late id := by
  cases hstep with
  | issue =>
    intro hsorted
    rw [overtaken_issue, Bool.or_eq_true] at hover
    rcases hover with hold | hnew
    · exact (h hold hkept hsorted).issue _
    · exact late_of_overtakes hsound hnew
  | give hround => exact late_give hsound hround (h hover hkept)
  | close hround hdone => exact fun hsorted => (h hover hkept hsorted).close hround hdone
  | drop => exact absurd hkept (List.append_ne_nil_of_right_ne_nil _ (List.cons_ne_nil _ _))
  | pass | enroll | subscribe | leave => exact late_of_same rfl rfl (h hover hkept)

theorem Step.never_overtaken (hstep : r.Step r') (hnever : r'.overtaken id = false) :
    r.overtaken id = false := by
  cases hstep with
  | issue =>
    rw [overtaken_issue] at hnever
    exact (Bool.or_eq_false_iff.mp hnever).1
  | _ => exact hnever

theorem Reached.orderly (hreached : r.Reached engine stamps) (hnever : r.overtaken id = false) :
    r.Orderly id := by
  induction hreached with
  | refl => exact .opening engine stamps id
  | tail hbefore hstep ih =>
    exact hstep.orderly (Reached.sound hbefore) hnever (ih (hstep.never_overtaken hnever))

theorem Reached.late (hreached : r.Reached engine stamps) (hover : r.overtaken id = true)
    (hkept : r.dropped = []) : r.InOrder id → r.Late id := by
  induction hreached with
  | refl => cases hover
  | tail hbefore hstep ih =>
    exact hstep.late (Reached.sound hbefore) hover hkept fun hover hkept => ih hover hkept

/-- Once nothing is under way, and unless a notification was given up, a listener was given frames
in the order of their issue just if none was overtaken on its way to it. -/
theorem Reached.inOrder_iff (hreached : r.Reached engine stamps) (hrest : r.rounds = [])
    (hkept : r.dropped = []) : r.InOrder id ↔ r.overtaken id = false := by
  refine ⟨fun hsorted => ?_, fun hnever => (hreached.orderly hnever).sorted⟩
  by_contra hover
  obtain ⟨round, hround, -⟩ := hreached.late (Bool.not_eq_false _ ▸ hover) hkept hsorted
  rw [hrest] at hround
  cases hround

variable [LE τ] [DecidableLE τ]

/-- Whatever is called, also by listeners while they are being told, the frames that are issued are
those of the states that the engine goes through, in order. A listener on whose way no frame
overtakes an older one is given frames in that order, and the last of them, once all have been told
of the last issue, is the frame of the engine as it is now. Where nothing is under way and nothing
was given up, no other listener is given frames in order. -/
theorem frames_come_in_order_unless_overtaken (engine : Engine τ ν) (stamps : Stamps) :
    (∀ fuel calls, ∃ r : Ledger τ ν, r.Reached engine stamps ∧ r.rounds = [] ∧
      r.house = (House.opening engine stamps).play fuel calls) ∧
    ∀ r : Ledger τ ν, r.Reached engine stamps →
      (∀ fuel call, ∃ r', Leads (perform fuel call r.house).1.isOk r r' ∧
        r'.house = (perform fuel call r.house).2 ∧ r'.rounds = r.rounds) ∧
      r.Sound ∧
      (∃ events, engine.Course events r.house.engine ∧ issued events = r.issues.map (·.frame)) ∧
      ∀ id,
        (r.overtaken id = false → r.InOrder id ∧
          ∀ issue, r.issues.getLast? = some issue → r.Complete (r.issues.length - 1) →
            (∃ listener ∈ issue.audience, listener.id = id) →
              ∃ gift, (r.gifts id).getLast? = some gift ∧ gift.frame = r.house.engine.frame) ∧
        (r.rounds = [] → r.dropped = [] → (r.InOrder id ↔ r.overtaken id = false)) := by
  refine ⟨fun fuel calls => ?_, fun r hreached => ?_⟩
  · obtain ⟨r, hreached, -, hrest, hhouse⟩ := exists_of_play engine stamps fuel calls
    exact ⟨r, hreached, hrest, hhouse⟩
  · refine ⟨hreached.exists_perform, hreached.sound, hreached.exists_course, fun id => ⟨?_, ?_⟩⟩
    · intro hnever
      have hsorted := (hreached.orderly hnever).sorted
      refine ⟨hsorted, fun issue hissue hcomplete hmember => ?_⟩
      rw [hreached.frame_eq hissue]
      exact hsorted.last hreached.sound hissue hcomplete hmember
    · exact hreached.inOrder_iff

/-- The first of two listeners, and the second. -/
def usher : Listener Nat := ⟨0, "usher", fun _ => true, [.title]⟩

def guest : Listener Nat := ⟨1, "guest", fun _ => false, []⟩

/-- The usher is told of the title screen, and goes back to it once more, so that the guest is
overtaken. -/
theorem frames_come_in_order_unless_overtaken_by_an_usher :
    ∃ r : Ledger Nat Save.MemoryStore, r.Reached forkOpening.engine forkOpening.stamps ∧
      r.rounds = [] ∧ r.dropped = [] ∧ r.overtaken usher.id = false ∧
      r.InOrder usher.id ∧ ¬ r.InOrder guest.id ∧
      ∃ gift, (r.gifts usher.id).getLast? = some gift ∧ gift.frame = r.house.engine.frame := by
  have hopening : (opening forkOpening.engine forkOpening.stamps).Reached forkOpening.engine
    forkOpening.stamps := .refl
  have hreached := (((((((((hopening.tail (.enroll usher)).tail (.enroll guest)).tail
    (step_title _)).tail (.give rfl)).tail (step_title _)).tail (.give rfl)).tail (.give rfl)).tail
    (.close rfl rfl)).tail (.give rfl)).tail (.close rfl rfl)
  obtain ⟨-, -, -, hlisteners⟩ := (frames_come_in_order_unless_overtaken _ _).2 _ hreached
  obtain ⟨hsorted, hlast⟩ := (hlisteners usher.id).1 rfl
  refine ⟨_, hreached, rfl, rfl, rfl, hsorted, fun hguest => ?_, hlast _ rfl ⟨?_, ?_⟩ ?_⟩
  · cases ((hlisteners guest.id).2 rfl rfl).mp hguest
  · exact List.not_mem_nil
  · exact List.not_mem_nil
  · exact ⟨usher, List.mem_cons_self, rfl⟩

/-- A text with an effect to be played, a stage that plays it at once, and a seat. -/
def flashScript : Script := (({} : Compiler).compile "【effect:flash】\nBoom").script

def flashing : House Nat Save.MemoryStore :=
  (House.opening (.opening flashScript Timing.usual none) ⟨[], 0⟩).play 40
    [.subscribe "stage" (fun f => f.effect.isSome) [.acknowledge] 1,
      .subscribe "seat" (fun _ => false) [] 0]

/-- The frame with the effect is issued first, and then the one without it. The call returns, but
the seat is given the frame without the effect first, and is left with the other one. -/
theorem a_later_listener_is_left_with_an_old_frame :
    (∃ events, flashing.engine.Course events (flashing.play 40 [.newGame]).engine ∧
        (issued events).map (·.effect) = [some .flash, none]) ∧
      (perform 40 .newGame flashing).1.isOk = true ∧
      (framesFor "seat" (flashing.play 40 [.newGame]).delivered).map (·.effect) =
        [none, some .flash] ∧
      (flashing.play 40 [.newGame]).engine.frame.effect = none := by
  have haudience : flashing.listeners =
      [⟨0, "stage", fun f => f.effect.isSome, [.acknowledge]⟩,
        ⟨1, "seat", fun _ => false, []⟩] := rfl
  have hfront : InFront flashing.listeners
      ⟨0, "stage", fun f => f.effect.isSome, [.acknowledge]⟩ := by
    rw [haudience]
    refine ⟨⟨[], _, rfl, fun _ h => (nomatch h), ?_⟩, ?_⟩
    · simp
    · simp [Call.KeepsAudience]
  obtain ⟨events, hcourse, hgiven⟩ := hfront.play rfl 40 [.newGame] (by simp [Call.KeepsAudience])
  have hnothing : framesFor "stage" flashing.delivered = [] := rfl
  have heffects : (framesFor "stage" (flashing.play 40 [.newGame]).delivered).map (·.effect) =
      [some .flash, none] := by decide +kernel
  rw [hgiven, hnothing, List.nil_append] at heffects
  exact ⟨⟨events, hcourse, heffects⟩, by decide +kernel, by decide +kernel, by decide +kernel⟩

end Ledger

end VisualNovel.Playback
