import VisualNovel.Proofs.Playback.Accounts

/-!
Subscriptions count one by one. A listener is given each frame once for every subscription it has at
the moment when the frame is issued; to call an unsubscribe function again changes nothing, unless
the listener has another subscription, which is then lost in its place.
-/
namespace VisualNovel.Playback.Ledger

variable {τ ν : Type}

/-- How often a listener is to be told. -/
def seats (id : Nat) (audience : List (Listener τ)) : Nat := audience.countP (·.id == id)

/-- How many subscriptions a listener has that have not been ended. -/
def holding (id : Nat) (book : List (Subscription τ)) : Nat := book.countP (·.holds id)

theorem seats_concat (id : Nat) (audience : List (Listener τ)) (listener : Listener τ) :
    seats id (audience ++ [listener]) = seats id audience + if listener.id == id then 1 else 0 := by
  rw [seats, List.countP_append, List.countP_singleton]
  rfl

theorem seats_removed (id other : Nat) (audience : List (Listener τ)) :
    seats id (audience.eraseP (·.id == other)) =
      seats id audience - if other == id then 1 else 0 := by
  induction audience with
  | nil => simp [seats]
  | cons listener rest ih =>
    unfold seats at ih ⊢
    by_cases hthis : listener.id = other
    · subst hthis
      rw [List.eraseP_cons_of_pos (by simp), List.countP_cons]
      omega
    · rw [List.eraseP_cons_of_neg (by simpa using hthis), List.countP_cons, ih, List.countP_cons]
      by_cases hid : other = id
      · have hne : listener.id ≠ id := hid ▸ hthis
        simp [hid, hne]
      · simp [hid]

theorem holding_concat (id : Nat) (book : List (Subscription τ)) (listener : Listener τ) :
    holding id (book ++ [⟨listener, false⟩]) =
      holding id book + if listener.id == id then 1 else 0 := by
  rw [holding, List.countP_append, List.countP_singleton]
  simp [holding, Subscription.holds]

theorem holding_ended (id : Nat) {book : List (Subscription τ)} {place : Nat}
    {s : Subscription τ} (hplace : book[place]? = some s) :
    holding id (book.set place { s with ended := true }) =
      holding id book - if s.holds id then 1 else 0 := by
  obtain ⟨hlt, rfl⟩ := List.getElem?_eq_some_iff.mp hplace
  rw [holding, List.countP_set hlt]
  simp [holding, Subscription.holds]

/-- Each listener is counted by its subscriptions: at the moment, and for every frame that was
issued. -/
structure Tallied (r : Ledger τ ν) : Prop where
  seated : ∀ id, seats id r.house.listeners = holding id r.book
  issued : ∀ issue ∈ r.issues, ∀ id, seats id issue.audience = holding id issue.book

namespace Tallied

variable {r : Ledger τ ν}

theorem opening (engine : Engine τ ν) (stamps : Stamps) : (opening engine stamps).Tallied where
  seated _ := rfl
  issued _ hissue := (List.not_mem_nil hissue).elim

theorem enter (h : r.Tallied) (listener : Listener τ) {house : House τ ν}
    (hlisteners : house.listeners = r.house.listeners ++ [listener]) :
    (r.enter listener house).Tallied where
  seated id := by
    rw [Ledger.enter, hlisteners, seats_concat, holding_concat, h.seated]
  issued := h.issued

/-- Nobody is left to remove if a listener is to leave that has no subscription. -/
theorem removeListener_again_iff (h : r.Tallied) (id : Nat) :
    (r.house.removeListener id).listeners = r.house.listeners ↔
      r.book.any (·.holds id) = false := by
  have hseats : seats id r.house.listeners = 0 ↔ holding id r.book = 0 := by rw [h.seated]
  rw [House.removeListener, List.eraseP_eq_self_iff, List.any_eq_false]
  exact List.countP_eq_zero.symm.trans (hseats.trans List.countP_eq_zero)

theorem leave (h : r.Tallied) {place : Nat} {s : Subscription τ}
    (hplace : r.book[place]? = some s) (hclear : (r.leave place s).tangled = false) :
    (r.leave place s).Tallied where
  seated id := by
    have hbook : holding id (r.leave place s).book = _ := holding_ended id hplace
    rw [hbook]
    cases hended : s.ended with
    | false =>
      have hholds : s.holds id = (s.listener.id == id) := by simp [Subscription.holds, hended]
      have hseats : seats id (r.leave place s).house.listeners = _ := seats_removed id _ _
      rw [hseats, hholds, h.seated]
    | true =>
      have hholds : s.holds id = false := by simp [Subscription.holds, hended]
      have hnone : r.book.any (·.holds s.listener.id) = false := by
        simp only [Ledger.leave, hended, Bool.true_and, Bool.or_eq_false_iff] at hclear
        exact hclear.2
      have hsame : (r.leave place s).house.listeners = _ :=
        (h.removeListener_again_iff _).mpr hnone
      rw [hsame, hholds, h.seated]
      rfl
  issued := h.issued

end Tallied

variable [Save.KeyValueStore ν]
variable [Zero τ] [Add τ] [Mul τ] [NatCast τ] [LT τ] [DecidableLT τ]
variable {r r' : Ledger τ ν} {engine : Engine τ ν} {stamps : Stamps}

theorem Step.clear (hstep : r.Step r') (hclear : r'.tangled = false) : r.tangled = false := by
  cases hstep with
  | leave place hplace => exact (Bool.or_eq_false_iff.mp hclear).1
  | _ => exact hclear

theorem Step.tallied (hstep : r.Step r') (hclear : r'.tangled = false) (h : r.Tallied) :
    r'.Tallied := by
  cases hstep with
  | pass hpasses =>
    refine ⟨?_, h.issued⟩
    rw [hpasses.listeners]
    exact h.seated
  | issue =>
    refine ⟨h.seated, fun issue hissue => ?_⟩
    rcases List.mem_append.mp hissue with hold | hnew
    · exact h.issued issue hold
    · obtain rfl := List.mem_singleton.mp hnew
      exact h.seated
  | enroll listener => exact h.enter listener rfl
  | subscribe => exact h.enter _ rfl
  | leave place hplace => exact h.leave hplace hclear
  | give | close | drop => exact ⟨h.seated, h.issued⟩

theorem Reached.tallied (hreached : r.Reached engine stamps) (hclear : r.tangled = false) :
    r.Tallied := by
  induction hreached with
  | refl => exact .opening engine stamps
  | tail _ hstep ih => exact hstep.tallied hclear (ih (hstep.clear hclear))

/-- What is delivered, told by the subscriptions. -/
structure CountsOneByOne (r : Ledger τ ν) : Prop where
  /-- Everything that was delivered is a frame that was issued. -/
  delivered : r.house.delivered = r.given.map fun gift => (gift.listener.name, gift.frame)
  given : ∀ gift ∈ r.given, ∃ issue, r.issues[gift.number]? = some issue ∧ issue.frame = gift.frame
  /-- Each frame comes to a listener as often as it had subscriptions when the frame was issued. -/
  told : ∀ number issue, r.issues[number]? = some issue → r.Complete number →
    ∀ id, seats id (r.told number) = holding id issue.book
  /-- The next frame will come to a listener as often as it has subscriptions now. -/
  seated : ∀ id, seats id r.house.listeners = holding id r.book
  /-- To end a subscription again removes nobody, exactly if its listener has no other. -/
  again : ∀ place s, r.book[place]? = some s → s.ended = true →
    ((r.leave place s).house.listeners = r.house.listeners ↔ (r.leave place s).tangled = false)

theorem Reached.countsOneByOne (hreached : r.Reached engine stamps) (hclear : r.tangled = false) :
    r.CountsOneByOne where
  delivered := hreached.sound.delivered
  given := hreached.sound.given
  told number issue hissue hcomplete id := by
    rw [hreached.sound.complete number issue hissue hcomplete]
    exact (hreached.tallied hclear).issued issue (List.mem_of_getElem? hissue) id
  seated := (hreached.tallied hclear).seated
  again place s hplace hended := by
    refine ((hreached.tallied hclear).removeListener_again_iff s.listener.id).trans ?_
    rw [leave, hclear, hended, Bool.true_and, Bool.false_or]

variable [LE τ] [DecidableLE τ]

/-- In every record of subscriptions, of calls of their unsubscribe functions and of whatever else
is called, also by listeners, each frame of which everybody could be told has come to each listener
once for every subscription it had when the frame was issued, and a subscription that has been ended
can be ended again without effect, as long as no unsubscribe function is called again while its
listener has another subscription. Every call leads from record to record, and plays by name never
get into that case. -/
theorem subscriptions_count_one_by_one (engine : Engine τ ν) (stamps : Stamps) :
    (∀ fuel calls, ∃ r : Ledger τ ν, r.Reached engine stamps ∧ r.tangled = false ∧ r.rounds = [] ∧
      r.house = (House.opening engine stamps).play fuel calls) ∧
    ∀ r : Ledger τ ν, r.Reached engine stamps →
      (∀ fuel call, ∃ r', Leads (perform fuel call r.house).1.isOk r r' ∧
        r'.house = (perform fuel call r.house).2 ∧ r'.rounds = r.rounds) ∧
      (r.tangled = false → r.CountsOneByOne) := by
  refine ⟨fun fuel calls => ?_, fun r hreached => ⟨hreached.exists_perform, ?_⟩⟩
  · obtain ⟨r, hreached, hplain, hrest, hhouse⟩ := exists_of_play engine stamps fuel calls
    exact ⟨r, hreached, hplain.clear, hrest, hhouse⟩
  · exact hreached.countsOneByOne

/-- One who only looks on. -/
def eye : Listener Nat := ⟨0, "eye", fun _ => false, []⟩

theorem subscriptions_count_one_by_one_for_an_eye :
    ∃ r : Ledger Nat Save.MemoryStore, r.Reached forkOpening.engine forkOpening.stamps ∧
      r.tangled = false ∧ r.CountsOneByOne ∧ r.house.delivered.map (·.1) = ["eye", "eye", "eye"] ∧
      holding eye.id r.book = 1 := by
  have hopening : (opening forkOpening.engine forkOpening.stamps).Reached forkOpening.engine
    forkOpening.stamps := .refl
  -- Two subscriptions, a frame for each, one of them ended, and one more frame.
  have hreached := ((((((((hopening.tail (.enroll eye)).tail (.enroll eye)).tail
    (step_title _)).tail (.give rfl)).tail (.give rfl)).tail (.close rfl rfl)).tail
    (.leave 0 rfl)).tail (step_title _)).tail (.give rfl)
  exact ⟨_, hreached, rfl, ((subscriptions_count_one_by_one _ _).2 _ hreached).2 rfl, rfl, rfl⟩

/-- Of two subscriptions, the first has been ended twice. -/
def endedTwice : Ledger Nat Save.MemoryStore :=
  let r₁ := (opening forkOpening.engine forkOpening.stamps).enter eye (forkOpening.enroll eye)
  let r₂ := r₁.enter eye (r₁.house.enroll eye)
  (r₂.leave 0 ⟨eye, false⟩).leave 0 ⟨eye, true⟩

/-- The eye is not told of a new game, although its second subscription has not been ended. -/
theorem subscriptions_do_not_always_count :
    endedTwice.Reached forkOpening.engine forkOpening.stamps ∧
      holding eye.id endedTwice.book = 1 ∧
      (perform 40 .newGame endedTwice.house).2.delivered = [] := by
  have hopening : (opening forkOpening.engine forkOpening.stamps).Reached forkOpening.engine
    forkOpening.stamps := .refl
  have hreached := (((hopening.tail (.enroll eye)).tail (.enroll eye)).tail (.leave 0 rfl)).tail
    (.leave 0 rfl)
  exact ⟨hreached, by decide +kernel, by decide +kernel⟩

end VisualNovel.Playback.Ledger
