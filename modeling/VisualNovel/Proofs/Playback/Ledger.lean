import Mathlib.Data.List.Nodup
import VisualNovel.Proofs.Playback.Deliveries

/-!
A record of who was subscribed, what was issued and who was given it. A listener that is being told
may call back before the others have been told, so that notifications lie one inside the other, and
subscriptions come and go while they are under way. The record takes this one step at a time;
whatever is called, the house goes through such steps.
-/
namespace VisualNovel.Playback

open Relation

/-- A subscription, and whether its own unsubscribe function has been called. -/
structure Subscription (τ : Type) where
  listener : Listener τ
  ended : Bool := false

/-- The subscription of a listener has not been ended. -/
def Subscription.holds {τ : Type} (id : Nat) (s : Subscription τ) : Bool :=
  !s.ended && s.listener.id == id

/-- A frame that is issued, and how things were at that moment. -/
structure Issue (τ : Type) where
  frame : Frame
  /-- Those who are to be given the frame. -/
  audience : List (Listener τ)
  /-- The subscriptions that had been made. -/
  book : List (Subscription τ)
  /-- Those to whom older frames were still on their way. -/
  behind : List (Listener τ)

/-- A notification that is under way. -/
structure Round (τ : Type) where
  number : Nat
  issue : Issue τ
  /-- Those who are still to be given the frame. -/
  waiting : List (Listener τ)

/-- A frame that was given to a listener, with the number of its issue. -/
structure Gift (τ : Type) where
  number : Nat
  frame : Frame
  listener : Listener τ

/-- A house, with the record of it. -/
structure Ledger (τ ν : Type) where
  house : House τ ν
  /-- The subscriptions, in the order in which they were made. -/
  book : List (Subscription τ) := []
  /-- The frames that were issued, in order. -/
  issues : List (Issue τ) := []
  /-- The notifications that are under way, the innermost first. -/
  rounds : List (Round τ) := []
  /-- What was given, in order. -/
  given : List (Gift τ) := []
  /-- The issues of which somebody may not have been told, since a call failed. -/
  dropped : List Nat := []
  /-- An unsubscribe function was called again while its listener had another subscription. -/
  tangled : Bool := false

namespace Ledger

variable {τ ν : Type}

/-- Those to whom frames are on their way. -/
def behind (r : Ledger τ ν) : List (Listener τ) := r.rounds.flatMap (·.waiting)

/-- How a change is issued. -/
def announce (r : Ledger τ ν) (c : Change τ ν) : Issue τ :=
  ⟨c.engine.frame, r.house.listeners, r.book, r.behind⟩

def issue (r : Ledger τ ν) (c : Change τ ν) : Ledger τ ν :=
  { r with
    house := { r.house with engine := c.engine }
    issues := r.issues ++ [r.announce c]
    rounds := ⟨r.issues.length, r.announce c, r.house.listeners⟩ :: r.rounds }

def give (r : Ledger τ ν) (number : Nat) (issue : Issue τ) (listener : Listener τ)
    (waiting : List (Listener τ)) (outer : List (Round τ)) : Ledger τ ν :=
  { r with
    house := r.house.record listener issue.frame
    rounds := ⟨number, issue, waiting⟩ :: outer
    given := r.given ++ [⟨number, issue.frame, listener⟩] }

def drop (r : Ledger τ ν) (round : Round τ) (outer : List (Round τ)) : Ledger τ ν :=
  { r with rounds := outer, dropped := r.dropped ++ [round.number] }

def enter (r : Ledger τ ν) (listener : Listener τ) (h : House τ ν) : Ledger τ ν :=
  { r with house := h, book := r.book ++ [{ listener }] }

/-- Calls the unsubscribe function of a subscription. -/
def leave (r : Ledger τ ν) (place : Nat) (s : Subscription τ) : Ledger τ ν :=
  { r with
    house := r.house.removeListener s.listener.id
    book := r.book.set place { s with ended := true }
    tangled := r.tangled || (s.ended && r.book.any (·.holds s.listener.id)) }

section Steps
variable [Save.KeyValueStore ν]
variable [Zero τ] [Add τ] [Mul τ] [NatCast τ] [LT τ] [DecidableLT τ]

/-- A house goes on, and nobody is told of it, nor has anybody come or gone. -/
structure Passes (h h' : House τ ν) : Prop where
  listeners : h'.listeners = h.listeners
  latest : h'.latest = h.latest
  delivered : h'.delivered = h.delivered
  course : ∃ events, h.engine.Course events h'.engine ∧ issued events = []

/-- What can happen, one thing at a time. -/
inductive Step (r : Ledger τ ν) : Ledger τ ν → Prop
  | pass {h : House τ ν} (hpasses : Passes r.house h) : Step r { r with house := h }
  | issue {ev : Event τ ν} (hoccurs : ev.Occurs) (hbefore : r.house.engine = ev.before)
      (htold : ev.change.told = true) : Step r (r.issue ev.change)
  | give {number : Nat} {issue : Issue τ} {listener : Listener τ} {waiting : List (Listener τ)}
      {outer : List (Round τ)} (hround : r.rounds = ⟨number, issue, listener :: waiting⟩ :: outer) :
      Step r (r.give number issue listener waiting outer)
  | close {round : Round τ} {outer : List (Round τ)} (hround : r.rounds = round :: outer)
      (hdone : round.waiting = []) : Step r { r with rounds := outer }
  | drop {round : Round τ} {outer : List (Round τ)} (hround : r.rounds = round :: outer) :
      Step r (r.drop round outer)
  | enroll (listener : Listener τ) : Step r (r.enter listener (r.house.enroll listener))
  | subscribe (name : String) (awaits : Frame → Bool) (reaction : List (Call τ)) (uses : Nat) :
      Step r (r.enter ⟨r.house.usesLeft.size, name, awaits, reaction⟩
        (r.house.subscribe name awaits reaction uses))
  | leave (place : Nat) {s : Subscription τ} (hplace : r.book[place]? = some s) :
      Step r (r.leave place s)

theorem step_title (r : Ledger τ ν) : r.Step (r.issue r.house.engine.returnToTitle) := by
  have hoccurs : (⟨.request .title, _, r.house.engine.returnToTitle⟩ : Event τ ν).Occurs :=
    .request rfl
  exact .issue hoccurs rfl rfl

end Steps

def opening (engine : Engine τ ν) (stamps : Stamps) : Ledger τ ν where
  house := .opening engine stamps

section Chains
variable [Save.KeyValueStore ν]
variable [Zero τ] [Add τ] [Mul τ] [NatCast τ] [LT τ] [DecidableLT τ]

abbrev Steps : Ledger τ ν → Ledger τ ν → Prop := ReflTransGen Step

def Reached (engine : Engine τ ν) (stamps : Stamps) (r : Ledger τ ν) : Prop :=
  (opening engine stamps).Steps r

end Chains

/-- Whoever can be unsubscribed by name has made a subscription. -/
def Booked (r : Ledger τ ν) : Prop :=
  ∀ name listener, r.house.latest.get? name = some listener → ∃ s ∈ r.book, s.listener = listener

section Kept
variable {r r' : Ledger τ ν}

theorem Booked.enter (h : r.Booked) {listener : Listener τ} {house : House τ ν}
    (hlatest : ∀ name l, house.latest.get? name = some l →
      l = listener ∨ r.house.latest.get? name = some l) : (r.enter listener house).Booked := by
  intro name l hl
  rcases hlatest name l hl with rfl | hold
  · exact ⟨_, List.mem_append_right _ List.mem_cons_self, rfl⟩
  · obtain ⟨s, hs, hsame⟩ := h name l hold
    exact ⟨s, List.mem_append_left _ hs, hsame⟩

theorem Booked.leave (h : r.Booked) {place : Nat} {s : Subscription τ}
    (hplace : r.book[place]? = some s) : (r.leave place s).Booked := by
  intro name l hl
  obtain ⟨t, ht, rfl⟩ := h name l hl
  obtain ⟨n, hn⟩ := List.getElem?_of_mem ht
  by_cases hsame : place = n
  · subst hsame
    obtain rfl := Option.some.inj (hplace.symm.trans hn)
    exact ⟨_, List.mem_set (List.getElem?_eq_some_iff.mp hn).1 _, rfl⟩
  · refine ⟨t, ?_, rfl⟩
    exact List.mem_of_getElem? ((List.getElem?_set_ne hsame).trans hn)

variable [Save.KeyValueStore ν]
variable [Zero τ] [Add τ] [Mul τ] [NatCast τ] [LT τ] [DecidableLT τ]

theorem Step.booked (hstep : r.Step r') (h : r.Booked) : r'.Booked := by
  cases hstep with
  | pass hpasses =>
    intro name l hl
    exact h name l (hpasses.latest ▸ hl)
  | enroll listener => exact h.enter fun _ _ hl => Or.inr hl
  | subscribe name awaits reaction uses =>
    refine h.enter fun other l hl => ?_
    rcases eq_or_ne name other with rfl | hne
    · exact Or.inl (Option.some.inj ((KeyedList.get?_insert_self _ _ _).symm.trans hl)).symm
    · exact Or.inr ((KeyedList.get?_insert_of_ne _ _ hne).symm.trans hl)
  | leave place hplace => exact h.leave hplace
  | issue | give | close | drop => exact h

theorem Steps.booked (hsteps : r.Steps r') (h : r.Booked) : r'.Booked := by
  induction hsteps with
  | refl => exact h
  | tail _ hstep ih => exact hstep.booked ih

end Kept

/-- No listener has two subscriptions, and all who are to be given frames are known. -/
structure Plain (r : Ledger τ ν) : Prop where
  clear : r.tangled = false
  distinct : (r.book.map (·.listener.id)).Nodup
  numbered : ∀ id ∈ r.house.usesLeft.keys, id < r.house.usesLeft.size
  known : ∀ s ∈ r.book, s.listener.id ∈ r.house.usesLeft.keys
  present : ∀ l ∈ r.house.listeners ++ r.behind, l.id ∈ r.house.usesLeft.keys

namespace Plain

variable {r r' : Ledger τ ν}

theorem opening (engine : Engine τ ν) (stamps : Stamps) : (opening engine stamps).Plain where
  clear := rfl
  distinct := List.nodup_nil
  numbered _ hid := (List.not_mem_nil hid).elim
  known _ hs := (List.not_mem_nil hs).elim
  present _ hl := (List.not_mem_nil hl).elim

theorem of_same (h : r.Plain) (hbook : r'.book = r.book) (htangled : r'.tangled = r.tangled)
    (hlisteners : r'.house.listeners = r.house.listeners)
    (hkeys : r'.house.usesLeft.keys = r.house.usesLeft.keys)
    (hbehind : ∀ l ∈ r'.behind, l ∈ r.house.listeners ++ r.behind) : r'.Plain where
  clear := htangled.trans h.clear
  distinct := hbook ▸ h.distinct
  numbered := by
    rw [← KeyedList.length_keys, hkeys, KeyedList.length_keys]
    exact h.numbered
  known := by
    rw [hbook, hkeys]
    exact h.known
  present := by
    intro l hl
    rw [hlisteners] at hl
    rw [hkeys]
    rcases List.mem_append.mp hl with hl | hl
    · exact h.present l (List.mem_append_left _ hl)
    · exact h.present l (hbehind l hl)

theorem subscribe (h : r.Plain) (name : String) (awaits : Frame → Bool) (reaction : List (Call τ))
    (uses : Nat) :
    (r.enter ⟨r.house.usesLeft.size, name, awaits, reaction⟩
      (r.house.subscribe name awaits reaction uses)).Plain := by
  let listener : Listener τ := ⟨r.house.usesLeft.size, name, awaits, reaction⟩
  have hnew : listener.id ∉ r.house.usesLeft.keys :=
    fun hmem => Nat.lt_irrefl _ (h.numbered _ hmem)
  have hkeys : (r.house.subscribe name awaits reaction uses).usesLeft.keys =
      r.house.usesLeft.keys ++ [listener.id] :=
    (KeyedList.keys_insert _ _ _).trans (if_neg hnew)
  have hself : listener.id ∈ r.house.usesLeft.keys ++ [listener.id] :=
    List.mem_append_right _ List.mem_cons_self
  refine ⟨h.clear, ?_, ?_, ?_, ?_⟩
  · rw [enter, List.map_append, List.map_singleton, List.nodup_append]
    refine ⟨h.distinct, List.pairwise_singleton _ _, fun id hid other hother hsame => ?_⟩
    obtain ⟨s, hs, rfl⟩ := List.mem_map.mp hid
    have hmem := h.known s hs
    rw [hsame, List.mem_singleton.mp hother] at hmem
    exact hnew hmem
  · intro id hid
    rw [← KeyedList.length_keys]
    rw [enter, hkeys] at hid ⊢
    rw [List.length_append, KeyedList.length_keys, List.length_singleton]
    rcases List.mem_append.mp hid with hid | hid
    · exact Nat.lt_succ_of_lt (h.numbered id hid)
    · exact Nat.lt_succ_of_le (List.mem_singleton.mp hid).le
  · intro s hs
    rw [enter, hkeys]
    rcases List.mem_append.mp hs with hs | hs
    · exact List.mem_append_left _ (h.known s hs)
    · obtain rfl := List.mem_singleton.mp hs
      exact hself
  · intro l hl
    rw [enter, hkeys]
    have hcases : l ∈ r.house.listeners ++ r.behind ∨ l = listener := by
      rcases List.mem_append.mp hl with hl | hl
      · exact (List.mem_append.mp hl).imp (List.mem_append_left _) List.mem_singleton.mp
      · exact Or.inl (List.mem_append_right _ hl)
    rcases hcases with hl | rfl
    · exact List.mem_append_left _ (h.present l hl)
    · exact hself

/-- Nobody is left to be mixed up with a listener that leaves twice. -/
theorem leave (h : r.Plain) {place : Nat} {s : Subscription τ}
    (hplace : r.book[place]? = some s) : (r.leave place s).Plain := by
  have hsame : (r.book.set place { s with ended := true }).map (·.listener.id) =
      r.book.map (·.listener.id) := by
    obtain ⟨hlt, hs⟩ := List.getElem?_eq_some_iff.mp hplace
    rw [List.map_set, ← hs]
    have hlen : place < (r.book.map (·.listener.id)).length := by rwa [List.length_map]
    have hself := List.set_getElem_self hlen
    rwa [List.getElem_map] at hself
  have hmem : s ∈ r.book := List.mem_of_getElem? hplace
  refine ⟨?_, hsame ▸ h.distinct, h.numbered, ?_, ?_⟩
  · rw [Ledger.leave, h.clear, Bool.false_or, Bool.and_eq_false_iff]
    refine or_iff_not_imp_left.mpr fun hended => List.any_eq_false.mpr fun t ht hholds => ?_
    simp only [Subscription.holds, Bool.and_eq_true, Bool.not_eq_true', beq_iff_eq] at hholds
    obtain rfl := List.inj_on_of_nodup_map h.distinct ht hmem hholds.2
    exact hended hholds.1
  · intro t ht
    have hid := List.mem_map_of_mem (f := (·.listener.id)) ht
    rw [Ledger.leave, hsame] at hid
    obtain ⟨t', ht', hid⟩ := List.mem_map.mp hid
    exact hid ▸ h.known t' ht'
  · intro l hl
    refine h.present l ?_
    rcases List.mem_append.mp hl with hl | hl
    · exact List.mem_append_left _ (List.mem_of_mem_eraseP hl)
    · exact List.mem_append_right _ hl

end Plain

variable [Save.KeyValueStore ν]
variable [Zero τ] [Add τ] [Mul τ] [NatCast τ] [LT τ] [DecidableLT τ]

/-- One record goes on to another, while something is done that succeeds or fails. Notifications are
given up only if it fails. -/
structure Leads (ok : Bool) (r r' : Ledger τ ν) : Prop where
  steps : r.Steps r'
  dropped : ok = true → r'.dropped = r.dropped
  plain : r.Plain → r'.Plain

namespace Leads

variable {ok : Bool} {r r' r'' : Ledger τ ν}

theorem refl (r : Ledger τ ν) : Leads true r r := ⟨.refl, fun _ => rfl, id⟩

theorem trans (hfirst : Leads true r r') (hsecond : Leads ok r' r'') : Leads ok r r'' where
  steps := hfirst.steps.trans hsecond.steps
  dropped hok := (hsecond.dropped hok).trans (hfirst.dropped rfl)
  plain hplain := hsecond.plain (hfirst.plain hplain)

theorem fails (h : Leads ok r r') : Leads false r r' := ⟨h.steps, nofun, h.plain⟩

theorem booked (h : Leads ok r r') (hbooked : r.Booked) : r'.Booked := Steps.booked h.steps hbooked

theorem of_step (hstep : r.Step r') (hdropped : r'.dropped = r.dropped) (hbook : r'.book = r.book)
    (htangled : r'.tangled = r.tangled) (hlisteners : r'.house.listeners = r.house.listeners)
    (hkeys : r'.house.usesLeft.keys = r.house.usesLeft.keys)
    (hbehind : ∀ l ∈ r'.behind, l ∈ r.house.listeners ++ r.behind) : Leads true r r' where
  steps := .single hstep
  dropped _ := hdropped
  plain hplain := hplain.of_same hbook htangled hlisteners hkeys hbehind

/-- What has failed gives up the notification it was in. -/
theorem drop (h : Leads ok r r') {round : Round τ} {outer : List (Round τ)}
    (hround : r'.rounds = round :: outer) : Leads false r (r'.drop round outer) where
  steps := h.steps.tail (.drop hround)
  dropped := nofun
  plain hplain := by
    refine (h.plain hplain).of_same rfl rfl rfl rfl fun l hl => List.mem_append_right _ ?_
    rw [behind, hround]
    exact List.mem_append_right _ hl

end Leads

end Ledger

variable {τ ν : Type}

/-- Whatever record there is of a house, it leads to one of the house that comes of something done.
The notifications that were under way are still under way, and no others. -/
def House.Recorded [Save.KeyValueStore ν] [Zero τ] [Add τ] [Mul τ] [NatCast τ] [LT τ]
    [DecidableLT τ] (ok : Bool) (h h' : House τ ν) : Prop :=
  ∀ r : Ledger τ ν, r.house = h → r.Booked →
    ∃ r', Ledger.Leads ok r r' ∧ r'.house = h' ∧ r'.rounds = r.rounds

section Recording
variable {h h' : House τ ν}

theorem House.keys_spend {listener : Listener τ} {f : Frame} {left : Nat}
    (hreacts : h.reacts listener f = some left) :
    (h.spend listener left).usesLeft.keys = h.usesLeft.keys := by
  have hknown : listener.id ∈ h.usesLeft.keys := by
    rw [← KeyedList.isSome_get?_iff]
    unfold House.reacts at hreacts
    split at hreacts
    · next hget => rw [hget]; rfl
    · cases hreacts
  exact (KeyedList.keys_insert _ _ _).trans (if_pos hknown)

variable [Save.KeyValueStore ν]
variable [Zero τ] [Add τ] [Mul τ] [NatCast τ] [LT τ] [DecidableLT τ]

theorem House.recorded_serial :
    Timer.Serial (House.Recorded : Bool → House τ ν → House τ ν → Prop) where
  refl h r hr _ := ⟨r, .refl r, hr, rfl⟩
  trans hfirst hsecond r hr hbooked := by
    obtain ⟨r', hleads, hr', hrounds⟩ := hfirst r hr hbooked
    obtain ⟨r'', hleads', hr'', hrounds'⟩ := hsecond r' hr' (hleads.booked hbooked)
    exact ⟨r'', hleads.trans hleads', hr'', hrounds'.trans hrounds⟩
  fails h r hr hbooked := by
    obtain ⟨r', hleads, hr', hrounds⟩ := h r hr hbooked
    exact ⟨r', hleads.fails, hr', hrounds⟩

theorem House.recorded_of_passes (hpasses : Ledger.Passes h h')
    (hkeys : h'.usesLeft.keys = h.usesLeft.keys) : House.Recorded true h h' := by
  rintro r rfl -
  refine ⟨{ r with house := h' }, ?_, rfl, rfl⟩
  exact .of_step (.pass hpasses) rfl rfl rfl hpasses.listeners hkeys
    fun l hl => List.mem_append_right _ hl

theorem House.recorded_spend {listener : Listener τ} {f : Frame} {left : Nat}
    (hreacts : h.reacts listener f = some left) : House.Recorded true h (h.spend listener left) :=
  recorded_of_passes ⟨rfl, rfl, rfl, [], .nil _, rfl⟩ (keys_spend hreacts)

variable {perform : Call τ → HouseAction τ ν (Reply τ)}

/-- Gives a frame to those who wait for it, with all that they call. -/
theorem Ledger.exists_deliver (hperform : Keeps (fun _ => True) House.Recorded perform)
    {r : Ledger τ ν} (hbooked : r.Booked) (round : Round τ) (outer : List (Round τ))
    (hround : r.rounds = round :: outer) :
    ∃ r', Ledger.Leads (deliver perform round.issue.frame round.waiting r.house).1.isOk r r' ∧
      r'.house = (deliver perform round.issue.frame round.waiting r.house).2 ∧
      r'.rounds = outer := by
  obtain ⟨number, issue, waiting⟩ := round
  dsimp only
  induction waiting generalizing r with
  | nil =>
    refine ⟨{ r with rounds := outer }, ?_, rfl, rfl⟩
    refine .of_step (.close hround rfl) rfl rfl rfl rfl rfl fun l hl => ?_
    exact List.mem_append_right _ (by rw [behind, hround]; exact List.mem_append_right _ hl)
  | cons listener waiting ih =>
    have htold : Ledger.Leads true r (r.give number issue listener waiting outer) := by
      refine .of_step (.give hround) rfl rfl rfl rfl rfl fun l hl => ?_
      exact List.mem_append_right _ (by rw [behind, hround]; exact List.mem_cons_of_mem _ hl)
    cases hreacts : (r.house.record listener issue.frame).reacts listener issue.frame with
    | none =>
      rw [deliver_of_quiet hreacts]
      obtain ⟨r', hleads, hhouse, hrounds⟩ := ih (htold.booked hbooked) rfl
      exact ⟨r', htold.trans hleads, hhouse, hrounds⟩
    | some left =>
      rw [deliver_of_reacting hreacts]
      obtain ⟨r', hleads, hhouse, hrounds⟩ := House.recorded_serial.trans
        (House.recorded_spend hreacts) (makeCalls_keeps House.recorded_serial hperform
          listener.reaction (fun call _ => call.within_any) _) _ rfl (htold.booked hbooked)
      rcases hcalls : makeCalls perform listener.reaction
        ((r.house.record listener issue.frame).spend listener left) with ⟨halt | _, h⟩
      · rw [Timer.Action.seq_of_error hcalls]
        rw [hcalls] at hhouse
        exact ⟨_, (htold.trans hleads).drop hrounds, hhouse, rfl⟩
      · rw [Timer.Action.seq_of_ok hcalls]
        rw [hcalls] at hleads hhouse
        obtain ⟨r'', hleads', hhouse', hrounds'⟩ := ih ((htold.trans hleads).booked hbooked) hrounds
        rw [hhouse] at hleads' hhouse'
        exact ⟨r'', (htold.trans hleads).trans hleads', hhouse', hrounds'⟩

/-- What an event does, down to the last who is told of it. -/
theorem House.recorded_publish (hperform : Keeps (fun _ => True) House.Recorded perform)
    {ev : Event τ ν} (hoccurs : ev.Occurs) (hbefore : h.engine = ev.before) :
    House.Recorded (publish perform ev.change h).1.isOk h (publish perform ev.change h).2 := by
  unfold publish
  dsimp only
  split
  · next htold =>
    rintro r rfl hbooked
    have hissue : Ledger.Leads true r (r.issue ev.change) :=
      .of_step (.issue hoccurs hbefore htold) rfl rfl rfl rfl rfl fun l hl => hl
    obtain ⟨r', hleads, hhouse, hrounds⟩ :=
      Ledger.exists_deliver hperform (hissue.booked hbooked) _ _ rfl
    exact ⟨r', hissue.trans hleads, hhouse, hrounds⟩
  · next hquiet =>
    refine recorded_of_passes ⟨rfl, rfl, rfl, [ev], hbefore ▸ .single hoccurs, ?_⟩ rfl
    rw [issued_cons, Event.frame?, if_neg hquiet]
    rfl

variable [LE τ] [DecidableLE τ]

theorem House.recorded_traced : House.Traced (fun _ => True)
    (House.Recorded : Bool → House τ ν → House τ ν → Prop) where
  refl := recorded_serial.refl
  fails := recorded_serial.fails
  granted hperform _ _ _ _ hgranted := recorded_publish hperform (.request hgranted) rfl
  save {h slot room} _ := by
    obtain ⟨saves, stamps, heq⟩ := h.save_eq room slot
    rw [heq]
    exact recorded_of_passes ⟨rfl, rfl, rfl, [], .saves saves (.nil _), rfl⟩ rfl
  stored {h text room} _ := by
    obtain ⟨saves, heq⟩ := h.setStoredText_eq room text
    rw [heq]
    exact recorded_of_passes ⟨rfl, rfl, rfl, [], .saves saves (.nil _), rfl⟩ rfl
  subscribed := by
    rintro _ name awaits reaction uses - - r rfl -
    refine ⟨_, ⟨.single (.subscribe name awaits reaction uses), fun _ => rfl, ?_⟩, rfl, rfl⟩
    exact fun hplain => hplain.subscribe name awaits reaction uses
  unsubscribed := by
    rintro _ name _ - hlatest r rfl hbooked
    obtain ⟨s, hs, rfl⟩ := hbooked name _ hlatest
    obtain ⟨place, hplace⟩ := List.getElem?_of_mem hs
    refine ⟨_, ⟨.single (.leave place hplace), fun _ => rfl, ?_⟩, rfl, rfl⟩
    exact fun hplain => hplain.leave hplace
  wait hperform _ _ fuel h := Timer.runUntil_keeps recorded_serial
    (fun h _ _ _ hdue => recorded_publish hperform (h := h) (.timer hdue) rfl)
    (fun _ _ hquiet => recorded_of_passes ⟨rfl, rfl, rfl, [], .clock hquiet (.nil _), rfl⟩ rfl)
    _ fuel 0 h
  idle hperform _ _ fuel h := Timer.runUntilQuiet_keeps recorded_serial
    (fun h _ _ _ hdue => recorded_publish hperform (h := h) (.timer hdue) rfl)
    (fun _ _ hquiet => recorded_of_passes ⟨rfl, rfl, rfl, [], .clock hquiet (.nil _), rfl⟩ rfl)
    _ fuel 0 h

end Recording

variable [Save.KeyValueStore ν]
variable [Zero τ] [Add τ] [Mul τ] [NatCast τ] [LT τ] [DecidableLT τ]

section Calls
variable {engine : Engine τ ν} {stamps : Stamps}

theorem Ledger.Reached.booked {r : Ledger τ ν} (hreached : r.Reached engine stamps) : r.Booked :=
  Ledger.Steps.booked hreached nofun

variable [LE τ] [DecidableLE τ]

/-- Whatever is called, the record of a house goes on to one of the house after the call. -/
theorem Ledger.Reached.exists_perform {r : Ledger τ ν} (hreached : r.Reached engine stamps)
    (fuel : Nat) (call : Call τ) :
    ∃ r', Ledger.Leads (perform fuel call r.house).1.isOk r r' ∧
      r'.house = (perform fuel call r.house).2 ∧ r'.rounds = r.rounds :=
  perform_traces House.recorded_traced fuel call call.within_any r.house r rfl hreached.booked

/-- So it does when calls are made one after the other. -/
theorem Ledger.Reached.exists_play {r : Ledger τ ν} (hreached : r.Reached engine stamps)
    (fuel : Nat) (calls : List (Call τ)) :
    ∃ r', Ledger.Leads false r r' ∧ r'.house = r.house.play fuel calls ∧
      r'.rounds = r.rounds := by
  induction calls generalizing r with
  | nil => exact ⟨r, (Ledger.Leads.refl r).fails, rfl, rfl⟩
  | cons call rest ih =>
    obtain ⟨r', hcall, hhouse, hrounds⟩ := hreached.exists_perform fuel call
    obtain ⟨r'', hrest, hhouse', hrounds'⟩ := ih (hreached.trans hcall.steps)
    refine ⟨r'', ⟨hcall.steps.trans hrest.steps, nofun, hrest.plain ∘ hcall.plain⟩, ?_,
      hrounds'.trans hrounds⟩
    rw [hhouse', hhouse]
    rfl

/-- Every play has its record, with nothing under way at the end. -/
theorem Ledger.exists_of_play (engine : Engine τ ν) (stamps : Stamps) (fuel : Nat)
    (calls : List (Call τ)) :
    ∃ r : Ledger τ ν, r.Reached engine stamps ∧ r.Plain ∧ r.rounds = [] ∧
      r.house = (House.opening engine stamps).play fuel calls := by
  have hopening : (Ledger.opening engine stamps).Reached engine stamps := .refl
  obtain ⟨r, hleads, hhouse, hrounds⟩ := hopening.exists_play fuel calls
  exact ⟨r, hleads.steps, hleads.plain (.opening engine stamps), hrounds, hhouse⟩

end Calls

end VisualNovel.Playback
