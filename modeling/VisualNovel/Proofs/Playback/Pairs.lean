import Mathlib.Data.List.Destutter
import VisualNovel.Proofs.Playback.Runs

/-!
Two houses side by side. If their engines answer every request alike and go alike through every move
of the clock, then whatever one house does with its listeners, the other does as well, though it may
need more fuel for it, and nobody who watches can tell them apart.
-/
namespace VisualNovel.Playback

variable {τ ν : Type}

/-- How an action ended, if it failed. -/
def failure {ρ : Type} : Except (Timer.Halt CallError) ρ → Option (Timer.Halt CallError)
  | .ok _ => none
  | .error halt => some halt

theorem eq_ok_of_failure {ρ ρ' : Type} {r : Except (Timer.Halt CallError) ρ} {a : ρ'}
    (h : failure r = failure (.ok a : Except (Timer.Halt CallError) ρ')) : ∃ b, r = .ok b := by
  cases r with
  | ok b => exact ⟨b, rfl⟩
  | error halt => cases h

theorem eq_error_of_failure {ρ ρ' : Type} {r : Except (Timer.Halt CallError) ρ}
    {halt : Timer.Halt CallError}
    (h : failure r = failure (.error halt : Except (Timer.Halt CallError) ρ')) :
    r = .error halt := by
  cases r with
  | ok b => cases h
  | error halt' =>
    cases h
    rfl

theorem ne_outOfFuel_of_failure {ρ ρ' : Type} {r : Except (Timer.Halt CallError) ρ}
    {r' : Except (Timer.Halt CallError) ρ'} (h : failure r' = failure r)
    (hdone : r ≠ .error .outOfFuel) : r' ≠ .error .outOfFuel := by
  rintro rfl
  exact hdone (eq_error_of_failure h.symm)

/-- The clock is moved by given amounts of time only. A move that ends when nothing waits any more
would tell how long old timers wait. -/
def Call.Timed (call : Call τ) : Prop := ∀ limit, call ≠ .idle limit

/-- Two houses that differ in their engines only. -/
structure Pairs (E : Engine τ ν → Engine τ ν → Prop) (h h' : House τ ν) : Prop where
  engines : E h.engine h'.engine
  rest : h' = { h with engine := h'.engine }
  timed : h.Within Call.Timed

/-- Two actions end alike, and leave pairs. -/
def Agree {ρ : Type} (E : Engine τ ν → Engine τ ν → Prop)
    (r r' : Except (Timer.Halt CallError) ρ × House τ ν) : Prop :=
  failure r'.1 = failure r.1 ∧ Pairs E r.2 r'.2

/-- What there is to see of a house: the session, its generation, and what has been delivered. -/
structure Sight where
  session : Session
  generation : Nat
  delivered : List (String × Frame)
deriving DecidableEq

def House.sight (h : House τ ν) : Sight := ⟨h.engine.session, h.engine.generation, h.delivered⟩

/-- What is seen of states one after the other, without repetitions. -/
def sights (states : List (House τ ν)) : List Sight :=
  (states.map House.sight).destutter (· ≠ ·)

theorem sights_of_same {h t : House τ ν} (hsame : t.sight = h.sight) (rest : List (House τ ν)) :
    sights (h :: t :: rest) = sights (t :: rest) := by
  unfold sights
  rw [List.map_cons, List.map_cons, List.destutter_cons', List.destutter_cons', ← hsame]
  exact List.destutter'_cons_neg _ (by simp)

theorem sights_congr {h h' t t' : House τ ν} {rest rest' : List (House τ ν)}
    (hfirst : h'.sight = h.sight) (hsecond : t'.sight = t.sight)
    (hrest : sights (t' :: rest') = sights (t :: rest)) :
    sights (h' :: t' :: rest') = sights (h :: t :: rest) := by
  unfold sights at hrest ⊢
  simp only [List.map_cons, List.destutter_cons', hsecond] at hrest ⊢
  rw [hfirst, List.destutter'_cons, List.destutter'_cons]
  split
  · rw [hrest]
  · next hsame =>
    rw [Decidable.not_not] at hsame
    rw [hsame, hrest]

theorem sights_pair {h h' t t' : House τ ν} (hfirst : h'.sight = h.sight)
    (hsecond : t'.sight = t.sight) : sights [h', t'] = sights [h, t] := by
  refine sights_congr hfirst hsecond ?_
  unfold sights
  rw [List.map_singleton, List.map_singleton, hsecond]

/-- Engines that correspond may differ in their agendas, but in nothing else. -/
def DifferInAgendas (E : Engine τ ν → Engine τ ν → Prop) : Prop :=
  ∀ e e', E e e' → ∃ agenda, e' = { e with agenda }

theorem Pairs.sight_eq {E : Engine τ ν → Engine τ ν → Prop} (hE : DifferInAgendas E)
    {h h' : House τ ν} (hpairs : Pairs E h h') : h'.sight = h.sight := by
  obtain ⟨e', rfl⟩ : ∃ e', h' = { h with engine := e' } := ⟨h'.engine, hpairs.rest⟩
  have hengines : E h.engine e' := hpairs.engines
  obtain ⟨agenda, rfl⟩ := hE _ _ hengines
  rfl

section Sequences
variable {E : Engine τ ν → Engine τ ν → Prop} {h h' : House τ ν} {ρ ρ' : Type}

/-- Where one action comes to an end, one of a family that needs fuel ends alike. -/
def Mirrors (E : Engine τ ν → Engine τ ν → Prop) (act : HouseAction τ ν ρ)
    (acts : Nat → HouseAction τ ν ρ) (h h' : House τ ν) : Prop :=
  (act h).1 ≠ .error .outOfFuel → ∃ fuel, Agree E (act h) (acts fuel h')

theorem Mirrors.seq {act : HouseAction τ ν ρ} {next : HouseAction τ ν ρ'}
    {acts : Nat → HouseAction τ ν ρ} {nexts : Nat → HouseAction τ ν ρ'}
    (hacts : ∀ fuel fuel', fuel ≤ fuel' → (acts fuel).Extends (acts fuel'))
    (hnexts : ∀ fuel fuel', fuel ≤ fuel' → (nexts fuel).Extends (nexts fuel'))
    (hact : Mirrors E act acts h h')
    (hnext : ∀ t t', Pairs E t t' → Mirrors E next nexts t t') :
    Mirrors E (act.seq fun _ => next) (fun fuel => (acts fuel).seq fun _ => nexts fuel) h h' := by
  intro hdone
  have hhead := Timer.Action.ne_outOfFuel_of_seq hdone
  obtain ⟨fuel, hend, hpairs⟩ := hact hhead
  have hhead' := ne_outOfFuel_of_failure hend hhead
  rcases hrun : act h with ⟨halt | a, t⟩
  · rw [hrun] at hend hpairs
    have hrun' : acts fuel h' = (.error halt, (acts fuel h').2) :=
      Prod.ext (eq_error_of_failure hend) rfl
    refine ⟨fuel, ?_⟩
    dsimp only
    rw [Timer.Action.seq_of_error hrun, Timer.Action.seq_of_error hrun']
    exact ⟨rfl, hpairs⟩
  · rw [hrun] at hend hpairs
    rw [Timer.Action.seq_of_ok hrun] at hdone
    obtain ⟨b, hb⟩ := eq_ok_of_failure hend
    obtain ⟨fuel', hend', hpairs'⟩ := hnext t _ hpairs hdone
    have hmore := hacts fuel (max fuel fuel') (Nat.le_max_left _ _) h' hhead'
    have hrun' : acts (max fuel fuel') h' = (.ok b, (acts fuel h').2) :=
      hmore.trans (Prod.ext hb rfl)
    have hmore' := hnexts fuel' (max fuel fuel') (Nat.le_max_right _ _) (acts fuel h').2
      (ne_outOfFuel_of_failure hend' hdone)
    refine ⟨max fuel fuel', ?_⟩
    dsimp only
    rw [Timer.Action.seq_of_ok hrun, Timer.Action.seq_of_ok hrun', hmore']
    exact ⟨hend', hpairs'⟩

end Sequences

variable {E : Engine τ ν → Engine τ ν → Prop}

section Listening
variable [Save.KeyValueStore ν]
variable [Zero τ] [Add τ] [Mul τ] [NatCast τ] [LT τ] [DecidableLT τ] [LE τ] [DecidableLE τ]

/-- A way to perform calls that pairs of houses follow alike. -/
def Mirrored (E : Engine τ ν → Engine τ ν → Prop)
    (act : Call τ → HouseAction τ ν (Reply τ)) : Prop :=
  ∀ call : Call τ, call.Within Call.Timed → ∀ h h' : House τ ν, Pairs E h h' →
    Mirrors E (act call) (fun fuel => perform fuel call) h h'

section Delivery
variable {act : Call τ → HouseAction τ ν (Reply τ)}

theorem makeCalls_mirrors (hact : Mirrored E act) (calls : List (Call τ))
    (hcalls : ∀ call ∈ calls, call.Within Call.Timed) {h h' : House τ ν} (hpairs : Pairs E h h') :
    Mirrors E (makeCalls act calls) (fun fuel => makeCalls (perform fuel) calls) h h' := by
  induction calls generalizing h h' with
  | nil => exact fun _ => ⟨0, rfl, hpairs⟩
  | cons call rest ih =>
    simp only [makeCalls_cons]
    refine Mirrors.seq ?_ ?_ ?_ ?_
    · exact fun fuel fuel' hle => perform_extends hle call
    · exact fun fuel fuel' hle => makeCalls_extends (fun c => perform_extends hle c) rest
    · exact hact call (hcalls call List.mem_cons_self) h h' hpairs
    · exact fun t t' ht => ih (fun c hc => hcalls c (List.mem_cons_of_mem call hc)) ht

theorem deliver_mirrors (hact : Mirrored E act) (f : Frame) (listeners : List (Listener τ))
    (hlisteners : ∀ listener ∈ listeners, ∀ call ∈ listener.reaction, call.Within Call.Timed)
    {h h' : House τ ν} (hpairs : Pairs E h h') :
    Mirrors E (deliver act f listeners) (fun fuel => deliver (perform fuel) f listeners) h h' := by
  induction listeners generalizing h h' with
  | nil => exact fun _ => ⟨0, rfl, hpairs⟩
  | cons listener rest ih =>
    have hrest : ∀ l ∈ rest, ∀ call ∈ l.reaction, call.Within Call.Timed :=
      fun l hl => hlisteners l (List.mem_cons_of_mem listener hl)
    obtain ⟨e', rfl⟩ : ∃ e', h' = { h with engine := e' } := ⟨h'.engine, hpairs.rest⟩
    unfold Mirrors
    cases hreacts : (h.record listener f).reacts listener f with
    | none =>
      have hreacts' : (({ h with engine := e' } : House τ ν).record listener f).reacts listener f =
        none := hreacts
      simp only [deliver_of_quiet hreacts, deliver_of_quiet hreacts']
      refine ih hrest ?_
      exact ⟨hpairs.engines, rfl, hpairs.timed⟩
    | some left =>
      have hreacts' : (({ h with engine := e' } : House τ ν).record listener f).reacts listener f =
        some left := hreacts
      simp only [deliver_of_reacting hreacts, deliver_of_reacting hreacts']
      refine Mirrors.seq ?_ ?_ ?_ ?_
      · exact fun fuel fuel' hle => makeCalls_extends (fun c => perform_extends hle c) _
      · exact fun fuel fuel' hle => deliver_extends (fun c => perform_extends hle c) f rest
      · refine makeCalls_mirrors hact listener.reaction (hlisteners listener List.mem_cons_self) ?_
        exact ⟨hpairs.engines, rfl, hpairs.timed⟩
      · exact fun t t' ht => ih hrest ht

/-- Two changes that are told alike leave a pair, whatever the listeners do. -/
theorem publish_mirrors (hact : Mirrored E act) {c c' : Change τ ν}
    (hengines : E c.engine c'.engine) (htold : c'.told = c.told)
    (hframe : c'.engine.frame = c.engine.frame) {h : House τ ν} (htimed : h.Within Call.Timed)
    (e' : Engine τ ν) :
    Mirrors E (publish act c) (fun fuel => publish (perform fuel) c') h
      { h with engine := e' } := by
  have hpairs : Pairs E { h with engine := c.engine } { h with engine := c'.engine } :=
    ⟨hengines, rfl, htimed⟩
  unfold Mirrors publish
  dsimp only
  rw [htold, hframe]
  split
  · exact deliver_mirrors hact c.engine.frame h.listeners htimed hpairs
  · exact fun _ => ⟨0, rfl, hpairs⟩

end Delivery

end Listening

theorem Agree.replying {ρ : Type} {reply reply' : ρ → Reply τ}
    {r r' : Except (Timer.Halt CallError) ρ × House τ ν} (h : Agree E r r') :
    Agree E (Playback.replying reply r) (Playback.replying reply' r') := by
  obtain ⟨hend, hpairs⟩ := h
  refine ⟨?_, hpairs⟩
  obtain ⟨result, t⟩ := r
  obtain ⟨result', t'⟩ := r'
  cases result <;> cases result' <;> cases hend <;> rfl

variable [Save.KeyValueStore ν]

theorem Engine.save_withAgenda (e : Engine τ ν) (agenda : Timer.Agenda τ Alarm) (room : Nat)
    (id : Int) (stamp : Calendar.Moment) :
    ({ e with agenda } : Engine τ ν).save room id stamp =
      (e.save room id stamp).map fun r => (r.1, { r.2 with agenda }) := by
  have htarget : ({ e with agenda } : Engine τ ν).saveTarget id = e.saveTarget id := rfl
  unfold Engine.save
  rw [htarget]
  cases e.saveTarget id with
  | error f => rfl
  | ok found =>
    obtain ⟨repository, node⟩ := found
    rw [mapError_of_ok rfl]
    dsimp only [bind, Except.bind]
    split
    · rfl
    · have hslot : ({ e with agenda } : Engine τ ν).slotFor id node stamp =
        e.slotFor id node stamp := rfl
      rw [hslot]
      cases repository.put room (e.slotFor id node stamp) <;> rfl

/-- Two engines answer a call alike: it is no request, it is refused for the same reason, or the
changes it makes correspond. -/
inductive Answers (E : Engine τ ν → Engine τ ν → Prop) :
    Option (Except CallError (Change τ ν)) → Option (Except CallError (Change τ ν)) → Prop
  | other : Answers E none none
  | refused (e : CallError) : Answers E (some (.error e)) (some (.error e))
  | granted {c c' : Change τ ν} (hengines : E c.engine c'.engine) (htold : c'.told = c.told) :
      Answers E (some (.ok c)) (some (.ok c'))

variable [Zero τ] [Add τ] [Mul τ] [NatCast τ] [LT τ] [DecidableLT τ] [LE τ] [DecidableLE τ]

/-- Moves of the clock that end alike and pass the same sights, the second one perhaps with more
fuel. -/
def MovesAlike (E : Engine τ ν → Engine τ ν → Prop) (fuel : Nat) (target : τ) (steps ran : Nat)
    (h h' : House τ ν) : Prop :=
  (Timer.runUntil (fireAlarm (perform fuel)) target steps ran h).1 ≠ .error .outOfFuel →
    ∀ ran', ∃ fuel',
      Agree E (Timer.runUntil (fireAlarm (perform fuel)) target steps ran h)
        (Timer.runUntil (fireAlarm (perform fuel')) target fuel' ran' h') ∧
      sights (h' :: Timer.passed (fireAlarm (perform fuel')) target fuel' h') =
        sights (h :: Timer.passed (fireAlarm (perform fuel)) target steps h)

/-- Engines that differ in their agendas only, and cannot be told apart by requests or by moving the
clock. -/
structure Corresponds (E : Engine τ ν → Engine τ ν → Prop) : Prop where
  agendas : DifferInAgendas E
  saves {e e' : Engine τ ν} (h : E e e') (saves : Option (Save.Repository ν)) :
    E { e with saves } { e' with saves }
  answers {e e' : Engine τ ν} (h : E e e') (call : Call τ) :
    Answers E (e.outcome call) (e'.outcome call)
  clock {e e' : Engine τ ν} (h : E e e') : e'.agenda.now = e.agenda.now
  moves {fuel : Nat} (hperform : Mirrored E (perform fuel)) (target : τ) {h h' : House τ ν}
    (hpairs : Pairs E h h') : MovesAlike E fuel target fuel 0 h h'

theorem Corresponds.frame (hE : Corresponds E) {e e' : Engine τ ν} (h : E e e') :
    e'.frame = e.frame := by
  obtain ⟨agenda, rfl⟩ := hE.agendas _ _ h
  rfl

theorem Corresponds.saves_eq (hE : Corresponds E) {e e' : Engine τ ν} (h : E e e') :
    e'.saves = e.saves := by
  obtain ⟨agenda, rfl⟩ := hE.agendas _ _ h
  rfl

theorem Corresponds.publish_mirrors (hE : Corresponds E)
    {act : Call τ → HouseAction τ ν (Reply τ)} (hact : Mirrored E act) {c c' : Change τ ν}
    (hengines : E c.engine c'.engine) (htold : c'.told = c.told) {h : House τ ν}
    (htimed : h.Within Call.Timed) (e' : Engine τ ν) :
    Mirrors E (publish act c) (fun fuel => publish (perform fuel) c') h
      { h with engine := e' } :=
  Playback.publish_mirrors hact hengines htold (hE.frame hengines) htimed e'

theorem Corresponds.save_agree (hE : Corresponds E) {h h' : House τ ν} (hpairs : Pairs E h h')
    (room : Nat) (slot : Int) : Agree E (h.save room slot) (h'.save room slot) := by
  obtain ⟨e', rfl⟩ : ∃ e', h' = { h with engine := e' } := ⟨h'.engine, hpairs.rest⟩
  have hengines : E h.engine e' := hpairs.engines
  obtain ⟨agenda, rfl⟩ := hE.agendas _ _ hengines
  have htarget : ({ h.engine with agenda } : Engine τ ν).saveTarget slot =
    h.engine.saveTarget slot := rfl
  have hsaved := Engine.save_withAgenda h.engine agenda room slot h.stamps.next
  unfold House.save
  dsimp only
  rw [htarget, hsaved]
  split
  · exact ⟨rfl, hpairs⟩
  · cases hsave : h.engine.save room slot h.stamps.next with
    | ok saved =>
      obtain ⟨s, engine⟩ := saved
      obtain ⟨r, node, r', -, -, -, rfl⟩ := Engine.save_eq_ok hsave
      exact ⟨rfl, hE.saves hengines (some r'), rfl, hpairs.timed⟩
    | error refusal =>
      cases refusal with
      | failure f => exact ⟨rfl, hengines, rfl, hpairs.timed⟩
      | namelessNode => exact ⟨rfl, hengines, rfl, hpairs.timed⟩

theorem Corresponds.setStoredText_agree (hE : Corresponds E) {h h' : House τ ν}
    (hpairs : Pairs E h h') (room : Nat) (text : Text.RawText) :
    Agree E (h.setStoredText room text) (h'.setStoredText room text) := by
  obtain ⟨e', rfl⟩ : ∃ e', h' = { h with engine := e' } := ⟨h'.engine, hpairs.rest⟩
  have hengines : E h.engine e' := hpairs.engines
  obtain ⟨agenda, rfl⟩ := hE.agendas _ _ hengines
  unfold House.setStoredText
  dsimp only
  split
  · exact ⟨rfl, hpairs⟩
  · split
    · exact ⟨rfl, hE.saves hengines _, rfl, hpairs.timed⟩
    · exact ⟨rfl, hpairs⟩

theorem Corresponds.askSaves_agree (hE : Corresponds E) {h h' : House τ ν} (hpairs : Pairs E h h')
    (ask : Save.Repository ν → Except Save.Failure (Reply τ)) :
    Agree E (h.askSaves ask) (h'.askSaves ask) := by
  unfold House.askSaves
  rw [hE.saves_eq hpairs.engines]
  split
  · exact ⟨rfl, hpairs⟩
  · split <;> exact ⟨rfl, hpairs⟩

theorem Corresponds.answered_mirrors (hE : Corresponds E) {fuel : Nat}
    (hperform : Mirrored E (perform fuel)) {call : Call τ} {h h' : House τ ν}
    (hpairs : Pairs E h h') {r : Except CallError (Change τ ν)}
    (hr : h.engine.outcome call = some r) :
    Mirrors E (answered (perform fuel) r) (fun fuel => perform fuel call) h h' := by
  intro hdone
  obtain ⟨e', rfl⟩ : ∃ e', h' = { h with engine := e' } := ⟨h'.engine, hpairs.rest⟩
  have hanswers := hE.answers hpairs.engines call
  rw [hr] at hanswers
  generalize hr' : ({ h with engine := e' } : House τ ν).engine.outcome call = answer at hanswers
  cases hanswers with
  | refused e =>
    refine ⟨1, ?_⟩
    dsimp only
    rw [perform_request hr']
    exact ⟨rfl, hpairs⟩
  | @granted c c' hengines htold =>
    obtain ⟨least, hagree⟩ := hE.publish_mirrors hperform hengines htold hpairs.timed e'
      (ne_outOfFuel_of_replying hdone)
    refine ⟨least + 1, ?_⟩
    dsimp only
    rw [perform_request hr']
    exact hagree.replying

/-- The states that a call leaves behind, one after the other: where it waits, each timer that runs
leaves one. -/
def House.states (h : House τ ν) (fuel : Nat) : Call τ → List (House τ ν)
  | .wait seconds =>
      h :: Timer.passed (fireAlarm (perform (fuel - 1))) (h.engine.agenda.now + seconds)
        (fuel - 1) h
  | call => [h, (perform fuel call h).2]

theorem House.states_wait (h : House τ ν) (fuel : Nat) (seconds : τ) :
    h.states (fuel + 1) (.wait seconds) =
      h :: Timer.passed (fireAlarm (perform fuel)) (h.engine.agenda.now + seconds) fuel h := rfl

theorem perform_wait (h : House τ ν) (fuel : Nat) (seconds : τ) :
    perform (fuel + 1) (.wait seconds) h = replying .count (Timer.runUntil
      (fireAlarm (perform fuel)) (h.engine.agenda.now + seconds) fuel 0 h) := rfl

theorem Corresponds.wait_alike (hE : Corresponds E) {fuel : Nat}
    (hperform : Mirrored E (perform fuel)) (seconds : τ) {h h' : House τ ν}
    (hpairs : Pairs E h h')
    (hdone : (perform (fuel + 1) (.wait seconds) h).1 ≠ .error .outOfFuel) :
    ∃ fuel', Agree E (perform (fuel + 1) (.wait seconds) h) (perform fuel' (.wait seconds) h') ∧
      sights (h'.states fuel' (.wait seconds)) = sights (h.states (fuel + 1) (.wait seconds)) := by
  have hclock : h'.engine.agenda.now = h.engine.agenda.now := hE.clock hpairs.engines
  obtain ⟨fuel', hagree, hsights⟩ := hE.moves hperform (h.engine.agenda.now + seconds) hpairs
    (ne_outOfFuel_of_replying hdone) 0
  refine ⟨fuel' + 1, ?_, ?_⟩
  · rw [perform_wait, perform_wait, hclock]
    exact hagree.replying
  · rw [House.states_wait, House.states_wait, hclock]
    exact hsights

/-- Whatever call is made, a pair of houses follows it alike. -/
theorem Corresponds.perform_mirrored (hE : Corresponds E) (fuel : Nat) :
    Mirrored E (perform fuel) := by
  induction fuel with
  | zero => exact fun _ _ _ _ _ hdone => absurd rfl hdone
  | succ fuel ih =>
    intro call hcall h h' hpairs
    cases call with
    | wait seconds =>
      intro hdone
      obtain ⟨least, hagree, -⟩ := hE.wait_alike ih seconds hpairs hdone
      exact ⟨least, hagree⟩
    | idle limit =>
      cases hcall with
      | intro here later => exact absurd rfl (here limit)
    | save slot room => exact fun _ => ⟨1, hE.save_agree hpairs room slot⟩
    | setStoredText text room => exact fun _ => ⟨1, hE.setStoredText_agree hpairs room text⟩
    | frame | backlog | current | nextDue => exact fun _ => ⟨1, rfl, hpairs⟩
    | slots room | storedText room => exact fun _ => ⟨0 + 1, hE.askSaves_agree hpairs _⟩
    | subscribe name awaits reaction uses =>
      cases hcall with
      | intro here later =>
        have htimed := House.Within.subscribe hpairs.timed name awaits later uses
        refine fun _ => ⟨1, rfl, hpairs.engines, ?_, htimed⟩
        rw [hpairs.rest]
        rfl
    | unsubscribe name =>
      obtain ⟨e', rfl⟩ : ∃ e', h' = { h with engine := e' } := ⟨h'.engine, hpairs.rest⟩
      refine fun _ => ⟨0 + 1, ?_⟩
      simp only [perform]
      split
      · next listener hlatest =>
        exact ⟨rfl, hpairs.engines, rfl, House.Within.removeListener hpairs.timed listener.id⟩
      · exact ⟨rfl, hpairs⟩
    | _ =>
      unfold Mirrors
      rw [perform_request rfl]
      exact hE.answered_mirrors ih hpairs rfl

/-- What is seen of a call: how it fails, if it does, and the sights that follow each other. -/
structure Showing where
  failure : Option (Timer.Halt CallError)
  sights : List Sight

def House.showing (h : House τ ν) (fuel : Nat) (call : Call τ) : Showing :=
  ⟨failure (perform fuel call h).1, sights (h.states fuel call)⟩

/-- What is seen while calls are made one after the other, each of which comes to an end. -/
inductive Shows : House τ ν → List (Call τ) → List Showing → Prop
  | rest (h : House τ ν) : Shows h [] []
  | call {h : House τ ν} {call : Call τ} {calls : List (Call τ)} {showings : List Showing}
      (fuel : Nat) (hdone : (perform fuel call h).1 ≠ .error .outOfFuel)
      (hrest : Shows (perform fuel call h).2 calls showings) :
      Shows h (call :: calls) (h.showing fuel call :: showings)

theorem House.states_extends {h : House τ ν} {fuel fuel' : Nat} (hfuel : fuel ≤ fuel')
    {call : Call τ} (hdone : (perform fuel call h).1 ≠ .error .outOfFuel) :
    h.states fuel' call = h.states fuel call := by
  obtain ⟨n, rfl⟩ : ∃ n, fuel = n + 1 := by
    cases fuel with
    | zero => exact absurd rfl hdone
    | succ n => exact ⟨n, rfl⟩
  obtain ⟨m, rfl⟩ : ∃ m, fuel' = m + 1 := ⟨fuel' - 1, by omega⟩
  have hle : n ≤ m := by omega
  cases call with
  | wait seconds =>
    have hfire : ∀ alarm, (fireAlarm (perform n) alarm : HouseAction τ ν Unit).Extends
        (fireAlarm (perform m) alarm) :=
      fun alarm h => publish_extends (perform_extends hle) (h.engine.fire alarm) h
    rw [perform_wait] at hdone
    rw [states_wait, states_wait]
    exact congrArg (h :: ·) (Timer.passed_extends hfire hle (ne_outOfFuel_of_replying hdone))
  | _ => exact congrArg (fun r => [h, r.2]) (perform_extends hfuel _ h hdone)

/-- What is seen does not depend on the fuel. -/
theorem Shows.unique {h : House τ ν} {calls : List (Call τ)} {showings showings' : List Showing}
    (hshows : Shows h calls showings) (hshows' : Shows h calls showings') :
    showings = showings' := by
  induction hshows generalizing showings' with
  | rest h =>
    cases hshows' with
    | rest => rfl
  | @call h call calls showings fuel hdone hrest ih =>
    cases hshows' with
    | @call _ _ _ showings' fuel' hdone' hrest' =>
      have hmore := perform_extends (Nat.le_max_left fuel fuel') call h hdone
      have hmore' := perform_extends (Nat.le_max_right fuel fuel') call h hdone'
      have hsame : perform fuel' call h = perform fuel call h := hmore'.symm.trans hmore
      have hstates : h.states fuel' call = h.states fuel call :=
        (House.states_extends (Nat.le_max_right fuel fuel') hdone').symm.trans
          (House.states_extends (Nat.le_max_left fuel fuel') hdone)
      rw [hsame] at hrest'
      have hshowing : h.showing fuel' call = h.showing fuel call := by
        unfold House.showing
        rw [hsame, hstates]
      rw [hshowing, ih hrest']

theorem Corresponds.showing_alike (hE : Corresponds E) {call : Call τ}
    (hcall : call.Within Call.Timed) {h h' : House τ ν} (hpairs : Pairs E h h') {fuel : Nat}
    (hdone : (perform fuel call h).1 ≠ .error .outOfFuel) :
    ∃ fuel', Agree E (perform fuel call h) (perform fuel' call h') ∧
      h'.showing fuel' call = h.showing fuel call := by
  obtain ⟨n, rfl⟩ : ∃ n, fuel = n + 1 := by
    cases fuel with
    | zero => exact absurd rfl hdone
    | succ n => exact ⟨n, rfl⟩
  have hsight := hpairs.sight_eq hE.agendas
  cases call with
  | wait seconds =>
    obtain ⟨fuel', hagree, hsights⟩ := hE.wait_alike (hE.perform_mirrored n) seconds hpairs hdone
    refine ⟨fuel', hagree, ?_⟩
    unfold House.showing
    rw [hagree.1, hsights]
  | _ =>
    obtain ⟨fuel', hagree⟩ := hE.perform_mirrored (n + 1) _ hcall h h' hpairs hdone
    refine ⟨fuel', hagree, ?_⟩
    exact congrArg₂ Showing.mk hagree.1 (sights_pair hsight (hagree.2.sight_eq hE.agendas))

/-- Whoever watches a pair of houses sees the same of both. -/
theorem Corresponds.shows (hE : Corresponds E) {h h' : House τ ν} (hpairs : Pairs E h h')
    {calls : List (Call τ)} (hcalls : ∀ call ∈ calls, call.Within Call.Timed)
    {showings : List Showing} (hshows : Shows h calls showings) : Shows h' calls showings := by
  induction hshows generalizing h' with
  | rest h => exact .rest h'
  | @call h call calls showings fuel hdone hrest ih =>
    obtain ⟨fuel', hagree, hshowing⟩ :=
      hE.showing_alike (hcalls call List.mem_cons_self) hpairs hdone
    have hdone' := ne_outOfFuel_of_failure hagree.1 hdone
    have hrest' := ih hagree.2 fun c hc => hcalls c (List.mem_cons_of_mem call hc)
    rw [← hshowing]
    exact .call fuel' hdone' hrest'

end VisualNovel.Playback
