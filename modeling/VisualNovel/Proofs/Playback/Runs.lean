import Mathlib.Algebra.GroupWithZero.Nat
import Mathlib.Logic.Relation
import VisualNovel.Proofs.Playback.Calls
import VisualNovel.Proofs.Playback.Turns

/-!
Runs of an engine in front of its audience. Whatever calls are made, also by listeners while they
are being told, and whatever timers run, a house goes through a sequence of moves, and its engine
through a sequence of steps: a request that is granted, a timer that fires, a clock that is set when
nothing is due, a write to the saves.
-/
namespace VisualNovel.Playback

variable {τ ν : Type}

/-- The calls that a call leaves behind, to be made when a frame is delivered. -/
def Call.reaction : Call τ → List (Call τ)
  | .subscribe _ _ reaction _ => reaction
  | _ => []

/-- A call, and all that it may lead to, keeps to the permitted calls. -/
inductive Call.Within (permitted : Call τ → Prop) : Call τ → Prop
  | intro {call : Call τ} (here : permitted call)
      (later : ∀ c ∈ call.reaction, Call.Within permitted c) : Call.Within permitted call

theorem Call.within_of_plain {permitted : Call τ → Prop} {call : Call τ}
    (hplain : call.reaction = []) (h : permitted call) : call.Within permitted := by
  refine .intro h ?_
  intro c hc
  rw [hplain] at hc
  cases hc

theorem Call.sizeOf_reaction {call c : Call τ} (h : c ∈ call.reaction) :
    sizeOf c < sizeOf call := by
  cases call with
  | subscribe name awaits reaction uses =>
    have hmem := List.sizeOf_lt_of_mem h
    simp only [Call.reaction] at hmem
    rw [Call.subscribe.sizeOf_spec]
    omega
  | _ => cases h

theorem Call.within_any (call : Call τ) : call.Within fun _ => True :=
  .intro trivial fun c _ => Call.within_any c
termination_by sizeOf call
decreasing_by exact Call.sizeOf_reaction ‹_›

/-- Those who listen keep to the permitted calls. -/
def House.Within (permitted : Call τ → Prop) (h : House τ ν) : Prop :=
  ∀ listener ∈ h.listeners, ∀ call ∈ listener.reaction, call.Within permitted

theorem House.Within.subscribe {permitted : Call τ → Prop} {h : House τ ν}
    (hwithin : h.Within permitted) (name : String) (awaits : Frame → Bool)
    {reaction : List (Call τ)} (hreaction : ∀ call ∈ reaction, call.Within permitted)
    (uses : Nat) : (h.subscribe name awaits reaction uses).Within permitted := by
  intro listener hmem
  rcases List.mem_append.mp hmem with hold | hnew
  · exact hwithin listener hold
  · rw [List.mem_singleton] at hnew
    subst hnew
    exact hreaction

theorem House.Within.removeListener {permitted : Call τ → Prop} {h : House τ ν}
    (hwithin : h.Within permitted) (id : Nat) : (h.removeListener id).Within permitted :=
  fun listener hmem => hwithin listener (List.mem_of_mem_eraseP hmem)

theorem Engine.newGame_of_start [Zero τ] [Add τ] [Mul τ] [NatCast τ] [LT τ] [DecidableLT τ]
    {e : Engine τ ν} {first : Node} (h : e.script.start? = some first) :
    e.newGame = .ok (e.beginSession first) := by
  rw [newGame, h]

section Steps
variable [Save.KeyValueStore ν]

/-- A save that is made puts a slot for the present node into the saves, and does no more. -/
theorem Engine.save_eq_ok {e e' : Engine τ ν} {room : Nat} {id : Int}
    {stamp : Calendar.Moment} {slot : Save.Slot} (h : e.save room id stamp = .ok (slot, e')) :
    ∃ r node r', e.saveTarget id = .ok (r, node) ∧ slot = e.slotFor id node stamp ∧
      r.put room slot = .ok r' ∧ e' = { e with saves := some r' } := by
  unfold Engine.save at h
  cases htarget : e.saveTarget id with
  | error f => simp [mapError_of_error htarget, bind, Except.bind] at h
  | ok found =>
    obtain ⟨r, node⟩ := found
    simp only [mapError_of_ok htarget, bind, Except.bind] at h
    split at h
    · exact absurd h (by simp [throw, throwThe, MonadExceptOf.throw])
    · cases hput : r.put room (e.slotFor id node stamp) with
      | error f => simp [mapError_of_error hput] at h
      | ok r' =>
        simp only [mapError_of_ok hput, pure, Except.pure, Except.ok.injEq, Prod.mk.injEq] at h
        exact ⟨r, node, r', rfl, h.1.symm, h.1 ▸ hput, h.2.symm⟩

variable [Zero τ] [Add τ] [Mul τ] [NatCast τ] [LT τ] [DecidableLT τ]

theorem Engine.outcome_newGame {e : Engine τ ν} {first : Node} (h : e.script.start? = some first) :
    e.outcome .newGame = some (.ok (e.beginSession first)) :=
  congrArg some (mapError_of_ok (newGame_of_start h) CallError.fault)

theorem Engine.load_eq_ok {e : Engine τ ν} {room : Nat} {slot : Int} {c : Change τ ν}
    (h : e.load room slot = .ok c) :
    ∃ id node, e.script.get? id = some node ∧ c = e.beginSession node := by
  unfold load at h
  cases hstorage : e.storage with
  | error f => simp [hstorage, bind, Except.bind] at h
  | ok repository =>
    cases hget : repository.get room slot with
    | error f => simp [hstorage, hget, bind, Except.bind] at h
    | ok found =>
      simp only [hstorage, hget, mapError_ok, bind, Except.bind] at h
      split at h
      · exact absurd h (by simp [throw, throwThe, MonadExceptOf.throw])
      · next s =>
        split at h
        · exact absurd h (by simp [throw, throwThe, MonadExceptOf.throw])
        · next node hnode =>
          simp only [pure, Except.pure, Except.ok.injEq] at h
          exact ⟨s.nodeId, node, hnode, h.symm⟩

/-- A granted request is a turn of the session, or begins one: at the start, or where a save was
made. -/
theorem Engine.outcome_cases {e : Engine τ ν} {call : Call τ} {c : Change τ ν}
    (h : e.outcome call = some (.ok c)) :
    Turn e c ∨ ∃ id node, e.script.get? id = some node ∧ c = e.beginSession node ∧
      (id = e.script.startId ∨ ∃ slot room, call = .load slot room) := by
  cases call with
  | newGame =>
    have hnew : e.newGame = .ok c := eq_ok_of_mapError h
    unfold newGame at hnew
    split at hnew
    · next node hstart => exact Or.inr ⟨_, node, hstart, (Except.ok.inj hnew).symm, Or.inl rfl⟩
    · cases hnew
  | load slot room =>
    obtain ⟨id, node, hnode, hc⟩ := load_eq_ok (eq_ok_of_mapError h)
    exact Or.inr ⟨id, node, hnode, hc, Or.inr ⟨slot, room, rfl⟩⟩
  | choose index => exact Or.inl (turn_selectChoice (eq_ok_of_mapError h))
  | jump index => exact Or.inl (turn_jumpToHistory (eq_ok_of_mapError h))
  | title => exact Or.inl (Except.ok.inj (Option.some.inj h) ▸ .title)
  | advance => exact Or.inl (Except.ok.inj (Option.some.inj h) ▸ turn_advance e)
  | auto enabled => exact Or.inl (Except.ok.inj (Option.some.inj h) ▸ turn_setMode e .auto enabled)
  | fastForward enabled =>
    exact Or.inl (Except.ok.inj (Option.some.inj h) ▸ turn_setMode e .fastForward enabled)
  | toggleAuto => exact Or.inl (Except.ok.inj (Option.some.inj h) ▸ turn_setMode e .auto _)
  | toggleFastForward =>
    exact Or.inl (Except.ok.inj (Option.some.inj h) ▸ turn_setMode e .fastForward _)
  | acknowledge => exact Or.inl (Except.ok.inj (Option.some.inj h) ▸ turn_acknowledgeEffect e)
  | openHistory => exact Or.inl (Except.ok.inj (Option.some.inj h) ▸ turn_openHistory e)
  | closeHistory => exact Or.inl (Except.ok.inj (Option.some.inj h) ▸ turn_closeHistory e)
  | _ => cases h

/-- What can happen to an engine while permitted calls are made. -/
inductive Step (permitted : Call τ → Prop) (e : Engine τ ν) : Engine τ ν → Prop
  | request {call : Call τ} {c : Change τ ν} (hcall : permitted call)
      (hgranted : e.outcome call = some (.ok c)) : Step permitted e c.engine
  | alarm {target : τ} {entry : Timer.Entry τ Alarm} {rest : Timer.Agenda τ Alarm}
      (hdue : e.agenda.pop? target = some (entry, rest)) :
      Step permitted e (({ e with agenda := rest } : Engine τ ν).fire entry.task).engine
  | clock {target : τ} (hquiet : e.agenda.pop? target = none) :
      Step permitted e { e with agenda := { e.agenda with now := target } }
  | saves (saves : Option (Save.Repository ν)) : Step permitted e { e with saves }

abbrev Steps (permitted : Call τ → Prop) : Engine τ ν → Engine τ ν → Prop :=
  Relation.ReflTransGen (Step permitted)

theorem Step.any {permitted : Call τ → Prop} {e e' : Engine τ ν} (h : Step permitted e e') :
    Step (fun _ => True) e e' := by
  cases h with
  | request hcall hgranted => exact .request trivial hgranted
  | alarm hdue => exact .alarm hdue
  | clock hquiet => exact .clock hquiet
  | saves saves => exact .saves saves

theorem Steps.any {permitted : Call τ → Prop} {e e' : Engine τ ν} (h : Steps permitted e e') :
    Steps (fun _ => True) e e' :=
  Relation.ReflTransGen.mono (fun _ _ => Step.any) _ _ h

end Steps

variable {permitted : Call τ → Prop}

theorem House.askSaves_keeps (h : House τ ν)
    (ask : Save.Repository ν → Except Save.Failure (Reply τ)) : (h.askSaves ask).2 = h := by
  unfold House.askSaves
  split
  · rfl
  · split <;> rfl

section Moves
variable [Save.KeyValueStore ν]

theorem House.save_eq (h : House τ ν) (room : Nat) (slot : Int) :
    ∃ saves stamps,
      (h.save room slot).2 = { h with engine := { h.engine with saves }, stamps } := by
  unfold House.save
  split
  · exact ⟨h.engine.saves, h.stamps, rfl⟩
  · dsimp only
    split
    · next s engine hsaved =>
      obtain ⟨r, node, r', -, -, -, rfl⟩ := Engine.save_eq_ok hsaved
      exact ⟨_, _, rfl⟩
    · exact ⟨h.engine.saves, _, rfl⟩
    · exact ⟨h.engine.saves, _, rfl⟩

theorem House.save_engine (h : House τ ν) (room : Nat) (slot : Int) :
    ∃ saves, (h.save room slot).2.engine = { h.engine with saves } := by
  obtain ⟨saves, stamps, heq⟩ := h.save_eq room slot
  exact ⟨saves, congrArg House.engine heq⟩

theorem House.save_listeners (h : House τ ν) (room : Nat) (slot : Int) :
    (h.save room slot).2.listeners = h.listeners := by
  obtain ⟨saves, stamps, heq⟩ := h.save_eq room slot
  rw [heq]

theorem House.setStoredText_eq (h : House τ ν) (room : Nat) (text : Text.RawText) :
    ∃ saves, (h.setStoredText room text).2 = { h with engine := { h.engine with saves } } := by
  unfold House.setStoredText
  split
  · exact ⟨h.engine.saves, rfl⟩
  · split
    · exact ⟨_, rfl⟩
    · exact ⟨h.engine.saves, rfl⟩

theorem House.setStoredText_engine (h : House τ ν) (room : Nat) (text : Text.RawText) :
    ∃ saves, (h.setStoredText room text).2.engine = { h.engine with saves } := by
  obtain ⟨saves, heq⟩ := h.setStoredText_eq room text
  exact ⟨saves, congrArg House.engine heq⟩

theorem House.setStoredText_listeners (h : House τ ν) (room : Nat) (text : Text.RawText) :
    (h.setStoredText room text).2.listeners = h.listeners := by
  obtain ⟨saves, heq⟩ := h.setStoredText_eq room text
  rw [heq]

variable [Zero τ] [Add τ] [Mul τ] [NatCast τ] [LT τ] [DecidableLT τ]

/-- What can happen to a house while permitted calls are made, one thing at a time. -/
inductive House.Move (permitted : Call τ → Prop) (h : House τ ν) : House τ ν → Prop
  | request {call : Call τ} {c : Change τ ν} (hcall : permitted call)
      (hgranted : h.engine.outcome call = some (.ok c)) :
      House.Move permitted h { h with engine := c.engine }
  | alarm {target : τ} {entry : Timer.Entry τ Alarm} {rest : Timer.Agenda τ Alarm}
      (hdue : h.engine.agenda.pop? target = some (entry, rest)) :
      House.Move permitted h { h with
        engine := (({ h.engine with agenda := rest } : Engine τ ν).fire entry.task).engine }
  | clock {target : τ} (hquiet : h.engine.agenda.pop? target = none) :
      House.Move permitted h (Timer.withAgenda h { h.engine.agenda with now := target })
  | save {slot : Int} {room : Nat} (hcall : permitted (.save slot room)) :
      House.Move permitted h (h.save room slot).2
  | stored {text : Text.RawText} {room : Nat}
      (hcall : permitted (.setStoredText text room)) :
      House.Move permitted h (h.setStoredText room text).2
  | told (listener : Listener τ) (f : Frame) : House.Move permitted h (h.record listener f)
  | spent (listener : Listener τ) (left : Nat) : House.Move permitted h (h.spend listener left)
  | subscribed (name : String) (awaits : Frame → Bool) {reaction : List (Call τ)}
      (hreaction : ∀ call ∈ reaction, call.Within permitted) (uses : Nat) :
      House.Move permitted h (h.subscribe name awaits reaction uses)
  | unsubscribed (id : Nat) : House.Move permitted h (h.removeListener id)

abbrev House.Moves (permitted : Call τ → Prop) : House τ ν → House τ ν → Prop :=
  Relation.ReflTransGen (House.Move permitted)

section Moves
variable {h h' h'' : House τ ν}

theorem House.Move.within (hmove : h.Move permitted h') (hw : h.Within permitted) :
    h'.Within permitted := by
  cases hmove with
  | save hcall =>
    unfold House.Within
    rw [House.save_listeners]
    exact hw
  | stored hcall =>
    unfold House.Within
    rw [House.setStoredText_listeners]
    exact hw
  | subscribed name awaits hreaction uses => exact hw.subscribe name awaits hreaction uses
  | unsubscribed id => exact hw.removeListener id
  | _ => exact hw

/-- A move takes the engine one step on at most. -/
theorem House.Move.steps (hmove : h.Move permitted h') : Steps permitted h.engine h'.engine := by
  cases hmove with
  | request hcall hgranted => exact .single (.request hcall hgranted)
  | alarm hdue => exact .single (.alarm hdue)
  | clock hquiet => exact .single (.clock hquiet)
  | @save slot room hcall =>
    obtain ⟨saves, hengine⟩ := h.save_engine room slot
    rw [hengine]
    exact .single (.saves saves)
  | @stored text room hcall =>
    obtain ⟨saves, hengine⟩ := h.setStoredText_engine room text
    rw [hengine]
    exact .single (.saves saves)
  | _ => exact .refl

theorem House.Moves.within (hmoves : h.Moves permitted h') (hw : h.Within permitted) :
    h'.Within permitted := by
  induction hmoves with
  | refl => exact hw
  | tail _ hmove ih => exact hmove.within ih

theorem House.Moves.steps (hmoves : h.Moves permitted h') :
    Steps permitted h.engine h'.engine := by
  induction hmoves with
  | refl => exact .refl
  | tail _ hmove ih => exact ih.trans hmove.steps

/-- The house has gone on by moves, if the audience keeps to the permitted calls. -/
def House.Follows (permitted : Call τ → Prop) (h h' : House τ ν) : Prop :=
  h.Within permitted → h.Moves permitted h'

namespace House.Follows

theorem refl (h : House τ ν) : h.Follows permitted h := fun _ => .refl

theorem trans (hfirst : h.Follows permitted h') (hsecond : h'.Follows permitted h'') :
    h.Follows permitted h'' := fun hw => (hfirst hw).trans (hsecond ((hfirst hw).within hw))

theorem of_move (hmove : h.Move permitted h') : h.Follows permitted h' := fun _ => .single hmove

end House.Follows

end Moves

end Moves

/-- Whatever permitted call is made, the house before it and the house after it are related, in the
way that goes with a call that succeeds, or with one that fails. -/
def Keeps (permitted : Call τ → Prop) (R : Bool → House τ ν → House τ ν → Prop)
    (perform : Call τ → HouseAction τ ν (Reply τ)) : Prop :=
  ∀ call : Call τ, call.Within permitted → ∀ h : House τ ν,
    R (perform call h).1.isOk h (perform call h).2

theorem makeCalls_keeps {R : Bool → House τ ν → House τ ν → Prop} (hR : Timer.Serial R)
    {perform : Call τ → HouseAction τ ν (Reply τ)} (hperform : Keeps permitted R perform)
    (calls : List (Call τ)) (hcalls : ∀ call ∈ calls, call.Within permitted) (h : House τ ν) :
    R (makeCalls perform calls h).1.isOk h (makeCalls perform calls h).2 := by
  induction calls generalizing h with
  | nil => exact hR.refl h
  | cons call rest ih =>
    rw [makeCalls_cons]
    refine Timer.Action.seq_keeps (R := R) hR.trans ?_ ?_
    · exact hperform call (hcalls call List.mem_cons_self) h
    · exact fun _ => ih fun c hc => hcalls c (List.mem_cons_of_mem call hc)

/-- A relation between a house before and after something that permitted calls come down to, moves
of the clock apart. It may take for granted that the audience keeps to the permitted calls. -/
structure House.Carried [Save.KeyValueStore ν] [Zero τ] [Add τ] [Mul τ] [NatCast τ] [LT τ]
    [DecidableLT τ] (permitted : Call τ → Prop) (R : House τ ν → House τ ν → Prop) : Prop where
  refl (h : House τ ν) : R h h
  trans {h h' h'' : House τ ν} (hfirst : R h h') (hsecond : R h' h'') : R h h''
  assume {h h' : House τ ν} (hrelated : h.Within permitted → R h h') : R h h'
  request {h : House τ ν} {call : Call τ} {c : Change τ ν} (hcall : permitted call)
    (hgranted : h.engine.outcome call = some (.ok c)) : R h { h with engine := c.engine }
  save {h : House τ ν} {slot : Int} {room : Nat} (hcall : permitted (.save slot room)) :
    R h (h.save room slot).2
  stored {h : House τ ν} {text : Text.RawText} {room : Nat}
      (hcall : permitted (.setStoredText text room)) :
    R h (h.setStoredText room text).2
  told (h : House τ ν) (listener : Listener τ) (f : Frame) : R h (h.record listener f)
  spent (h : House τ ν) (listener : Listener τ) (left : Nat) : R h (h.spend listener left)
  subscribed (h : House τ ν) (name : String) (awaits : Frame → Bool) {reaction : List (Call τ)}
    (hreaction : ∀ call ∈ reaction, call.Within permitted) (uses : Nat) :
    R h (h.subscribe name awaits reaction uses)
  unsubscribed (h : House τ ν) (id : Nat) : R h (h.removeListener id)

/-- Whatever permitted call is made, the house before it and the house after it are related. -/
def Relates (permitted : Call τ → Prop) (R : House τ ν → House τ ν → Prop)
    (perform : Call τ → HouseAction τ ν (Reply τ)) : Prop :=
  ∀ call : Call τ, call.Within permitted → ∀ h : House τ ν, R h (perform call h).2

section Delivery
variable {R : House τ ν → House τ ν → Prop} {perform : Call τ → HouseAction τ ν (Reply τ)}

theorem makeCalls_relates (hrefl : ∀ h, R h h)
    (htrans : ∀ {h h' h'' : House τ ν}, R h h' → R h' h'' → R h h'')
    (hperform : Relates permitted R perform) (calls : List (Call τ))
    (hcalls : ∀ call ∈ calls, call.Within permitted) (h : House τ ν) :
    R h (makeCalls perform calls h).2 :=
  makeCalls_keeps (Timer.serial_of_trans hrefl htrans) hperform calls hcalls h

theorem deliver_relates (hrefl : ∀ h, R h h)
    (htrans : ∀ {h h' h'' : House τ ν}, R h h' → R h' h'' → R h h'')
    (hperform : Relates permitted R perform) (f : Frame) (listeners : List (Listener τ))
    (htold : ∀ listener ∈ listeners, ∀ h : House τ ν, R h (h.record listener f))
    (hspent : ∀ (h : House τ ν) (listener : Listener τ) (left : Nat), R h (h.spend listener left))
    (hlisteners : ∀ listener ∈ listeners, ∀ call ∈ listener.reaction, call.Within permitted)
    (h : House τ ν) : R h (deliver perform f listeners h).2 := by
  induction listeners generalizing h with
  | nil => exact hrefl h
  | cons listener rest ih =>
    have hrest := ih (fun l hl => htold l (List.mem_cons_of_mem listener hl))
      (fun l hl => hlisteners l (List.mem_cons_of_mem listener hl))
    have htold := htold listener List.mem_cons_self h
    cases hreacts : (h.record listener f).reacts listener f with
    | none =>
      rw [deliver_of_quiet hreacts]
      exact htrans htold (hrest _)
    | some left =>
      have hspent := htrans htold (hspent _ listener left)
      rw [deliver_of_reacting hreacts]
      refine htrans hspent (Timer.Action.seq_relates (R := R) htrans ?_ (fun _ => hrest))
      exact makeCalls_relates hrefl htrans hperform listener.reaction
        (hlisteners listener List.mem_cons_self) _

theorem isOk_replying {ρ : Type} (reply : ρ → Reply τ)
    (r : Except (Timer.Halt CallError) ρ × House τ ν) :
    (replying reply r).1.isOk = r.1.isOk := by
  obtain ⟨halt | a, h⟩ := r <;> rfl

variable [Save.KeyValueStore ν]
variable [Zero τ] [Add τ] [Mul τ] [NatCast τ] [LT τ] [DecidableLT τ]

theorem publish_relates (hR : House.Carried permitted R) (hperform : Relates permitted R perform)
    {h : House τ ν} {c : Change τ ν} (htaken : R h { h with engine := c.engine }) :
    R h (publish perform c h).2 := by
  unfold publish
  dsimp only
  split
  · refine hR.assume fun hw => ?_
    exact hR.trans htaken (deliver_relates hR.refl hR.trans hperform c.engine.frame h.listeners
      (fun listener _ h => hR.told h listener _) hR.spent hw _)
  · exact htaken

theorem answered_keeps {R : Bool → House τ ν → House τ ν → Prop} (hrefl : ∀ h, R false h h)
    {call : Call τ} {h : House τ ν}
    (hgranted : ∀ c, h.engine.outcome call = some (.ok c) →
      R (publish perform c h).1.isOk h (publish perform c h).2)
    {r : Except CallError (Change τ ν)} (hr : h.engine.outcome call = some r) :
    R (answered perform r h).1.isOk h (answered perform r h).2 := by
  cases r with
  | ok c =>
    have hpublish := hgranted c hr
    rw [← isOk_replying fun _ => .nothing] at hpublish
    exact hpublish
  | error e => exact hrefl h

end Delivery

variable [Save.KeyValueStore ν]
variable [Zero τ] [Add τ] [Mul τ] [NatCast τ] [LT τ] [DecidableLT τ]

/-- Making permitted calls moves the house on by moves only. -/
def Faithful (permitted : Call τ → Prop) (perform : Call τ → HouseAction τ ν (Reply τ)) : Prop :=
  ∀ call : Call τ, call.Within permitted → ∀ h : House τ ν, h.Follows permitted (perform call h).2

theorem House.follows_carried :
    House.Carried permitted (House.Follows permitted : House τ ν → House τ ν → Prop) where
  refl := .refl
  trans := .trans
  assume hfollows hw := hfollows hw hw
  request hcall hgranted := .of_move (.request hcall hgranted)
  save hcall := .of_move (.save hcall)
  stored hcall := .of_move (.stored hcall)
  told _ listener f := .of_move (.told listener f)
  spent _ listener left := .of_move (.spent listener left)
  subscribed _ name awaits _ hreaction uses := .of_move (.subscribed name awaits hreaction uses)
  unsubscribed _ id := .of_move (.unsubscribed id)

section Performing
variable [LE τ] [DecidableLE τ]

/-- A relation between a house before and after a permitted call, whatever sort of call it is, that
may tell a call that succeeds from one that fails. What is made of a request that is granted may
take for granted what holds of the calls of listeners. -/
structure House.Traced (permitted : Call τ → Prop) (R : Bool → House τ ν → House τ ν → Prop) :
    Prop where
  refl (h : House τ ν) : R true h h
  fails {h h' : House τ ν} (hrelated : R true h h') : R false h h'
  granted {perform : Call τ → HouseAction τ ν (Reply τ)} (hperform : Keeps permitted R perform)
    {h : House τ ν} {call : Call τ} {c : Change τ ν} (hcall : permitted call)
    (hgranted : h.engine.outcome call = some (.ok c)) :
    R (publish perform c h).1.isOk h (publish perform c h).2
  save {h : House τ ν} {slot : Int} {room : Nat} (hcall : permitted (.save slot room)) :
    R true h (h.save room slot).2
  stored {h : House τ ν} {text : Text.RawText} {room : Nat}
      (hcall : permitted (.setStoredText text room)) :
    R true h (h.setStoredText room text).2
  subscribed (h : House τ ν) {name : String} {awaits : Frame → Bool} {reaction : List (Call τ)}
    {uses : Nat} (hcall : permitted (.subscribe name awaits reaction uses))
    (hreaction : ∀ call ∈ reaction, call.Within permitted) :
    R true h (h.subscribe name awaits reaction uses)
  unsubscribed {h : House τ ν} {name : String} {listener : Listener τ}
    (hcall : permitted (.unsubscribe name)) (hlatest : h.latest.get? name = some listener) :
    R true h (h.removeListener listener.id)
  wait {perform : Call τ → HouseAction τ ν (Reply τ)} (hperform : Keeps permitted R perform)
    {seconds : τ} (hcall : permitted (.wait seconds)) (fuel : Nat) (h : House τ ν) :
    R (Timer.advance (fireAlarm perform) seconds fuel h).1.isOk h
      (Timer.advance (fireAlarm perform) seconds fuel h).2
  idle {perform : Call τ → HouseAction τ ν (Reply τ)} (hperform : Keeps permitted R perform)
    {limit : τ} (hcall : permitted (.idle limit)) (fuel : Nat) (h : House τ ν) :
    R (Timer.runUntilIdle (fireAlarm perform) limit fuel h).1.isOk h
      (Timer.runUntilIdle (fireAlarm perform) limit fuel h).2

theorem House.Traced.of_ok {R : Bool → House τ ν → House τ ν → Prop}
    (hR : House.Traced permitted R) {h h' : House τ ν} (hrelated : R true h h') (ok : Bool) :
    R ok h h' := by
  cases ok with
  | false => exact hR.fails hrelated
  | true => exact hrelated

/-- It does not matter how much fuel there is. -/
theorem perform_traces {R : Bool → House τ ν → House τ ν → Prop} (hR : House.Traced permitted R)
    (fuel : Nat) : Keeps permitted R (perform fuel) := by
  -- Listeners make their calls with less fuel than the call they are told of.
  induction fuel with
  | zero => exact fun call _ h => hR.fails (hR.refl h)
  | succ fuel ih =>
    intro call hcall h
    obtain ⟨hhere, hlater⟩ := hcall
    cases call with
    | save slot room => exact hR.of_ok (hR.save hhere) _
    | setStoredText text room => exact hR.of_ok (hR.stored hhere) _
    | frame | backlog | current | nextDue => exact hR.refl h
    | wait seconds =>
      have hwait := hR.wait ih hhere fuel h
      rw [← isOk_replying .count] at hwait
      exact hwait
    | idle limit =>
      have hidle := hR.idle ih hhere fuel h
      rw [← isOk_replying .count] at hidle
      exact hidle
    | slots room | storedText room =>
      have hkept := h.askSaves_keeps
      unfold perform
      dsimp only
      rw [hkept]
      exact hR.of_ok (hR.refl h) _
    | subscribe name awaits reaction uses => exact hR.subscribed h hhere hlater
    | unsubscribe name =>
      unfold perform
      dsimp only
      split
      · next listener hlatest => exact hR.unsubscribed hhere hlatest
      · exact hR.fails (hR.refl h)
    | _ =>
      rw [perform_request rfl]
      exact answered_keeps (fun h => hR.fails (hR.refl h)) (fun _ => hR.granted ih hhere) rfl

/-- A relation between a house before and after a permitted call, whatever sort of call it is. What
is made of a request that is granted may take for granted what holds of the calls of listeners. -/
structure House.Tracked (permitted : Call τ → Prop) (R : House τ ν → House τ ν → Prop) : Prop where
  refl (h : House τ ν) : R h h
  granted {perform : Call τ → HouseAction τ ν (Reply τ)} (hperform : Relates permitted R perform)
    {h : House τ ν} {call : Call τ} {c : Change τ ν} (hcall : permitted call)
    (hgranted : h.engine.outcome call = some (.ok c)) : R h (publish perform c h).2
  save {h : House τ ν} {slot : Int} {room : Nat} (hcall : permitted (.save slot room)) :
    R h (h.save room slot).2
  stored {h : House τ ν} {text : Text.RawText} {room : Nat}
      (hcall : permitted (.setStoredText text room)) :
    R h (h.setStoredText room text).2
  subscribed (h : House τ ν) {name : String} {awaits : Frame → Bool} {reaction : List (Call τ)}
    {uses : Nat} (hcall : permitted (.subscribe name awaits reaction uses))
    (hreaction : ∀ call ∈ reaction, call.Within permitted) :
    R h (h.subscribe name awaits reaction uses)
  unsubscribed (h : House τ ν) {name : String} (hcall : permitted (.unsubscribe name)) (id : Nat) :
    R h (h.removeListener id)
  wait {perform : Call τ → HouseAction τ ν (Reply τ)} (hperform : Relates permitted R perform)
    {seconds : τ} (hcall : permitted (.wait seconds)) (fuel : Nat) (h : House τ ν) :
    R h (Timer.advance (fireAlarm perform) seconds fuel h).2
  idle {perform : Call τ → HouseAction τ ν (Reply τ)} (hperform : Relates permitted R perform)
    {limit : τ} (hcall : permitted (.idle limit)) (fuel : Nat) (h : House τ ν) :
    R h (Timer.runUntilIdle (fireAlarm perform) limit fuel h).2

/-- It does not matter how much fuel there is and whether a call succeeds. -/
theorem perform_tracks {R : House τ ν → House τ ν → Prop} (hR : House.Tracked permitted R)
    (fuel : Nat) : Relates permitted R (perform fuel) :=
  perform_traces (R := fun _ => R)
    { refl := hR.refl
      fails := id
      granted := hR.granted
      save := hR.save
      stored := hR.stored
      subscribed := hR.subscribed
      unsubscribed := fun hcall _ => hR.unsubscribed _ hcall _
      wait := hR.wait
      idle := hR.idle } fuel

/-- A relation that everything but moves of the clock respects is respected by every permitted
call, if it is by the moves. -/
theorem perform_relates {R : House τ ν → House τ ν → Prop} (hR : House.Carried permitted R)
    (hwait : ∀ perform : Call τ → HouseAction τ ν (Reply τ), Relates permitted R perform →
      ∀ seconds, permitted (.wait seconds) → ∀ fuel h,
        R h (Timer.advance (fireAlarm perform) seconds fuel h).2)
    (hidle : ∀ perform : Call τ → HouseAction τ ν (Reply τ), Relates permitted R perform →
      ∀ limit, permitted (.idle limit) → ∀ fuel h,
        R h (Timer.runUntilIdle (fireAlarm perform) limit fuel h).2)
    (fuel : Nat) : Relates permitted R (perform fuel) :=
  perform_tracks (R := R)
    { refl := hR.refl
      granted := fun hperform _ _ _ hcall hgranted =>
        publish_relates hR hperform (hR.request hcall hgranted)
      save := hR.save
      stored := hR.stored
      subscribed := fun h _ _ _ _ _ hreaction => hR.subscribed h _ _ hreaction _
      unsubscribed := fun h _ _ id => hR.unsubscribed h id
      wait := fun hperform _ hcall => hwait _ hperform _ hcall
      idle := fun hperform _ hcall => hidle _ hperform _ hcall } fuel

end Performing

section Clock
variable {perform : Call τ → HouseAction τ ν (Reply τ)}

theorem fireAlarm_follows (hperform : Faithful permitted perform) {h : House τ ν} {target : τ}
    {entry : Timer.Entry τ Alarm} {rest : Timer.Agenda τ Alarm}
    (hdue : (Timer.agenda h).pop? target = some (entry, rest)) :
    h.Follows permitted (fireAlarm perform entry.task (Timer.withAgenda h rest)).2 :=
  publish_relates House.follows_carried hperform (.of_move (.alarm hdue))

theorem runUntil_follows (hperform : Faithful permitted perform) (target : τ) (fuel ran : Nat)
    (h : House τ ν) :
    h.Follows permitted (Timer.runUntil (fireAlarm perform) target fuel ran h).2 :=
  Timer.runUntil_relates (R := House.Follows permitted) .refl .trans
    (fun _ _ _ _ => fireAlarm_follows hperform) (fun _ _ hquiet => .of_move (.clock hquiet)) _ _ _ h

variable [LE τ] [DecidableLE τ]

theorem runUntilQuiet_follows (hperform : Faithful permitted perform) (deadline : τ)
    (fuel ran : Nat) (h : House τ ν) :
    h.Follows permitted (Timer.runUntilQuiet (fireAlarm perform) deadline fuel ran h).2 :=
  Timer.runUntilQuiet_relates (R := House.Follows permitted) .refl .trans
    (fun _ _ _ _ => fireAlarm_follows hperform) (fun _ _ hquiet => .of_move (.clock hquiet)) _ _ _ h

end Clock

/-- An engine that nobody watches yet. -/
def House.opening (engine : Engine τ ν) (stamps : Stamps) : House τ ν where
  engine := engine
  stamps := stamps

/-- The usual delays, in milliseconds. -/
def Timing.usual : Timing Nat where
  revealInterval := 30
  fastRevealInterval := 2
  fastForwardDelay := 100
  autoSecondsPerChar := 50
  autoMinDelay := 1000
  autoMaxDelay := 4000
  endGrace := 3000
  previewLength := 20

/-- An engine on the title screen, with nothing scheduled. -/
def Engine.opening (script : Script) (timing : Timing τ) (saves : Option (Save.Repository ν))
    (heedsCancel : Bool := true) : Engine τ ν where
  script := script
  timing := timing
  saves := saves
  agenda := { now := 0, heedsCancel }

variable [LE τ] [DecidableLE τ]

/-- A call moves the house on by moves, however much fuel it is given and whether or not it
succeeds. -/
theorem perform_faithful (fuel : Nat) :
    Faithful permitted (perform fuel : Call τ → HouseAction τ ν (Reply τ)) :=
  perform_relates House.follows_carried
    (fun _ hperform _ _ fuel h => runUntil_follows hperform _ fuel 0 h)
    (fun _ hperform _ _ fuel h => runUntilQuiet_follows hperform _ fuel 0 h) fuel

/-- Makes calls one after the other, whether or not they succeed. -/
def House.play (fuel : Nat) (h : House τ ν) (calls : List (Call τ)) : House τ ν :=
  calls.foldl (fun h call => (perform fuel call h).2) h

theorem House.play_relates {R : House τ ν → House τ ν → Prop} (hrefl : ∀ h, R h h)
    (htrans : ∀ {h h' h'' : House τ ν}, R h h' → R h' h'' → R h h'') {fuel : Nat}
    (hperform : Relates permitted R (perform fuel)) (calls : List (Call τ))
    (hcalls : ∀ call ∈ calls, call.Within permitted) (h : House τ ν) :
    R h (h.play fuel calls) := by
  induction calls generalizing h with
  | nil => exact hrefl h
  | cons call rest ih =>
    have hcall := hperform call (hcalls call List.mem_cons_self) h
    exact htrans hcall (ih (fun c hc => hcalls c (List.mem_cons_of_mem _ hc)) _)

theorem House.play_follows (fuel : Nat) (calls : List (Call τ))
    (hcalls : ∀ call ∈ calls, call.Within permitted) (h : House τ ν) :
    h.Follows permitted (h.play fuel calls) :=
  House.play_relates (R := House.Follows permitted) .refl .trans (perform_faithful fuel) calls
    hcalls h

theorem House.play_moves (fuel : Nat) (calls : List (Call τ))
    (hcalls : ∀ call ∈ calls, call.Within permitted) (engine : Engine τ ν) (stamps : Stamps) :
    (House.opening engine stamps).Moves permitted
      ((House.opening engine stamps).play fuel calls) := by
  refine House.play_follows fuel calls hcalls (House.opening engine stamps) ?_
  intro listener hmem
  cases hmem

theorem House.play_steps (fuel : Nat) (calls : List (Call τ))
    (hcalls : ∀ call ∈ calls, call.Within permitted) (engine : Engine τ ν) (stamps : Stamps) :
    Steps permitted engine ((House.opening engine stamps).play fuel calls).engine :=
  (House.play_moves fuel calls hcalls engine stamps).steps

/-- A short story to play: a question with one answer, and a last line. -/
def forkText : String := "Hi\nA. Left >> left\n# left\nBye"

def forkScript : Script := (({} : Compiler).compile forkText).script

def forkOpening : House Nat Save.MemoryStore :=
  .opening (.opening forkScript Timing.usual none) ⟨[], 0⟩

end VisualNovel.Playback
