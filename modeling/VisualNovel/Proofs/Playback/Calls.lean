import VisualNovel.Playback.Audience
import VisualNovel.Proofs.Timer.Clock

/-!
What calls do, in equations: how a request is answered, and how listeners make calls of their own
when they are told of it. A call that comes to an end with some fuel does the same with more.
-/
namespace VisualNovel.Playback

variable {τ ν : Type}

/-- Uses up one of the reactions that a listener may still make. -/
def House.spend (h : House τ ν) (listener : Listener τ) (left : Nat) : House τ ν :=
  { h with usesLeft := h.usesLeft.insert listener.id left }

theorem ne_outOfFuel_of_replying {ρ : Type} {reply : ρ → Reply τ}
    {result : Except (Timer.Halt CallError) ρ × House τ ν}
    (h : (replying reply result).1 ≠ .error .outOfFuel) : result.1 ≠ .error .outOfFuel := by
  intro hout
  unfold replying at h
  rw [hout] at h
  exact h rfl

theorem mapError_of_error {ε ε' α : Type} {x : Except ε α} {e : ε} (h : x = .error e)
    (f : ε → ε') : x.mapError f = .error (f e) := by
  rw [h, mapError_error]

theorem mapError_of_ok {ε ε' α : Type} {x : Except ε α} {a : α} (h : x = .ok a) (f : ε → ε') :
    x.mapError f = .ok a := by
  rw [h, mapError_ok]

theorem eq_ok_of_mapError {ε ε' α : Type} {x : Except ε α} {f : ε → ε'} {a : α}
    (h : some (x.mapError f) = some (.ok a)) : x = .ok a :=
  mapError_eq_ok_iff.mp (Option.some.inj h)

theorem ne_outOfFuel_of_isOk {ρ : Type} {r : Except (Timer.Halt CallError) ρ}
    (h : r.isOk = true) : r ≠ .error .outOfFuel := by
  rintro rfl
  cases h

def answered (perform : Call τ → HouseAction τ ν (Reply τ)) :
    Except CallError (Change τ ν) → HouseAction τ ν (Reply τ)
  | .ok c => fun h => replying (fun () => .nothing) (publish perform c h)
  | .error e => fun h => failing h e

section Delivery
variable {perform perform' : Call τ → HouseAction τ ν (Reply τ)} {f : Frame} {listener : Listener τ}
variable {rest : List (Listener τ)} {h : House τ ν}

theorem makeCalls_cons (call : Call τ) (rest : List (Call τ)) :
    makeCalls perform (call :: rest) = (perform call).seq fun _ => makeCalls perform rest := by
  funext h
  rw [makeCalls]
  unfold Timer.Action.seq
  rcases perform call h with ⟨halt | reply, h'⟩ <;> rfl

theorem deliver_of_quiet (hreacts : (h.record listener f).reacts listener f = none) :
    deliver perform f (listener :: rest) h = deliver perform f rest (h.record listener f) := by
  rw [deliver, hreacts]

theorem deliver_of_reacting {left : Nat}
    (hreacts : (h.record listener f).reacts listener f = some left) :
    deliver perform f (listener :: rest) h =
      (makeCalls perform listener.reaction).seq (fun _ => deliver perform f rest)
        ((h.record listener f).spend listener left) := by
  rw [deliver, hreacts]
  unfold Timer.Action.seq House.spend
  dsimp only
  rcases makeCalls perform listener.reaction _ with ⟨halt | _, h'⟩ <;> rfl

theorem makeCalls_extends (hperform : ∀ call, (perform call).Extends (perform' call))
    (calls : List (Call τ)) : (makeCalls perform calls).Extends (makeCalls perform' calls) := by
  induction calls with
  | nil => exact fun _ _ => rfl
  | cons call rest ih =>
    rw [makeCalls_cons, makeCalls_cons]
    exact (hperform call).seq fun _ => ih

theorem deliver_extends (hperform : ∀ call, (perform call).Extends (perform' call)) (f : Frame)
    (listeners : List (Listener τ)) :
    (deliver perform f listeners).Extends (deliver perform' f listeners) := by
  induction listeners with
  | nil => exact fun _ _ => rfl
  | cons listener rest ih =>
    intro h hdone
    cases hreacts : (h.record listener f).reacts listener f with
    | none =>
      rw [deliver_of_quiet hreacts] at hdone
      rw [deliver_of_quiet hreacts, deliver_of_quiet hreacts]
      exact ih _ hdone
    | some left =>
      rw [deliver_of_reacting hreacts] at hdone
      rw [deliver_of_reacting hreacts, deliver_of_reacting hreacts]
      exact (makeCalls_extends hperform listener.reaction).seq (fun _ => ih) _ hdone

theorem publish_extends (hperform : ∀ call, (perform call).Extends (perform' call))
    (c : Change τ ν) : (publish perform c).Extends (publish perform' c) := by
  intro h hdone
  unfold publish at hdone ⊢
  dsimp only at hdone ⊢
  split
  · next htold =>
    rw [if_pos htold] at hdone
    exact deliver_extends hperform c.engine.frame h.listeners _ hdone
  · rfl

theorem answered_extends (hperform : ∀ call, (perform call).Extends (perform' call))
    (r : Except CallError (Change τ ν)) : (answered perform r).Extends (answered perform' r) := by
  intro h hdone
  cases r with
  | error e => rfl
  | ok c =>
    exact congrArg (replying fun _ => .nothing)
      (publish_extends hperform c h (ne_outOfFuel_of_replying hdone))

end Delivery

variable [Zero τ] [Add τ] [Mul τ] [NatCast τ] [LT τ] [DecidableLT τ]

def fireAlarm (perform : Call τ → HouseAction τ ν (Reply τ)) (alarm : Alarm) :
    HouseAction τ ν Unit := fun h => publish perform (h.engine.fire alarm) h

theorem fireAlarm_extends {perform perform' : Call τ → HouseAction τ ν (Reply τ)}
    (hperform : ∀ call, (perform call).Extends (perform' call))
    (alarm : Alarm) : (fireAlarm perform alarm).Extends (fireAlarm perform' alarm) :=
  fun h => publish_extends hperform (h.engine.fire alarm) h

variable [Save.KeyValueStore ν]

/-- The answer to a call that is a request: the change it makes, or why it is refused. -/
def Engine.outcome (e : Engine τ ν) : Call τ → Option (Except CallError (Change τ ν))
  | .newGame => some (e.newGame.mapError .fault)
  | .title => some (.ok e.returnToTitle)
  | .advance => some (.ok e.advance)
  | .choose index => some ((e.selectChoice index).mapError .fault)
  | .auto enabled => some (.ok (e.setAutoPlay enabled))
  | .fastForward enabled => some (.ok (e.setFastForward enabled))
  | .toggleAuto => some (.ok e.toggleAutoPlay)
  | .toggleFastForward => some (.ok e.toggleFastForward)
  | .acknowledge => some (.ok e.acknowledgeEffect)
  | .openHistory => some (.ok e.openHistory)
  | .closeHistory => some (.ok e.closeHistory)
  | .jump index => some ((e.jumpToHistory index).mapError fun
      | .fault f => .fault f
      | .outOfRange i => .historyIndex i)
  | .load slot room => some ((e.load room slot).mapError .saves)
  | _ => none

variable [LE τ] [DecidableLE τ]

theorem perform_request {fuel : Nat} {call : Call τ} {h : House τ ν}
    {r : Except CallError (Change τ ν)} (hr : h.engine.outcome call = some r) :
    perform (fuel + 1) call h = answered (perform fuel) r h := by
  cases call with
  | newGame =>
    cases hr
    unfold perform
    dsimp only
    cases h.engine.newGame <;> rfl
  | choose index =>
    cases hr
    unfold perform
    dsimp only
    cases h.engine.selectChoice index <;> rfl
  | jump index =>
    cases hr
    unfold perform
    dsimp only
    rcases h.engine.jumpToHistory index with (f | i) | c <;> rfl
  | load slot room =>
    cases hr
    unfold perform
    dsimp only
    cases h.engine.load room slot <;> rfl
  | _ => cases hr <;> rfl

theorem perform_extends {fuel fuel' : Nat} (hfuel : fuel ≤ fuel') (call : Call τ) :
    (perform fuel call : HouseAction τ ν (Reply τ)).Extends (perform fuel' call) := by
  induction fuel generalizing fuel' call with
  | zero => exact fun _ h => absurd rfl h
  | succ fuel ih =>
    intro h hdone
    obtain ⟨more, rfl⟩ : ∃ more, fuel' = more + 1 := ⟨fuel' - 1, by omega⟩
    have hperform : ∀ call,
        (perform fuel call : HouseAction τ ν (Reply τ)).Extends (perform more call) :=
      fun call => ih (by omega) call
    have hfire := fireAlarm_extends hperform
    cases call with
    | wait seconds =>
      exact congrArg (replying .count) (Timer.advance_extends hfire seconds (by omega) h
        (ne_outOfFuel_of_replying hdone))
    | idle limit =>
      exact congrArg (replying .count) (Timer.runUntilIdle_extends hfire limit (by omega) h
        (ne_outOfFuel_of_replying hdone))
    | save | frame | backlog | current | nextDue | slots | storedText | setStoredText
    | subscribe | unsubscribe => rfl
    | _ =>
      rw [perform_request rfl] at hdone
      rw [perform_request rfl, perform_request rfl]
      exact answered_extends hperform _ h hdone

end VisualNovel.Playback
