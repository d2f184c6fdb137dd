import VisualNovel.Proofs.Playback.Waits

/-!
What time alone brings about. Where the player has something to decide, at choices or a video, and
wherever no automatic pacing is on, time shows the rest of the text and does nothing else, however
much of it passes and in however many moves of the clock.
-/
namespace VisualNovel

/-- The player has something to decide at a node. -/
def Node.AsksPlayer (node : Node) : Prop := node.choices ≠ [] ∨ node.hasVideo = true

theorem Node.AsksPlayer.waits {node : Node} (h : node.AsksPlayer) :
    node.isDecision = true ∨ node.hasVideo = true :=
  h.imp_left fun hchoices => by simpa [Node.isDecision] using hchoices

namespace Playback

variable {τ ν : Type}

/-- Only the clock is moved. -/
inductive Call.MovesClock : Call τ → Prop
  | wait (seconds : τ) : MovesClock (.wait seconds)
  | idle (limit : τ) : MovesClock (.idle limit)

theorem Call.MovesClock.within {permitted : Call τ → Prop} {call : Call τ} (h : call.MovesClock)
    (hcall : permitted call) : call.Within permitted := by
  refine Call.within_of_plain ?_ hcall
  cases h <;> rfl

theorem Call.Waits.movesClock {call : Call τ} (h : call.Waits) : call.MovesClock := by
  cases h with
  | wait seconds => exact .wait seconds

/-- Of a session nothing has changed but how much of a text is shown, and that is no less. -/
structure Session.Unfolds (old new : Session) (text : String) : Prop where
  only : new = { old with progress := new.progress, reveal := new.reveal }
  grows : old.progress ≤ new.progress
  within : new.progress ≤ text.length

theorem Session.Unfolds.trans {x y z : Session} {text : String} (h : x.Unfolds y text)
    (h' : y.Unfolds z text) : x.Unfolds z text where
  only := by
    rw [h'.only, h.only]
  grows := Nat.le_trans h.grows h'.grows
  within := h'.within

theorem Engine.Lingers.unfolds_refl {e : Engine τ ν} {s : Script} {node : Node}
    (h : e.Lingers s node) : e.session.Unfolds e.session node.text := by
  obtain ⟨-, hat⟩ := Engine.at_of_currentNode h.sound h.current
  exact ⟨rfl, Nat.le_refl _, hat.progress⟩

variable [AddZeroClass τ] [Mul τ] [NatCast τ] [LinearOrder τ]

/-- While text appears, a timer that runs shows one more character and does no more. -/
theorem Engine.Stands.unfolds_tick {e : Engine τ ν} {s : Script} {node : Node}
    (h : e.Stands s node) (hreveal : e.session.reveal = .revealing) {target : τ}
    {entry : Timer.Entry τ Alarm} {rest : Timer.Agenda τ Alarm}
    (hdue : e.agenda.pop? target = some (entry, rest)) :
    e.session.Unfolds (({ e with agenda := rest } : Engine τ ν).fire entry.task).engine.session
      node.text := by
  have hless := h.progress_lt hreveal
  have hcurrent : ({ e with agenda := rest } : Engine τ ν).currentNode = some node := h.current
  rw [h.fire_eq hreveal hdue, revealTick_session hcurrent]
  refine ⟨rfl, ?_, Nat.min_le_right _ _⟩
  dsimp only
  omega

variable [Save.KeyValueStore ν]

theorem Step.unfolds {e e' : Engine τ ν} {s : Script} {node : Node}
    (hstep : Step Call.MovesClock e e') (h : e.Lingers s node) (hkeys : s.KeysAreIds) :
    e'.Lingers s node ∧ e.session.Unfolds e'.session node.text := by
  cases hstep with
  | request hcall hgranted =>
    cases hcall with
    | wait seconds => cases hgranted
    | idle limit => cases hgranted
  | alarm hdue =>
    obtain ⟨-, hlingers, -, -⟩ := h.tick hkeys hdue
    exact ⟨hlingers, h.toStands.unfolds_tick (h.revealing_of_due hdue) hdue⟩
  | clock hquiet =>
    exact ⟨⟨h.toStands.withClock _, h.waits⟩, h.unfolds_refl⟩
  | saves saves =>
    exact ⟨⟨h.toStands.withSaves saves, h.waits⟩, h.unfolds_refl⟩

theorem Steps.unfolds {e e' : Engine τ ν} {s : Script} {node : Node}
    (hsteps : Steps Call.MovesClock e e') (h : e.Lingers s node) (hkeys : s.KeysAreIds) :
    e'.Lingers s node ∧ e.session.Unfolds e'.session node.text := by
  induction hsteps with
  | refl => exact ⟨h, h.unfolds_refl⟩
  | tail hsteps hstep ih =>
    obtain ⟨hlingers, hunfolds⟩ := ih
    obtain ⟨hlingers', hunfolds'⟩ := hstep.unfolds hlingers hkeys
    exact ⟨hlingers', hunfolds.trans hunfolds'⟩

/-- No ending is under way where the player has something to decide. -/
theorem Session.At.not_ending_of_asksPlayer {script : Script} {session : Session} {node : Node}
    (h : session.At script node) (hasks : node.AsksPlayer) : session.ending = false := by
  cases hending : session.ending with
  | false => rfl
  | true =>
    have hclosing := h.ending hending
    rcases hasks with hchoices | hvideo
    · exact absurd hclosing.choices hchoices
    · cases hvideo.symm.trans hclosing.video

theorem Steps.exists_lingers {permitted : Call τ → Prop} {script : Script} {timing : Timing τ}
    {saves : Option (Save.Repository ν)} {e : Engine τ ν} (hkeys : script.KeysAreIds)
    (hsteps : Steps permitted (Engine.opening script timing saves) e) {node : Node}
    (hcurrent : e.currentNode = some node)
    (hwaits : node.AsksPlayer ∨ e.session.pacing = .manual ∧ e.session.ending = false) :
    e.Lingers script node := by
  have hsound := Steps.sound hsteps hkeys (Session.sound_initial script)
  obtain ⟨hview, hat⟩ := Engine.at_of_currentNode hsound hcurrent
  have hending : e.session.ending = false :=
    hwaits.elim hat.not_ending_of_asksPlayer fun hmanual => hmanual.2
  obtain ⟨other, hstands⟩ := hsteps.exists_stands hkeys hview hending
  obtain rfl : other = node := Option.some.inj (hstands.current.symm.trans hcurrent)
  exact ⟨hstands, hwaits.elim (fun hasks => .inr hasks.waits) fun hmanual => .inl hmanual.1⟩

/-- Wherever a run has led, time alone shows the rest of a text and does nothing else where the
player has something to decide or no automatic pacing is on; and if it comes to a node where the
player has something to decide, it stays there. -/
theorem time_alone_never_decides [ExistsAddOfLE τ] (script : Script) (hkeys : script.KeysAreIds)
    (timing : Timing τ) (saves : Option (Save.Repository ν)) :
    (∀ (stamps : Stamps) (fuel : Nat) (calls : List (Call τ)),
      Steps (fun _ => True) (Engine.opening script timing saves)
        ((House.opening (Engine.opening script timing saves) stamps).play fuel calls).engine) ∧
      ∀ e : Engine τ ν, Steps (fun _ => True) (Engine.opening script timing saves) e →
        (∀ h : House τ ν, h.Silent → h.engine = e → ∀ (fuel : Nat) (calls : List (Call τ)),
          (∀ call ∈ calls, call.MovesClock) →
            Steps Call.MovesClock e (h.play fuel calls).engine) ∧
        (e.session.view = .playing → e.session.ending = false →
          ∃ node, e.currentNode = some node ∧
            (node.AsksPlayer ∨ e.session.pacing = .manual →
              (∀ e', Steps Call.MovesClock e e' → e.session.Unfolds e'.session node.text) ∧
                ∃ e', e.Drifts e' ∧ e.session.Unfolds e'.session node.text ∧
                  e'.session.progress = node.text.length)) ∧
        ∀ e₁ e₂ node, Steps Call.MovesClock e e₁ → e₁.currentNode = some node →
          node.AsksPlayer → Steps Call.MovesClock e₁ e₂ →
            e₁.session.Unfolds e₂.session node.text := by
  constructor
  · intro stamps fuel calls
    exact House.play_steps fuel calls (fun call _ => call.within_any) _ stamps
  · intro e hsteps
    refine ⟨?_, ?_, ?_⟩
    · rintro h hsilent rfl fuel calls hcalls
      have hwithin : ∀ call ∈ calls, call.Within Call.MovesClock :=
        fun call hcall => (hcalls call hcall).within (hcalls call hcall)
      exact (House.play_follows fuel calls hwithin h hsilent.within).steps
    · intro hview hending
      obtain ⟨node, hstands⟩ := hsteps.exists_stands hkeys hview hending
      refine ⟨node, hstands.current, fun hwaits => ?_⟩
      have hlingers := Steps.exists_lingers hkeys hsteps hstands.current
        (hwaits.imp_right fun hmanual => ⟨hmanual, hending⟩)
      obtain ⟨e', hdrifts, hlingers', -, hrevealed⟩ := hlingers.exists_revealed hkeys
      obtain ⟨calls, hcalls, htakes⟩ := hdrifts
      have hclock := htakes.steps fun call hcall => (hcalls call hcall).movesClock.within
        (hcalls call hcall).movesClock
      obtain ⟨-, hat⟩ := Engine.at_of_currentNode hlingers'.sound hlingers'.current
      exact ⟨fun e' hpasses => (hpasses.unfolds hlingers hkeys).2, e', ⟨calls, hcalls, htakes⟩,
        (hclock.unfolds hlingers hkeys).2, hat.reveal.mp hrevealed⟩
    · intro e₁ e₂ node hbefore hcurrent hasks hafter
      have hreached : Steps (fun _ => True) (Engine.opening script timing saves) e₁ :=
        hsteps.trans (Steps.any hbefore)
      have hlingers := Steps.exists_lingers hkeys hreached hcurrent (.inl hasks)
      exact (hafter.unfolds hlingers hkeys).2

/-- A question that is asked in fast forward. -/
theorem time_alone_never_decides_in_a_story :
    forkScript.KeysAreIds ∧
      (forkOpening.play 40 [.newGame, .fastForward true]).engine.session.view = .playing ∧
      (forkOpening.play 40 [.newGame, .fastForward true]).engine.session.ending = false ∧
      ((forkOpening.play 40 [.newGame, .fastForward true]).play 40
        [.wait 3, .wait 100000, .idle 7]).engine.session.current = some "start" := by
  have hkeys : forkScript.KeysAreIds := Compiler.keysAreIds_compile {} forkText
  have hview : (forkOpening.play 40 [.newGame, .fastForward true]).engine.session.view =
      .playing := by decide +kernel
  have hending : (forkOpening.play 40 [.newGame, .fastForward true]).engine.session.ending =
      false := by decide +kernel
  have hasked : (forkOpening.play 40 [.newGame, .fastForward true]).engine.currentNode.map
      (·.isDecision) = some true := by decide +kernel
  have hplace : (forkOpening.play 40 [.newGame, .fastForward true]).engine.session.current =
      some "start" := by decide +kernel
  have hunwatched : (forkOpening.play 40 [.newGame, .fastForward true]).listeners.isEmpty =
      true := by decide +kernel
  refine ⟨hkeys, hview, hending, ?_⟩
  obtain ⟨hruns, hstays⟩ := time_alone_never_decides (ν := Save.MemoryStore) forkScript hkeys
    Timing.usual none
  obtain ⟨hclock, hvisit, -⟩ := hstays _ (hruns ⟨[], 0⟩ 40 [.newGame, .fastForward true])
  obtain ⟨node, hcurrent, hunfolds⟩ := hvisit hview hending
  have hsilent : (forkOpening.play 40 [.newGame, .fastForward true]).Silent := by
    intro listener hmem
    rw [List.isEmpty_iff.mp hunwatched] at hmem
    cases hmem
  have hcalls : ∀ call ∈ [.wait 3, .wait 100000, .idle 7], (call : Call Nat).MovesClock := by
    intro call hcall
    simp only [List.mem_cons, List.not_mem_nil, or_false] at hcall
    rcases hcall with rfl | rfl | rfl
    · exact .wait 3
    · exact .wait 100000
    · exact .idle 7
  change (forkOpening.play 40 [.newGame, .fastForward true]).engine.currentNode = some node
    at hcurrent
  rw [hcurrent, Option.map_some, Option.some.injEq] at hasked
  have hchoices : node.choices ≠ [] := by simpa [Node.isDecision] using hasked
  have hpassed := (hunfolds (.inl (.inl hchoices))).1 _ (hclock _ hsilent rfl 40 _ hcalls)
  rw [hpassed.only]
  exact hplace

end Playback

end VisualNovel
