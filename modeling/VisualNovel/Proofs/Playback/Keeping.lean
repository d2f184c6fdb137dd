import VisualNovel.Proofs.Playback.Runs
import VisualNovel.Proofs.Save.Entries

/-!
What becomes of the saves while an engine is at work. Only saves write to the store, and the clock
of the saves is wound by nobody.
-/
namespace VisualNovel.Playback

variable {τ ν : Type}

namespace Engine

variable {e : Engine τ ν} {r : Save.Repository ν} {slot : Int} {node : Node}

theorem storage_of_some (h : e.saves = some r) : e.storage = .ok r := by
  rw [storage, h]

theorem storage_of_none (h : e.saves = none) : e.storage = .error .noSaveStorage := by
  rw [storage, h]

theorem saves_of_storage (h : e.storage = .ok r) : e.saves = some r := by
  cases hsaves : e.saves with
  | none =>
    rw [storage_of_none hsaves] at h
    cases h
  | some r' =>
    rw [storage_of_some hsaves] at h
    rw [Except.ok.inj h]

theorem saveTarget_of_current (hsaves : e.saves = some r) (hslot : r.hasSlot slot = true)
    (hcurrent : e.currentNode = some node) : e.saveTarget slot = .ok (r, node) := by
  simp [saveTarget, storage_of_some hsaves, Save.Repository.checkSlot_of_hasSlot hslot, hcurrent,
    bind, Except.bind, pure, Except.pure]

theorem saveTarget_eq_ok (h : e.saveTarget slot = .ok (r, node)) :
    e.saves = some r ∧ r.hasSlot slot = true ∧ e.currentNode = some node := by
  obtain ⟨repository, hstorage, h⟩ := bind_eq_ok_iff.mp h
  obtain ⟨_, hcheck, h⟩ := bind_eq_ok_iff.mp h
  have hslot : repository.hasSlot slot = true := by
    by_contra hslot
    rw [Save.Repository.checkSlot, if_neg hslot] at hcheck
    cases hcheck
  cases hcurrent : e.currentNode with
  | none => simp [hcurrent, throw, throwThe, MonadExceptOf.throw] at h
  | some current =>
    simp only [hcurrent, pure, Except.pure, Except.ok.injEq, Prod.mk.injEq] at h
    obtain ⟨rfl, rfl⟩ := h
    exact ⟨saves_of_storage hstorage, hslot, rfl⟩

end Engine

/-- What holds of the saves as long as they are written by permitted calls. -/
structure Save.Kept [Save.KeyValueStore ν] (permitted : Call τ → Prop)
    (P : Save.Repository ν → Prop) : Prop where
  put : ∀ {room : Nat} {r r' : Save.Repository ν} {s : Save.Slot}, permitted (.save s.id room) →
    P r → r.put room s = .ok r' → P r'
  stored : ∀ {room : Nat} {r : Save.Repository ν} {text : Text.RawText} {store : ν},
    permitted (.setStoredText text room) → P r →
    Save.KeyValueStore.set r.store room r.key text = .ok store → P { r with store }

/-- An engine with saves of some property. -/
def Engine.SavesAre (e : Engine τ ν) (P : Save.Repository ν → Prop) : Prop :=
  ∃ r, e.saves = some r ∧ P r

theorem Engine.SavesAre.congr {e e' : Engine τ ν} {P : Save.Repository ν → Prop}
    (h : e.SavesAre P) (hsaves : e'.saves = e.saves) : e'.SavesAre P := by
  obtain ⟨r, hr, hP⟩ := h
  exact ⟨r, hsaves.trans hr, hP⟩

theorem House.setStoredText_savesAre [Save.KeyValueStore ν] {permitted : Call τ → Prop}
    {P : Save.Repository ν → Prop} (hkept : Save.Kept permitted P) {h : House τ ν} {room : Nat}
    {text : Text.RawText} (hcall : permitted (.setStoredText text room))
    (hP : h.engine.SavesAre P) : (h.setStoredText room text).2.engine.SavesAre P := by
  obtain ⟨r, hr, hPr⟩ := hP
  unfold House.setStoredText
  rw [hr]
  dsimp only
  split
  · next store hset => exact ⟨_, rfl, hkept.stored hcall hPr hset⟩
  · exact ⟨r, hr, hPr⟩

namespace Engine

variable [Zero τ] [Add τ] [Mul τ] [NatCast τ] [LT τ] [DecidableLT τ]

@[simp] theorem armPacing_saves (e : Engine τ ν) : e.armPacing.saves = e.saves := by
  unfold armPacing
  repeat' split
  all_goals rfl

@[simp] theorem enter_saves (e : Engine τ ν) (node : Node) :
    (e.enter node).engine.saves = e.saves := by
  unfold enter
  dsimp only
  split
  · exact armPacing_saves _
  · rfl

@[simp] theorem setPacing_saves (e : Engine τ ν) (pacing : Pacing) :
    (e.setPacing pacing).engine.saves = e.saves := by
  unfold setPacing
  split
  · rfl
  · dsimp only [announced]
    split
    · rfl
    · exact armPacing_saves _

end Engine

section Requests
variable [Zero τ] [Add τ] [Mul τ] [NatCast τ] [LT τ] [DecidableLT τ]

theorem Turn.saves {e : Engine τ ν} {c : Change τ ν} (h : Turn e c) :
    c.engine.saves = e.saves := by
  cases h with
  | follow pacing hcurrent hending hlink => exact Engine.enter_saves _ _
  | back hview hentry hnode => exact Engine.enter_saves _ _
  | complete hcurrent hending hreveal => exact Engine.armPacing_saves _
  | pace pacing => exact Engine.setPacing_saves e pacing
  | _ => rfl

theorem Engine.fire_saves (e : Engine τ ν) (alarm : Alarm) :
    (e.fire alarm).engine.saves = e.saves := by
  unfold fire
  split
  · rfl
  · split
    · unfold revealTick
      dsimp only
      split
      · rfl
      · split
        · exact armPacing_saves _
        · rfl
    · exact (turn_advance { e with pacingTimer := none }).saves
    · rfl

variable [Save.KeyValueStore ν]

theorem Engine.outcome_saves {e : Engine τ ν} {call : Call τ} {c : Change τ ν}
    (h : e.outcome call = some (.ok c)) : c.engine.saves = e.saves := by
  rcases outcome_cases h with hturn | ⟨id, node, -, rfl, -⟩
  · exact hturn.saves
  · exact enter_saves _ _

end Requests

variable {permitted : Call τ → Prop} {h h' : House τ ν} {P : Save.Repository ν → Prop}
variable [Save.KeyValueStore ν]

theorem House.save_savesAre (hkept : Save.Kept permitted P) {slot : Int} {room : Nat}
    (hcall : permitted (.save slot room)) (hP : h.engine.SavesAre P) :
    (h.save room slot).2.engine.SavesAre P := by
  unfold House.save
  split
  · exact hP
  · dsimp only
    split
    · next s engine hsaved =>
      obtain ⟨r, node, r', htarget, rfl, hput, rfl⟩ := Engine.save_eq_ok hsaved
      obtain ⟨hsaves, -, -⟩ := Engine.saveTarget_eq_ok htarget
      obtain ⟨r₀, hr₀, hP₀⟩ := hP
      rw [hsaves, Option.some.injEq] at hr₀
      exact ⟨r', rfl, hkept.put hcall (hr₀ ▸ hP₀) hput⟩
    · exact hP
    · exact hP

variable [Zero τ] [Add τ] [Mul τ] [NatCast τ] [LT τ] [DecidableLT τ]

theorem House.Move.savesAre (hkept : Save.Kept permitted P) (hmove : h.Move permitted h')
    (hP : h.engine.SavesAre P) : h'.engine.SavesAre P := by
  cases hmove with
  | request hcall hgranted => exact hP.congr (Engine.outcome_saves hgranted)
  | alarm hdue => exact hP.congr (Engine.fire_saves _ _)
  | save hcall => exact House.save_savesAre hkept hcall hP
  | stored hcall => exact House.setStoredText_savesAre hkept hcall hP
  | _ => exact hP

theorem House.Moves.savesAre (hkept : Save.Kept permitted P) (hmoves : h.Moves permitted h')
    (hP : h.engine.SavesAre P) : h'.engine.SavesAre P := by
  induction hmoves with
  | refl => exact hP
  | tail _ hmove ih => exact hmove.savesAre hkept ih

theorem House.Move.moments (hmove : h.Move permitted h') :
    h'.stamps.moments = h.stamps.moments := by
  cases hmove with
  | @save slot room hcall =>
    unfold House.save
    split
    · rfl
    · dsimp only
      split <;> rfl
  | @stored text room hcall =>
    unfold House.setStoredText
    split
    · rfl
    · split <;> rfl
  | _ => rfl

theorem House.Moves.moments (hmoves : h.Moves permitted h') :
    h'.stamps.moments = h.stamps.moments := by
  induction hmoves with
  | refl => rfl
  | tail _ hmove ih => exact hmove.moments.trans ih

end VisualNovel.Playback
