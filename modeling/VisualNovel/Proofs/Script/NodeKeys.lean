import VisualNovel.Script.Compile

/-!
Scripts in which every node stands under its own identifier. Compilation makes no others: a node
is stored under the identifier it was made with, and no later line changes an identifier.
-/
namespace VisualNovel

theorem KeyedList.get?_modify {κ ν : Type} [DecidableEq κ] (d : KeyedList κ ν) (key other : κ)
    (f : ν → ν) :
    (d.modify key f).get? other = if key = other then (d.get? other).map f else d.get? other := by
  unfold KeyedList.modify
  cases hkey : d.get? key with
  | none =>
    by_cases hother : key = other
    · subst other
      simp [hkey]
    · simp [hother]
  | some value =>
    by_cases hother : key = other
    · subst other
      simp [KeyedList.get?_insert_self, hkey]
    · simp [KeyedList.get?_insert_of_ne d (f value) hother, hother]

def KeyedById (nodes : KeyedList String Node) : Prop :=
  ∀ key node, nodes.get? key = some node → node.id = key

namespace KeyedById

theorem empty : KeyedById ∅ := by
  intro key node h
  cases h

theorem insert {nodes : KeyedList String Node} (h : KeyedById nodes) (node : Node) :
    KeyedById (nodes.insert node.id node) := by
  intro key other hother
  rw [KeyedList.get?_insert] at hother
  by_cases hkey : node.id = key
  · rw [if_pos hkey, Option.some.injEq] at hother
    rw [← hother, hkey]
  · rw [if_neg hkey] at hother
    exact h key other hother

theorem modify {nodes : KeyedList String Node} (h : KeyedById nodes) (key : String)
    {f : Node → Node} (hf : ∀ node, (f node).id = node.id) : KeyedById (nodes.modify key f) := by
  intro other node hnode
  rw [KeyedList.get?_modify] at hnode
  by_cases hkey : key = other
  · rw [if_pos hkey] at hnode
    obtain ⟨old, hold, rfl⟩ := Option.map_eq_some_iff.mp hnode
    rw [hf, h other old hold]
  · rw [if_neg hkey] at hnode
    exact h other node hnode

end KeyedById

namespace Script

/-- Every node is stored under its own identifier. -/
def KeysAreIds (s : Script) : Prop := KeyedById s.nodes

theorem KeysAreIds.get?_id {s : Script} (h : s.KeysAreIds) {id : String} {node : Node}
    (hnode : s.get? id = some node) : s.get? node.id = some node := by
  rw [h id node hnode]
  exact hnode

/-- Where no node is stored under the empty name, no node is called by it. -/
theorem KeysAreIds.id_ne_empty {s : Script} (h : s.KeysAreIds) (hempty : s.get? "" = none)
    (id : String) (node : Node) (hnode : s.get? id = some node) : node.id ≠ "" := by
  intro hid
  have hfound := h.get?_id hnode
  rw [hid, hempty] at hfound
  cases hfound

theorem resolve_cases {s : Script} {id : String} {node : Node}
    (h : s.resolve (some id) = some node) : s.start? = some node ∨ s.get? id = some node := by
  unfold resolve at h
  dsimp only at h
  split at h
  · exact Or.inl h
  · cases hid : s.get? id with
    | none =>
      rw [hid] at h
      exact Or.inl h
    | some found =>
      rw [hid] at h
      exact Or.inr h

theorem exists_get?_of_resolve {s : Script} {id : String} {node : Node}
    (h : s.resolve (some id) = some node) : ∃ key, s.get? key = some node := by
  rcases resolve_cases h with hstart | hnode
  · exact ⟨s.startId, hstart⟩
  · exact ⟨id, hnode⟩

end Script

namespace Compile

theorem linkIfOpen_id (target : String) (node : Node) : (linkIfOpen target node).id = node.id := by
  unfold linkIfOpen
  split <;> rfl

namespace Progress

theorem keyedById_updatePrevious {p : Progress} (h : KeyedById p.drafts) {f : Node → Node}
    (hf : ∀ node, (f node).id = node.id) : KeyedById (p.updatePrevious f).drafts := by
  unfold updatePrevious
  split
  · exact h.modify _ hf
  · exact h

end Progress

theorem keyedById_applyLabel {p : Progress} (h : KeyedById p.drafts) (here : Located)
    (name : String) : KeyedById (applyLabel p here name).drafts := by
  unfold applyLabel
  split
  · exact h
  · exact Progress.keyedById_updatePrevious h (linkIfOpen_id name)

theorem drafts_applySprite (catalog : Asset.Catalog) (p : Progress) (here : Located)
    (value : String) : (applySprite catalog p here value).drafts = p.drafts := by
  unfold applySprite
  repeat' split
  all_goals rfl

theorem keyedById_applyCommand {p : Progress} (h : KeyedById p.drafts) (catalog : Asset.Catalog)
    (here : Located) (command : Line.Command) :
    KeyedById (applyCommand catalog p here command).drafts := by
  cases hkind : command.kind with
  | background => simp only [applyCommand, hkind]; split <;> exact h
  | sprite =>
    simp only [applyCommand, hkind]
    rw [drafts_applySprite]
    exact h
  | cg => simp only [applyCommand, hkind]; split <;> exact h
  | video => simp only [applyCommand, hkind]; split <;> exact h
  | effect => simp only [applyCommand, hkind]; split <;> exact h
  | returnTitle =>
    simp only [applyCommand, hkind]
    split
    · exact Progress.keyedById_updatePrevious h (fun _ => rfl)
    · exact h

theorem keyedById_applyChoice {p : Progress} (h : KeyedById p.drafts) (here : Located)
    (choice : Line.ChoiceLine) : KeyedById (applyChoice p here choice).drafts := by
  unfold applyChoice
  split
  · exact h
  · split
    · exact Progress.keyedById_updatePrevious h (fun _ => rfl)
    · exact Progress.keyedById_updatePrevious h (fun _ => rfl)

theorem keyedById_applyDialogue {p : Progress} (h : KeyedById p.drafts) (here : Located)
    (dialogue : Line.Dialogue) : KeyedById (applyDialogue p here dialogue).drafts := by
  have hnamed : KeyedById ({ p with carry := (takeId p.carry).2 } : Progress).drafts := h
  have hlinked := Progress.keyedById_updatePrevious hnamed (linkIfOpen_id (takeId p.carry).1)
  unfold applyDialogue
  dsimp only
  split
  · exact hlinked.insert (snapshot _ _ dialogue)
  · exact hlinked.insert (snapshot _ _ dialogue)

theorem keyedById_applyLine {p : Progress} (h : KeyedById p.drafts) (catalog : Asset.Catalog)
    (here : Located) : KeyedById (applyLine catalog p here).drafts := by
  unfold applyLine
  split
  · exact keyedById_applyLabel h here _
  · exact keyedById_applyCommand h catalog here _
  · exact keyedById_applyChoice h here _
  · exact keyedById_applyDialogue h here _

theorem keyedById_foldl (catalog : Asset.Catalog) (lines : List Located) (p : Progress)
    (h : KeyedById p.drafts) : KeyedById (lines.foldl (applyLine catalog) p).drafts := by
  induction lines generalizing p with
  | nil => exact h
  | cons here rest ih => exact ih _ (keyedById_applyLine h catalog here)

end Compile

theorem Compiler.keysAreIds_compile (c : Compiler) (text : String) :
    (c.compile text).script.KeysAreIds :=
  Compile.keyedById_foldl c.catalog (Compile.locatedLines text) (Compile.initial c) KeyedById.empty

end VisualNovel
