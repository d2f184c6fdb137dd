import VisualNovel.Proofs.Script.Reachable

/-!
What a report without errors means: there is a start, and every link of every node leads to a node
or ends the session. The remaining warnings name the places where play stops.
-/
namespace VisualNovel

theorem Entries.find?_eq_some_iff {κ ν : Type} [DecidableEq κ] {entries : List (κ × ν)}
    (hnodup : (entries.map Prod.fst).Nodup) (key : κ) (value : ν) :
    find? key entries = some value ↔ (key, value) ∈ entries := by
  induction entries with
  | nil => simp [find?]
  | cons entry rest ih =>
    obtain ⟨k, v⟩ := entry
    rw [List.map_cons, List.nodup_cons] at hnodup
    rw [find?, List.mem_cons, Prod.mk.injEq]
    by_cases hkey : k = key
    · subst hkey
      have habsent : (k, value) ∉ rest := fun hmem => hnodup.1 (List.mem_map.mpr ⟨_, hmem, rfl⟩)
      rw [if_pos rfl, Option.some.injEq]
      simp [habsent, eq_comm]
    · rw [if_neg hkey, ih hnodup.2]
      simp [Ne.symm hkey]

theorem KeyedList.mem_values_iff {κ ν : Type} [DecidableEq κ] (d : KeyedList κ ν) (value : ν) :
    value ∈ d.values ↔ ∃ key, d.get? key = some value := by
  unfold KeyedList.values KeyedList.get?
  rw [List.mem_map]
  constructor
  · rintro ⟨⟨key, v⟩, hmem, rfl⟩
    exact ⟨key, (Entries.find?_eq_some_iff d.nodup_keys key v).mpr hmem⟩
  · rintro ⟨key, hkey⟩
    exact ⟨(key, value), (Entries.find?_eq_some_iff d.nodup_keys key value).mp hkey, rfl⟩

/-- There is a start, and every link leads to a node or ends the session. -/
structure Script.Linked (s : Script) : Prop where
  start : s.start?.isSome = true
  links : ∀ id node, s.get? id = some node → ∀ t ∈ node.successors, t ≠ endTarget →
    s.contains t = true

theorem Script.Linked.get? {s : Script} (h : s.Linked) {id t : String} {node : Node}
    (hnode : s.get? id = some node) (ht : t ∈ node.successors) (hend : t ≠ endTarget) :
    ∃ target, s.get? t = some target :=
  Option.isSome_iff_exists.mp (h.links id node hnode t ht hend)

namespace Graph

theorem missingLinks_eq_nil_iff (s : Script) :
    missingLinks s = [] ↔ ∀ id node, s.get? id = some node → ∀ t ∈ node.successors,
      t ≠ endTarget → s.contains t = true := by
  unfold missingLinks
  rw [List.flatMap_eq_nil_iff]
  simp only [List.map_eq_nil_iff, List.filter_eq_nil_iff, KeyedList.mem_values_iff]
  constructor
  · intro h id node hnode t ht hend
    simpa [hend] using h node ⟨id, hnode⟩ t ht
  · rintro h node ⟨id, hnode⟩ t ht
    by_cases hend : t = endTarget
    · simp [hend]
    · simp [h id node hnode t ht hend]

theorem isValid_iff (s : Script) : (validate s).isValid = true ↔ s.Linked := by
  cases hstart : s.start? with
  | none =>
    have hvalid : (validate s).isValid = false := by simp [validate, hstart]
    rw [hvalid]
    refine ⟨fun h => absurd h Bool.false_ne_true, fun h => ?_⟩
    have hsome := h.start
    rw [hstart] at hsome
    cases hsome
  | some node =>
    have hsome : s.start?.isSome = true := by rw [hstart, Option.isSome_some]
    rw [validate_of_start hsome, List.isEmpty_iff, missingLinks_eq_nil_iff]
    exact ⟨fun h => ⟨hsome, h⟩, fun h => h.links⟩

theorem eq_of_stopWarning {a b : String} (h : stopWarning a = stopWarning b) : a = b := by
  have hnamed := (String.append_left_inj
    "' has no successor; play returns to the title without an explicit ending").mp h
  exact (String.append_right_inj "Node '").mp hnamed

/-- The report warns of exactly those keys that the search finds and that nothing comes after. -/
theorem stop_mem_warnings {s : Script} (hstart : s.start?.isSome = true) {id : String} :
    stopWarning id ∈ (validate s).warnings ↔
      id ∈ reachable s ∧ isTerminalKey s id = true := by
  rw [validate_of_start hstart]
  simp only [List.mem_append, List.mem_map, List.mem_filter, mem_sorted]
  constructor
  · rintro (⟨k, -, htext⟩ | ⟨k, hstop, htext⟩)
    · exact absurd htext (unreachable_text_ne_stop_text k id)
    · have hsame : k = id := eq_of_stopWarning htext
      exact hsame ▸ hstop
  · intro hstop
    exact Or.inr ⟨id, hstop, rfl⟩

end Graph

end VisualNovel
