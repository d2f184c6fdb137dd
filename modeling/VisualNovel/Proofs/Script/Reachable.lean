import VisualNovel.Script.Graph

/-!
What the graph search finds. It finds the keys it begins with, and from a key it finds every key
that a link leads to, so that the keys reachable from the start are closed under links; and it finds
no others. The report lists these keys, and calls the others unreachable.
-/
namespace VisualNovel.Graph

/-- The keys that links lead to from the start, as far as their targets are open. -/
inductive Reached (s : Script) (isOpen : String → Prop) : String → Prop
  | start : Reached s isOpen s.startId
  | link {id t : String} {node target : Node} (hid : Reached s isOpen id)
      (hnode : s.get? id = some node) (ht : t ∈ node.successors) (hopen : isOpen t)
      (htarget : s.get? t = some target) : Reached s isOpen t

theorem mem_among {targets keys : List String} {k : String} :
    k ∈ among targets keys ↔ k ∈ keys ∧ k ∈ targets := by
  simp [among]

theorem mem_notAmong {targets keys : List String} {k : String} :
    k ∈ notAmong targets keys ↔ k ∈ keys ∧ k ∉ targets := by
  simp [notAmong]

theorem mem_explore_of_waiting (s : Script) (unvisited waiting : List String) :
    ∀ id ∈ waiting, id ∈ explore s unvisited waiting := by
  induction unvisited, waiting using explore.induct s with
  | case1 unvisited =>
    intro id hid
    cases hid
  | case2 unvisited first rest ih =>
    intro id hid
    rw [explore]
    rcases List.mem_cons.mp hid with rfl | hid
    · exact List.mem_cons_self
    · exact List.mem_cons_of_mem first (ih id (List.mem_append_left _ hid))

/-- Every link from a key that is found leads to a key that is found, unless it was no longer
unvisited to begin with. -/
theorem mem_explore_of_target (s : Script) (unvisited waiting : List String) :
    ∀ id ∈ explore s unvisited waiting, ∀ t ∈ targets s id, t ∈ unvisited →
      t ∈ explore s unvisited waiting := by
  induction unvisited, waiting using explore.induct s with
  | case1 unvisited =>
    intro id hid
    rw [explore] at hid
    cases hid
  | case2 unvisited first rest ih =>
    intro id hid t ht hunvisited
    rw [explore] at hid ⊢
    refine List.mem_cons_of_mem first ?_
    -- A target of the key just visited waits from now on; any other one is still unvisited.
    by_cases hfirst : t ∈ targets s first
    · have hwaits : t ∈ rest ++ among (targets s first) unvisited :=
        List.mem_append_right rest (mem_among.mpr ⟨hunvisited, hfirst⟩)
      exact mem_explore_of_waiting s _ _ t hwaits
    · have hstill : t ∈ notAmong (targets s first) unvisited :=
        mem_notAmong.mpr ⟨hunvisited, hfirst⟩
      rcases List.mem_cons.mp hid with rfl | hid
      · exact absurd ht hfirst
      · exact ih id hid t ht hstill

theorem start_mem_reachable (s : Script) : s.startId ∈ reachable s :=
  mem_explore_of_waiting s _ _ s.startId (List.mem_singleton.mpr rfl)

theorem mem_reachable_of_successor {s : Script} {id t : String} {node target : Node}
    (hid : id ∈ reachable s) (hnode : s.get? id = some node) (ht : t ∈ node.successors)
    (htarget : s.get? t = some target) : t ∈ reachable s := by
  by_cases hstart : t = s.startId
  · exact hstart ▸ start_mem_reachable s
  · have htargets : t ∈ targets s id := by
      unfold targets
      rw [hnode]
      exact ht
    have hfound : s.nodes.get? t = some target := htarget
    have hkeys : t ∈ s.nodes.keys := by
      rw [← KeyedList.isSome_get?_iff, hfound]
      rfl
    have hunvisited : t ∈ s.nodes.keys.filter (· != s.startId) := by
      rw [List.mem_filter]
      exact ⟨hkeys, by simpa using hstart⟩
    exact mem_explore_of_target s _ _ id hid t htargets hunvisited

/-- Whatever is found was waiting, or a link leads to it from a key that was found before. -/
theorem reached_of_mem_explore (s : Script) (unvisited waiting : List String)
    (hkeys : ∀ id ∈ unvisited, id ∈ s.nodes.keys)
    (hwaiting : ∀ id ∈ waiting, Reached s (fun _ => True) id) :
    ∀ id ∈ explore s unvisited waiting, Reached s (fun _ => True) id := by
  induction unvisited, waiting using explore.induct s with
  | case1 unvisited =>
    intro id hid
    rw [explore] at hid
    cases hid
  | case2 unvisited first rest ih =>
    have hfirst := hwaiting first List.mem_cons_self
    have hnext : ∀ id ∈ rest ++ among (targets s first) unvisited,
        Reached s (fun _ => True) id := by
      intro id hid
      rcases List.mem_append.mp hid with hrest | hnew
      · exact hwaiting id (List.mem_cons_of_mem first hrest)
      · obtain ⟨hunvisited, htarget⟩ := mem_among.mp hnew
        have hkey := (KeyedList.isSome_get?_iff s.nodes id).mpr (hkeys id hunvisited)
        obtain ⟨target, hfound⟩ := Option.isSome_iff_exists.mp hkey
        unfold targets at htarget
        split at htarget
        · next node hnode => exact .link hfirst hnode htarget trivial hfound
        · cases htarget
    have hstill : ∀ id ∈ notAmong (targets s first) unvisited, id ∈ s.nodes.keys :=
      fun id hid => hkeys id (mem_notAmong.mp hid).1
    intro id hid
    rw [explore] at hid
    rcases List.mem_cons.mp hid with rfl | hid
    · exact hfirst
    · exact ih hstill hnext id hid

/-- The search finds the keys that links lead to, and no others. -/
theorem mem_reachable_iff {s : Script} {id : String} :
    id ∈ reachable s ↔ Reached s (fun _ => True) id := by
  constructor
  · intro hfound
    refine reached_of_mem_explore s _ _ ?_ ?_ id hfound
    · exact fun key hkey => (List.mem_filter.mp hkey).1
    · intro key hkey
      rw [List.mem_singleton.mp hkey]
      exact .start
  · intro hreached
    induction hreached with
    | start => exact start_mem_reachable s
    | link hid hnode ht hopen htarget ih => exact mem_reachable_of_successor ih hnode ht htarget

theorem Reached.isSome_get? {s : Script} {isOpen : String → Prop} (hstart : s.start?.isSome = true)
    {id : String} (h : Reached s isOpen id) : (s.get? id).isSome = true := by
  cases h with
  | start => exact hstart
  | link hid hnode ht hopen htarget => rw [htarget, Option.isSome_some]

/-- A key that is only reached if it is the start never has to be gone through. -/
theorem Reached.avoiding {s : Script} {key : String}
    (hkey : Reached s (fun _ => True) key → key = s.startId) {id : String}
    (h : Reached s (fun _ => True) id) : Reached s (· ≠ key) id := by
  induction h with
  | start => exact .start
  | @link _ t _ _ hid hnode ht hopen htarget ih =>
    by_cases hsame : t = key
    · rw [hsame, hkey (hsame ▸ .link hid hnode ht hopen htarget)]
      exact .start
    · exact .link ih hnode ht hsame htarget

/-- The warning that play stops at a node. -/
def stopWarning (id : String) : String :=
  s!"Node '{id}' has no successor; play returns to the title without an explicit ending"

theorem validate_of_start {s : Script} (hstart : s.start?.isSome = true) :
    validate s =
      { isValid := (missingLinks s).isEmpty
        errors := (missingLinks s).map fun link =>
          s!"Node '{link.1.id}' links to missing node '{link.2}'"
        warnings :=
          ((s.nodes.keys.filter fun id => !(reachable s).contains id).map
            fun id => s!"Node '{id}' is unreachable from start") ++
          ((sorted (reachable s)).filter (isTerminalKey s)).map stopWarning
        reachable := sorted (reachable s) } := by
  have hsome : ¬ s.start?.isNone = true := by
    rw [Bool.not_eq_true, Option.isNone_eq_false_iff]
    exact hstart
  unfold validate
  rw [if_neg hsome]
  simp only [List.isEmpty_map]
  rfl

theorem mem_sorted {keys : List String} {id : String} : id ∈ sorted keys ↔ id ∈ keys :=
  List.mem_mergeSort

theorem mem_validate_reachable {s : Script} (hstart : s.start?.isSome = true) {id : String} :
    id ∈ (validate s).reachable ↔ id ∈ reachable s := by
  rw [validate_of_start hstart]
  exact mem_sorted

theorem start_of_mem_reachable {s : Script} {id : String} (h : id ∈ (validate s).reachable) :
    s.start?.isSome = true := by
  cases hstart : s.start? with
  | some node => rfl
  | none =>
    simp [validate, hstart] at h

theorem eq_of_unreachable_text {a b : String}
    (h : s!"Node '{a}' is unreachable from start" = s!"Node '{b}' is unreachable from start") :
    a = b := by
  have hnamed := (String.append_left_inj "' is unreachable from start").mp h
  exact (String.append_right_inj "Node '").mp hnamed

theorem unreachable_text_ne_stop_text (a b : String) :
    s!"Node '{a}' is unreachable from start" ≠
      s!"Node '{b}' has no successor; play returns to the title without an explicit ending" := by
  intro h
  have hlast := congrArg (fun text : String => text.toList.getLast?) h
  have hunreachable : (toString "' is unreachable from start").toList.getLast? = some 't' := by
    decide
  have hstop : (toString "' has no successor; play returns to the title without an explicit ending"
      ).toList.getLast? = some 'g' := by decide
  simp only [String.toList_append, List.getLast?_append, hunreachable, hstop] at hlast
  cases hlast

/-- The report calls exactly those keys unreachable that the search does not find. -/
theorem unreachable_mem_warnings {s : Script} (hstart : s.start?.isSome = true) {id : String} :
    s!"Node '{id}' is unreachable from start" ∈ (validate s).warnings ↔
      id ∈ s.nodes.keys ∧ id ∉ reachable s := by
  rw [validate_of_start hstart]
  simp only [List.mem_append, List.mem_map, List.mem_filter]
  constructor
  · rintro (⟨k, ⟨hkey, hmissed⟩, htext⟩ | ⟨k, -, htext⟩)
    · have hsame : k = id := eq_of_unreachable_text htext
      subst hsame
      exact ⟨hkey, by simpa using hmissed⟩
    · exact absurd htext.symm (unreachable_text_ne_stop_text id k)
  · rintro ⟨hkey, hmissed⟩
    exact Or.inl ⟨id, ⟨hkey, by simpa using hmissed⟩, rfl⟩

end VisualNovel.Graph
