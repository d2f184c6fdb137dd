import Mathlib.Data.List.Sort
import Mathlib.Data.String.Basic
import Mathlib.Order.Bounds.Basic
import VisualNovel.Proofs.Script.Validity

/-!
The report on a script, told by its links alone. What a report says of a script that has a start is
settled by the least set of keys that contains the start and is closed under links, by the links
that lead nowhere, and by the nodes after which nothing comes; `Report.Describes` puts this
together, and there is just one report that fits.
-/
namespace VisualNovel.Graph

/-- All links, in the order of nodes and then of targets, each with the node that it starts from. -/
def links (s : Script) : List (Node × String) :=
  s.nodes.values.flatMap fun node => node.successors.map fun t => (node, t)

/-- A link whose target is neither the end nor a key. -/
def IsBroken (s : Script) (link : Node × String) : Prop :=
  link.2 ≠ endTarget ∧ s.contains link.2 = false

instance (s : Script) : DecidablePred (IsBroken s) := fun link =>
  inferInstanceAs (Decidable (link.2 ≠ endTarget ∧ s.contains link.2 = false))

theorem missingLinks_eq_filter (s : Script) :
    missingLinks s = (links s).filter fun link => decide (IsBroken s link) := by
  unfold missingLinks links
  rw [List.filter_flatMap]
  refine List.flatMap_congr fun node _ => ?_
  rw [List.filter_map]
  congr 1
  refine List.filter_congr fun t _ => ?_
  rw [Bool.eq_iff_iff, Function.comp_apply, decide_eq_true_iff]
  simp [IsBroken]

/-- The start is in the set, and so is every key that a link leads to from a key in the set. -/
structure ClosedUnderLinks (s : Script) (found : Set String) : Prop where
  start : s.startId ∈ found
  links : ∀ id node, id ∈ found → s.get? id = some node → ∀ t ∈ node.successors,
    s.contains t = true → t ∈ found

/-- What links lead to from the start is found in every set that is closed under links, and makes up
such a set. -/
theorem isLeast_reached (s : Script) :
    IsLeast {found | ClosedUnderLinks s found} {id | Reached s (fun _ => True) id} := by
  refine ⟨⟨.start, ?_⟩, ?_⟩
  · intro id node hid hnode t ht hkey
    obtain ⟨target, htarget⟩ := Option.isSome_iff_exists.mp hkey
    exact .link hid hnode ht trivial htarget
  · intro found hfound id hid
    induction hid with
    | start => exact hfound.start
    | link hid hnode ht hopen htarget ih =>
      refine hfound.links _ _ ih hnode _ ht ?_
      exact Option.isSome_iff_exists.mpr ⟨_, htarget⟩

theorem mem_of_mem_explore (s : Script) (unvisited waiting : List String) :
    ∀ id ∈ explore s unvisited waiting, id ∈ unvisited ∨ id ∈ waiting := by
  induction unvisited, waiting using explore.induct s with
  | case1 unvisited =>
    intro id hid
    rw [explore] at hid
    cases hid
  | case2 unvisited first rest ih =>
    intro id hid
    rw [explore] at hid
    rcases List.mem_cons.mp hid with rfl | hid
    · exact Or.inr List.mem_cons_self
    · rcases ih id hid with hstill | hwaits
      · exact Or.inl (mem_notAmong.mp hstill).1
      · rcases List.mem_append.mp hwaits with hrest | hnew
        · exact Or.inr (List.mem_cons_of_mem first hrest)
        · exact Or.inl (mem_among.mp hnew).1

/-- No key is visited twice, because a key that waits is no longer unvisited. -/
theorem nodup_explore (s : Script) (unvisited waiting : List String)
    (hunvisited : unvisited.Nodup) (hwaiting : waiting.Nodup)
    (hdisjoint : unvisited.Disjoint waiting) : (explore s unvisited waiting).Nodup := by
  induction unvisited, waiting using explore.induct s with
  | case1 unvisited =>
    rw [explore]
    exact .nil
  | case2 unvisited first rest ih =>
    obtain ⟨hfirst, hrest⟩ := List.nodup_cons.mp hwaiting
    obtain ⟨hnotFirst, hapart⟩ := List.disjoint_cons_right.mp hdisjoint
    have hnew : (among (targets s first) unvisited).Nodup := hunvisited.filter _
    have hwaits : (rest ++ among (targets s first) unvisited).Nodup := by
      refine hrest.append hnew fun id hold hid => ?_
      exact hapart (mem_among.mp hid).1 hold
    have hstill : (notAmong (targets s first) unvisited).Disjoint
        (rest ++ among (targets s first) unvisited) := by
      intro id hid hmem
      obtain ⟨hkey, hmissed⟩ := mem_notAmong.mp hid
      rcases List.mem_append.mp hmem with hold | hfound
      · exact hapart hkey hold
      · exact hmissed (mem_among.mp hfound).2
    rw [explore, List.nodup_cons]
    refine ⟨fun hagain => ?_, ih (hunvisited.filter _) hwaits hstill⟩
    rcases mem_of_mem_explore s _ _ first hagain with hagain | hagain
    · exact hnotFirst (mem_notAmong.mp hagain).1
    · rcases List.mem_append.mp hagain with hagain | hagain
      · exact hfirst hagain
      · exact hnotFirst (mem_among.mp hagain).1

theorem nodup_reachable (s : Script) : (reachable s).Nodup := by
  refine nodup_explore s _ _ (s.nodes.nodup_keys.filter _) (List.nodup_singleton _) ?_
  intro id hid hstart
  rw [List.mem_singleton.mp hstart] at hid
  simp at hid

theorem sortedLT_sorted {xs : List String} (h : xs.Nodup) : (sorted xs).SortedLT := by
  rw [List.sortedLT_iff_nodup_and_sortedLE]
  refine ⟨(List.mergeSort_perm xs _).nodup_iff.mpr h, ?_⟩
  exact (List.pairwise_mergeSort' (· ≤ ·) xs).sortedLE

/-- What a report has to say of the links of a script that has a start. -/
structure Report.Describes (r : Report) (s : Script) : Prop where
  /-- The reported keys are the least set that is closed under links, in order. -/
  reachable_isLeast : IsLeast {found | ClosedUnderLinks s found} {id | id ∈ r.reachable}
  reachable_sortedLT : r.reachable.SortedLT
  /-- Each of them is the key of a node. -/
  reachable_contains : ∀ id ∈ r.reachable, s.contains id = true
  /-- There is one error for each broken link, in the order of the links. -/
  errors_eq : r.errors = ((links s).filter fun link => decide (IsBroken s link)).map
    fun link => s!"Node '{link.1.id}' links to missing node '{link.2}'"
  isValid_iff : r.isValid = true ↔ ∀ link ∈ links s, ¬ IsBroken s link
  /-- The warnings name the keys that are not reported, in the order of the script, and then those
  reported keys whose nodes nothing comes after, in their own order. -/
  warnings_eq : r.warnings =
    ((s.nodes.keys.filter fun id => id ∉ r.reachable).map
      fun id => s!"Node '{id}' is unreachable from start") ++
    (r.reachable.filter fun id =>
      decide (∃ node ∈ s.get? id, node.choices = [] ∧ node.next = none)).map stopWarning

/-- There is only one report that describes a script. -/
theorem Report.Describes.unique {r r' : Report} {s : Script} (h : r.Describes s)
    (h' : r'.Describes s) : r = r' := by
  have hreachable : r.reachable = r'.reachable := by
    refine h.reachable_sortedLT.eq_of_mem_iff h'.reachable_sortedLT fun id => ?_
    exact Set.ext_iff.mp (h.reachable_isLeast.unique h'.reachable_isLeast) id
  have hvalid : r.isValid = r'.isValid :=
    Bool.eq_iff_iff.mpr (h.isValid_iff.trans h'.isValid_iff.symm)
  have herrors : r.errors = r'.errors := h.errors_eq.trans h'.errors_eq.symm
  have hwarnings : r.warnings = r'.warnings := by rw [h.warnings_eq, h'.warnings_eq, hreachable]
  obtain ⟨isValid, errors, warnings, reachable⟩ := r
  obtain ⟨isValid', errors', warnings', reachable'⟩ := r'
  simp only at hreachable hvalid herrors hwarnings
  rw [hreachable, hvalid, herrors, hwarnings]

theorem isTerminalKey_eq_decide (s : Script) (id : String) :
    isTerminalKey s id =
      decide (∃ node ∈ s.get? id, node.choices = [] ∧ node.next = none) := by
  unfold isTerminalKey
  cases s.get? id with
  | none => simp
  | some node =>
    rw [Bool.eq_iff_iff, decide_eq_true_iff]
    simp [Node.isTerminal]

theorem validate_describes {s : Script} (hstart : s.start?.isSome = true) :
    (validate s).Describes s := by
  rw [validate_of_start hstart]
  refine ⟨?_, sortedLT_sorted (nodup_reachable s), ?_, ?_, ?_, ?_⟩
  · have hset : {id | id ∈ sorted (reachable s)} = {id | Reached s (fun _ => True) id} :=
      Set.ext fun id => mem_sorted.trans mem_reachable_iff
    rw [hset]
    exact isLeast_reached s
  · intro id hid
    exact (mem_reachable_iff.mp (mem_sorted.mp hid)).isSome_get? hstart
  · rw [missingLinks_eq_filter]
  · rw [missingLinks_eq_filter, List.isEmpty_iff, List.filter_eq_nil_iff]
    simp only [decide_eq_true_eq]
  · dsimp only
    congr 2
    · refine List.filter_congr fun id _ => ?_
      simp [mem_sorted]
    · exact List.filter_congr fun id _ => isTerminalKey_eq_decide s id

/-- The report on a script that has a start is the one that describes its links, whatever cycles
there are and wherever links lead. A script without a start is invalid, and nothing in it is
reported as reachable. -/
theorem reports_describe_the_links (s : Script) :
    (s.start?.isSome = true → ∀ r : Report, validate s = r ↔ r.Describes s) ∧
      (s.start? = none → (validate s).isValid = false ∧ (validate s).reachable = []) := by
  refine ⟨fun hstart r => ⟨?_, ?_⟩, fun hnone => ?_⟩
  · rintro rfl
    exact validate_describes hstart
  · exact (validate_describes hstart).unique
  · simp [validate, hnone]

/-- A house to walk about in: one can stay at the door, go up and down the stairs, and get into a
cellar without a way out. Two ways lead nowhere, one of them from an attic without a way in. -/
def houseScript : Script where
  nodes := .ofList
    [("start", { id := "start", choices := [⟨"Stay", "start", .normal⟩, ⟨"Go in", "hall", .normal⟩,
        ⟨"Run", "woods", .danger⟩, ⟨"Dig", "cellar", .normal⟩] }),
      ("hall", { id := "hall", next := some "stairs" }),
      ("stairs", { id := "stairs", next := some "hall" }),
      ("cellar", { id := "cellar" }),
      ("attic", { id := "attic", next := some "roof" })]

theorem reports_describe_the_links_of_a_house :
    houseScript.start?.isSome = true ∧ (validate houseScript).Describes houseScript ∧
      (validate houseScript).errors = ["Node 'start' links to missing node 'woods'",
        "Node 'attic' links to missing node 'roof'"] ∧
      (validate houseScript).warnings = ["Node 'attic' is unreachable from start",
        "Node 'cellar' has no successor; play returns to the title without an explicit ending"] ∧
      (validate houseScript).reachable = ["cellar", "hall", "stairs", "start"] := by
  have hstart : houseScript.start?.isSome = true := by decide +kernel
  have hdescribes := ((reports_describe_the_links houseScript).1 hstart _).mp rfl
  have hfound : reachable houseScript = ["start", "hall", "cellar", "stairs"] := by cbv
  have hreachable : (validate houseScript).reachable = ["cellar", "hall", "stairs", "start"] := by
    refine hdescribes.reachable_sortedLT.eq_of_mem_iff (by decide +kernel) fun id => ?_
    rw [mem_validate_reachable hstart, hfound]
    simp only [List.mem_cons, List.not_mem_nil, or_false]
    tauto
  refine ⟨hstart, hdescribes, ?_, ?_, hreachable⟩
  · rw [hdescribes.errors_eq]
    decide +kernel
  · rw [hdescribes.warnings_eq, hreachable]
    decide +kernel

end VisualNovel.Graph
