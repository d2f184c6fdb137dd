import VisualNovel.Proofs.Script.Snapshots

/-!
Every dialogue line of a text is kept as a node or reported as a repetition. An identifier that
comes up again is reported at the line that takes it over. The nodes stand in the order in which
their identifiers first came up, and each tells the last line of its identifier.
-/
namespace VisualNovel

/-- What is left when a line is neither a label, a command nor a choice. -/
theorem Line.isDialogue_read (s : String) :
    (Line.read s).isDialogue =
      ((Line.label? s).isNone && (Line.command? s).isNone && (Line.choice? s).isNone) := by
  unfold Line.read
  cases Line.label? s with
  | some name => rfl
  | none =>
    cases Line.command? s with
    | some command => rfl
    | none => cases Line.choice? s <;> rfl

namespace Place

section Naming
variable (startId : String)

def idsIn (lines : List Line) : List String :=
  (withEarlier lines).filterMap fun (earlier, line) =>
    if line.isDialogue then some (idAfter startId earlier) else none

theorem idsIn_concat (lines : List Line) (line : Line) :
    idsIn startId (lines ++ [line]) =
      idsIn startId lines ++ if line.isDialogue then [idAfter startId lines] else [] := by
  unfold idsIn
  rw [withEarlier_concat, List.filterMap_append]
  cases hline : line.isDialogue <;> simp [hline]

end Naming

end Place

namespace Compile

theorem keys_applyLine (catalog : Asset.Catalog) (p : Progress) {here : Located}
    (hline : here.line.isDialogue = false) :
    (applyLine catalog p here).drafts.keys = p.drafts.keys := by
  unfold Located.line at hline
  unfold applyLine
  cases hread : Line.read here.text with
  | label name =>
    dsimp only
    unfold applyLabel
    split
    · rfl
    · exact keys_updatePrevious p _
  | command command =>
    dsimp only
    rw [drafts_applyCommand]
    split
    · exact keys_updatePrevious p _
    · rfl
  | choice choice =>
    dsimp only
    unfold applyChoice
    split
    · rfl
    · cases choice.target <;> exact keys_updatePrevious p _
  | dialogue dialogue =>
    rw [hread] at hline
    cases hline

section Naming
variable (startId : String)

def repetition (here : Located) (id : String) : Diagnostic :=
  warning here duplicateCode s!"Node '{id}' redefined; the later definition wins"

/-- The report that a line calls for: it is dialogue, and its identifier has come up before. -/
def repetition? (earlier : List Located) (here : Located) : Option Diagnostic :=
  let before := earlier.map Located.line
  if here.line.isDialogue ∧ Place.idAfter startId before ∈ Place.idsIn startId before then
    some (repetition here (Place.idAfter startId before))
  else none

/-- The reports of all lines whose identifier has come up before. -/
def repetitions (lines : List Located) : List Diagnostic :=
  (Place.withEarlier lines).filterMap fun (earlier, here) => repetition? startId earlier here

theorem repetitions_concat (lines : List Located) (here : Located) :
    repetitions startId (lines ++ [here]) =
      repetitions startId lines ++ (repetition? startId lines here).toList := by
  unfold repetitions
  rw [Place.withEarlier_concat, List.filterMap_append]
  cases hreport : repetition? startId lines here <;> simp [hreport]

/-- Every dialogue line brings up a new identifier, or is a repetition. -/
theorem length_repetitions (lines : List Located) :
    (Place.idsIn startId (lines.map Located.line)).eraseDups.length +
        (repetitions startId lines).length =
      lines.countP fun here => here.line.isDialogue := by
  induction lines using List.reverseRecOn with
  | nil => rfl
  | append_singleton lines here ih =>
    rw [List.map_append, List.map_singleton, Place.idsIn_concat, repetitions_concat,
      List.length_append, List.countP_append, ← ih, List.countP_singleton]
    unfold repetition?
    cases hline : here.line.isDialogue with
    | false => simp
    | true =>
      rw [if_pos rfl, eraseDups_concat]
      split
      · next hmem =>
        simp [hmem]
        omega
      · next hmem =>
        simp [hmem]
        omega

/-- The nodes are those of the identifiers so far, and all repetitions were reported. -/
structure Progress.Accounts (lines : List Located) (p : Progress) : Prop where
  keys : p.drafts.keys = (Place.idsIn startId (lines.map Located.line)).eraseDups
  found : p.found.filter (·.code == duplicateCode) = repetitions startId lines

end Naming

theorem keys_applyDialogue (p : Progress) (here : Located) (dialogue : Line.Dialogue) :
    (applyDialogue p here dialogue).drafts.keys =
      if (takeId p.carry).1 ∈ p.drafts.keys then p.drafts.keys
      else p.drafts.keys ++ [(takeId p.carry).1] := by
  rw [drafts_applyDialogue, KeyedList.keys_insert, keys_updatePrevious]

namespace Progress.Accounts

variable {startId : String} {lines : List Located} {here : Located} {p : Progress}

theorem remark (h : p.Accounts startId lines) (catalog : Asset.Catalog)
    (hline : here.line.isDialogue = false) :
    (Compile.applyLine catalog p here).Accounts startId (lines ++ [here]) where
  keys := by
    rw [keys_applyLine catalog p hline, h.keys, List.map_append, List.map_singleton,
      Place.idsIn_concat, hline]
    simp
  found := by
    have hnone : ((notice? catalog p here.line).map (·.about here)).toList.filter
        (·.code == duplicateCode) = [] := by
      rw [List.filter_eq_nil_iff]
      intro d hd hcode
      obtain ⟨n, hnotice, rfl⟩ := Option.map_eq_some_iff.mp (Option.mem_toList.mp hd)
      have hquiet := code_mem_quietCodes hnotice hline
      rw [show n.code = duplicateCode from eq_of_beq hcode] at hquiet
      exact absurd hquiet (by decide)
    have hreport : repetition? startId lines here = none := by
      unfold repetition?
      dsimp only
      rw [if_neg (by simp [hline])]
    rw [(notes_applyLine catalog p here).found, List.filter_append, hnone, List.append_nil,
      h.found, repetitions_concat, hreport, Option.toList_none, List.append_nil]

theorem mem_keys_iff (h : p.Accounts startId lines) (id : String) :
    id ∈ p.drafts.keys ↔ id ∈ Place.idsIn startId (lines.map Located.line) := by
  rw [h.keys, List.mem_eraseDups]

theorem applyDialogue (h : p.Accounts startId lines)
    (hreflects : p.Reflects startId (lines.map Located.line)) {dialogue : Line.Dialogue}
    (hline : here.line = .dialogue dialogue) :
    (Compile.applyDialogue p here dialogue).Accounts startId (lines ++ [here]) := by
  have hkeys := keys_applyDialogue p here dialogue
  have hfound := (notes_applyDialogue p here dialogue).found
  have hspoken : here.line.isDialogue = true := by rw [hline]; rfl
  rw [hreflects.takeId_eq] at hkeys hfound
  simp only [h.mem_keys_iff] at hkeys hfound
  refine ⟨?_, ?_⟩
  · rw [hkeys, List.map_append, List.map_singleton, Place.idsIn_concat, if_pos hspoken,
      eraseDups_concat, h.keys]
  · rw [hfound, List.filter_append, h.found, repetitions_concat]
    congr 1
    unfold repetition?
    dsimp only
    by_cases hmem : Place.idAfter startId (lines.map Located.line) ∈
        Place.idsIn startId (lines.map Located.line)
    · rw [if_pos hmem, if_pos ⟨hspoken, hmem⟩]
      rfl
    · rw [if_neg hmem, if_neg fun hboth => hmem hboth.2]
      rfl

theorem applyLine (h : p.Accounts startId lines)
    (hreflects : p.Reflects startId (lines.map Located.line)) (catalog : Asset.Catalog)
    (here : Located) : (Compile.applyLine catalog p here).Accounts startId (lines ++ [here]) := by
  cases hread : here.line with
  | dialogue dialogue =>
    have hdialogue := h.applyDialogue hreflects hread
    unfold Located.line at hread
    unfold Compile.applyLine
    rw [hread]
    exact hdialogue
  | _ => exact h.remark catalog (congrArg Line.isDialogue hread)

theorem foldl (h : p.Accounts startId lines)
    (hreflects : p.Reflects startId (lines.map Located.line)) (catalog : Asset.Catalog)
    (more : List Located) :
    (more.foldl (Compile.applyLine catalog) p).Accounts startId (lines ++ more) := by
  induction more generalizing lines p with
  | nil => simpa using h
  | cons here rest ih =>
    have hmore := hreflects.applyLine catalog here
    rw [← List.map_singleton, ← List.map_append] at hmore
    simpa using ih (h.applyLine hreflects catalog here) hmore

end Progress.Accounts

theorem accounts_initial (c : Compiler) : (initial c).Accounts c.startId [] := ⟨rfl, rfl⟩

theorem accounts_run (c : Compiler) (text : String) :
    (c.run text).Accounts c.startId (locatedLines text) :=
  (accounts_initial c).foldl (reflects_initial c) c.catalog (locatedLines text)

theorem code_of_mem_danglingChoices {nodes : KeyedList String Node} {d : Diagnostic}
    (h : d ∈ danglingChoices nodes) : d.code = "dangling-choice-target" ∧ d.lineNumber = none := by
  unfold danglingChoices at h
  obtain ⟨node, -, hd⟩ := List.mem_flatMap.mp h
  obtain ⟨choice, -, rfl⟩ := List.mem_map.mp hd
  exact ⟨rfl, rfl⟩

/-- Exactly the repetitions are reported as such. -/
theorem filter_diagnostics (c : Compiler) (text : String) :
    (c.compile text).diagnostics.filter (·.code == duplicateCode) =
      repetitions c.startId (locatedLines text) := by
  have hdangling : (danglingChoices (c.run text).drafts).filter (·.code == duplicateCode) = [] := by
    rw [List.filter_eq_nil_iff]
    intro d hd
    rw [(code_of_mem_danglingChoices hd).1]
    decide
  have hsplit := List.filter_append (p := (·.code == duplicateCode)) (c.run text).found
    (danglingChoices (c.run text).drafts)
  rw [hdangling, List.append_nil, (accounts_run c text).found] at hsplit
  exact hsplit

end Compile

/-- Nodes and reports of repetitions together are as many as the dialogue lines. The nodes stand in
the order in which their identifiers first came up, and each shows the last dialogue line of its
identifier. -/
theorem Compiler.dialogue_lines_are_kept_or_reported (c : Compiler) (text : String) :
    (c.compile text).script.KeysAreIds ∧ "" ∉ (c.compile text).script.nodes.keys ∧
      (c.compile text).script.nodes.size +
          (c.compile text).diagnostics.countP (·.code == Compile.duplicateCode) =
        (Compile.locatedLines text).countP (fun here =>
          (Line.label? here.text).isNone && (Line.command? here.text).isNone &&
            (Line.choice? here.text).isNone) ∧
      (c.compile text).script.nodes.keys =
        (Place.idsIn c.startId (Compile.linesOf text)).eraseDups ∧
      (c.compile text).diagnostics.filter (·.code == Compile.duplicateCode) =
        Compile.repetitions c.startId (Compile.locatedLines text) ∧
      ∀ id node, (c.compile text).script.get? id = some node →
        ∃ place : Place, place.lines = Compile.linesOf text ∧ place.id c.startId = id ∧
          place.IsLast c.startId ∧ node.dialogue = place.dialogue ∧
          node.scene = place.scene c.catalog c.defaultBackground := by
  have haccounts := Compile.accounts_run c text
  have hkeys : (c.compile text).script.nodes.keys =
      (Place.idsIn c.startId (Compile.linesOf text)).eraseDups := haccounts.keys
  have hfound := Compile.filter_diagnostics c text
  refine ⟨c.keysAreIds_compile text, ?nonempty, ?count, hkeys, hfound, ?told⟩
  case nonempty =>
    rw [← KeyedList.isSome_get?_iff]
    have hnone : (c.compile text).script.nodes.get? "" = none := c.get?_empty text
    simp [hnone]
  case count =>
    have hcount := Compile.length_repetitions c.startId (Compile.locatedLines text)
    rw [List.countP_eq_length_filter, hfound, ← KeyedList.length_keys, hkeys]
    refine hcount.trans ?_
    refine List.countP_congr ?_
    intro here _
    unfold Compile.Located.line
    rw [Line.isDialogue_read]
  case told =>
    intro id node hnode
    obtain ⟨place, hlines, hid, hlast, hdescribes, hscene⟩ := Compile.exists_place c text hnode
    exact ⟨place, hlines, hid, hlast, hdescribes.dialogue_eq, hscene⟩

end VisualNovel
