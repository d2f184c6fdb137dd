import VisualNovel.Proofs.Script.Findings
import VisualNovel.Proofs.Script.MadeUpNames

/-!
Choices that lead nowhere, as the compiler and the report on a script see them. The compiler looks
for targets that it made up itself and that no label defined; among the broken links of the report
are the same choices in the same order.
-/
namespace VisualNovel

namespace Graph

/-- All choices, in the order of nodes, each with its node. -/
def offers (s : Script) : List (Node × Choice) :=
  s.nodes.values.flatMap fun node => node.choices.map fun choice => (node, choice)

/-- Whether a target begins as those do that are made up for choices. -/
def looksMadeUp (target : String) : Bool :=
  Compile.choiceTargetStem.toList.isPrefixOf target.toList

/-- The choices whose targets look made up and are no keys. -/
def danglingOffers (s : Script) : List (Node × Choice) :=
  (offers s).filter fun offer => looksMadeUp offer.2.target && !s.contains offer.2.target

def Offered (link : Node × String) : Prop := link.1.choices ≠ []

instance : DecidablePred Offered := fun link => inferInstanceAs (Decidable (link.1.choices ≠ []))

theorem looksMadeUp_nodeStem (number : String) :
    looksMadeUp (Compile.nodeStem ++ number) = false := by
  unfold looksMadeUp
  rw [String.toList_append]
  rfl

theorem ne_endTarget_of_looksMadeUp {target : String} (h : looksMadeUp target = true) :
    target ≠ endTarget := by
  rintro rfl
  exact absurd h (by decide)

def linkOf (offer : Node × Choice) : Node × String := (offer.1, offer.2.target)

/-- A node leads to the targets of its choices, if it has any. -/
theorem filter_links (s : Script) :
    (links s).filter (fun link => decide (Offered link)) = (offers s).map linkOf := by
  unfold links offers
  rw [List.filter_flatMap, List.map_flatMap]
  refine List.flatMap_congr fun node _ => ?_
  rw [List.map_map]
  by_cases hnone : node.choices = []
  · rw [hnone, List.map_nil, List.filter_eq_nil_iff]
    intro link hlink
    obtain ⟨target, -, rfl⟩ := List.mem_map.mp hlink
    rw [decide_eq_true_iff]
    exact fun hoffered => hoffered hnone
  · have hall : node.successors = node.choices.map (·.target) := by
      unfold Node.successors
      rw [if_neg (by simpa using hnone)]
    rw [hall, List.map_map]
    refine List.filter_eq_self.mpr ?_
    intro link hlink
    obtain ⟨choice, -, rfl⟩ := List.mem_map.mp hlink
    exact decide_eq_true hnone

/-- The broken links of choices with targets that look made up. -/
theorem filter_missingLinks (s : Script) :
    (missingLinks s).filter (fun link => decide (Offered link) && looksMadeUp link.2) =
      (danglingOffers s).map linkOf := by
  have hbroken : ∀ offer, (decide (IsBroken s (linkOf offer)) && looksMadeUp offer.2.target) =
      (looksMadeUp offer.2.target && !s.contains offer.2.target) := by
    intro offer
    cases hlooks : looksMadeUp offer.2.target with
    | false => rw [Bool.and_false, Bool.false_and]
    | true => simp [IsBroken, linkOf, ne_endTarget_of_looksMadeUp hlooks]
  rw [missingLinks_eq_filter, List.filter_filter]
  calc (links s).filter (fun link =>
        decide (Offered link) && looksMadeUp link.2 && decide (IsBroken s link))
      = ((links s).filter fun link => decide (Offered link)).filter fun link =>
          decide (IsBroken s link) && looksMadeUp link.2 := by
        rw [List.filter_filter]
        refine List.filter_congr fun link _ => ?_
        rw [Bool.and_assoc, Bool.and_comm (looksMadeUp link.2), Bool.and_comm]
    _ = (danglingOffers s).map linkOf := by
        rw [filter_links, List.filter_map]
        exact congrArg (List.map linkOf) (List.filter_congr fun offer _ => hbroken offer)

end Graph

namespace Compile

def danglingCode : String := "dangling-choice-target"

def danglingReport (offer : Node × Choice) : Diagnostic where
  severity := .warning
  code := danglingCode
  message := s!"Choice '{offer.2.text}' in node '{offer.1.id}' has no target label; " ++
    s!"add '# {offer.2.target}'"

theorem danglingChoices_eq (s : Script) :
    danglingChoices s.nodes = (Graph.danglingOffers s).map danglingReport := by
  unfold danglingChoices Graph.danglingOffers Graph.offers
  rw [List.filter_flatMap, List.map_flatMap]
  refine List.flatMap_congr fun node _ => ?_
  rw [List.filter_map, List.map_map]
  rfl

/-- Reports about lines are not about choices that lead nowhere. -/
theorem filter_found (c : Compiler) (text : String) :
    (c.run text).found.filter (·.code == danglingCode) = [] := by
  rw [found_run, List.filter_eq_nil_iff]
  intro d hd hcode
  obtain ⟨here, -, p, n, hnotice, rfl⟩ := mem_notices c.catalog hd
  have hmem := code_mem_of_notice? hnotice
  rw [show n.code = danglingCode from eq_of_beq hcode] at hmem
  exact absurd hmem (by decide)

theorem filter_dangling (c : Compiler) (text : String) :
    (c.compile text).diagnostics.filter (·.code == danglingCode) =
      (Graph.danglingOffers (c.compile text).script).map danglingReport := by
  have hall : (c.compile text).diagnostics = (c.run text).found ++
      (Graph.danglingOffers (c.compile text).script).map danglingReport :=
    congrArg ((c.run text).found ++ ·) (danglingChoices_eq (c.compile text).script)
  rw [hall, List.filter_append, filter_found, List.nil_append, List.filter_eq_self]
  intro d hd
  obtain ⟨offer, -, rfl⟩ := List.mem_map.mp hd
  exact beq_self_eq_true _

end Compile

namespace Compiler

variable {c : Compiler} {text target : String}

/-- Every dialogue line that a writer has given a name can be found under it. -/
theorem contains_of_name? {place : Place} (hlines : place.lines = Compile.linesOf text)
    (hname : place.name? c.startId = some target) :
    (c.compile text).script.contains target = true := by
  have hnamed := (Compile.reflects_run c text).named place hlines
  rw [Place.id_of_name? hname] at hnamed
  exact hnamed

/-- A target that looks made up for a choice is not made up for a dialogue line. -/
theorem contains_iff_of_looksMadeUp (h : Graph.looksMadeUp target = true) :
    (c.compile text).script.contains target = true ↔
      ∃ place : Place, place.lines = Compile.linesOf text ∧
        place.name? c.startId = some target := by
  constructor
  · intro hcontains
    obtain ⟨node, hnode⟩ := Option.isSome_iff_exists.mp hcontains
    obtain ⟨place, hlines, hid, -⟩ := Compile.exists_place c text hnode
    refine ⟨place, hlines, ?_⟩
    cases hname : place.name? c.startId with
    | some name => rw [← hid, Place.id_of_name? hname]
    | none =>
      rw [Place.id_of_unnamed hname] at hid
      rw [← hid, Graph.looksMadeUp_nodeStem] at h
      cases h
  · rintro ⟨place, hlines, hname⟩
    exact contains_of_name? hlines hname

/-- The compiler and the report on the script name the same choices that lead nowhere, one by one
and in the same order. They are the choices whose targets look made up and that no dialogue line
is called after, wherever it stands. -/
theorem dangling_choices_are_missing_links (c : Compiler) (text : String)
    (hstart : (c.compile text).script.start?.isSome = true) :
    (c.compile text).diagnostics.filter (·.code == Compile.danglingCode) =
        (Graph.danglingOffers (c.compile text).script).map Compile.danglingReport ∧
      (Graph.missingLinks (c.compile text).script).filter
          (fun link => decide (Graph.Offered link) && Graph.looksMadeUp link.2) =
        (Graph.danglingOffers (c.compile text).script).map Graph.linkOf ∧
      (Graph.validate (c.compile text).script).errors =
        (Graph.missingLinks (c.compile text).script).map
          (fun link => s!"Node '{link.1.id}' links to missing node '{link.2}'") ∧
      (∀ offer, offer ∈ Graph.danglingOffers (c.compile text).script ↔
        offer ∈ Graph.offers (c.compile text).script ∧ Graph.looksMadeUp offer.2.target = true ∧
          ∀ place : Place, place.lines = Compile.linesOf text →
            place.name? c.startId ≠ some offer.2.target) ∧
      ∀ place : Place, place.lines = Compile.linesOf text →
        ∀ link ∈ Graph.missingLinks (c.compile text).script,
          place.name? c.startId ≠ some link.2 := by
  refine ⟨Compile.filter_dangling c text, Graph.filter_missingLinks _, ?errors, ?unnamed, ?named⟩
  case errors => rw [Graph.validate_of_start hstart]
  case unnamed =>
    intro offer
    unfold Graph.danglingOffers
    rw [List.mem_filter, Bool.and_eq_true, Bool.not_eq_true']
    refine and_congr_right fun _ => and_congr_right fun hlooks => ?_
    rw [← Bool.not_eq_true, contains_iff_of_looksMadeUp hlooks]
    simp only [not_exists, not_and, ne_eq]
  case named =>
    intro place hlines link hlink hname
    rw [Graph.missingLinks_eq_filter] at hlink
    have hbroken := of_decide_eq_true (List.mem_filter.mp hlink).2
    exact absurd (contains_of_name? hlines hname) (by rw [hbroken.2]; exact Bool.false_ne_true)

/-- Two choices without targets. A label comes up for each, but only the second one is followed by a
dialogue line. -/
def dangledText : String := "Hi\nA. Stay\nB. Go\n# auto_choice_1\nYo\n# auto_choice_0"

/-- The second line leads to the last label, and that is a broken link, but not one of a choice. -/
theorem dangling_choices_are_missing_links_in_a_story :
    (({} : Compiler).compile dangledText).script.start?.isSome = true ∧
      ((({} : Compiler).compile dangledText).diagnostics.filter
        (·.code == Compile.danglingCode)).map (·.message) =
          ["Choice 'A. Stay' in node 'start' has no target label; add '# auto_choice_0'"] ∧
      (((Graph.missingLinks (({} : Compiler).compile dangledText).script).filter fun link =>
        decide (Graph.Offered link) && Graph.looksMadeUp link.2).map fun link =>
          (link.1.id, link.2)) = [("start", "auto_choice_0")] ∧
      (Graph.validate (({} : Compiler).compile dangledText).script).errors =
        ["Node 'start' links to missing node 'auto_choice_0'",
          "Node 'auto_choice_1' links to missing node 'auto_choice_0'"] := by
  have hstart : (({} : Compiler).compile dangledText).script.start?.isSome = true := by
    decide
  obtain ⟨hreports, hlinks, herrors, -, -⟩ :=
    dangling_choices_are_missing_links {} dangledText hstart
  refine ⟨hstart, ?_, ?_, ?_⟩
  · rw [hreports]
    decide
  · rw [hlinks]
    decide
  · rw [herrors]
    decide

end Compiler

end VisualNovel
