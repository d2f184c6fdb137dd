import VisualNovel.Proofs.Script.Notices

/-!
The order of play of a text without choices and returns to the title. As long as no identifier comes
up twice, every dialogue line has a node of its own, and its successor is the first label before the
next dialogue line. That line is called after the last of these labels. Play follows the text where
the two are the same.
-/
namespace VisualNovel

def Line.dialogue? : Line → Option Line.Dialogue
  | .dialogue said => some said
  | _ => none

def Node.dialogue (node : Node) : Line.Dialogue := ⟨node.speaker, node.text⟩

/-- At most so many nodes, each the successor of the one before. -/
def Script.trail (s : Script) : Nat → Option String → List Node
  | 0, _ => []
  | n + 1, id =>
      match id.bind s.get? with
      | some node => node :: s.trail n node.next
      | none => []

namespace Place

def dialogues (lines : List Line) : List Line.Dialogue := lines.filterMap Line.dialogue?

theorem dialogues_eq_nil {lines : List Line} (h : ∀ line ∈ lines, line.isDialogue = false) :
    dialogues lines = [] := by
  refine List.filterMap_eq_nil_iff.mpr ?_
  intro line hline
  have hquiet := h line hline
  cases line with
  | dialogue _ => cases hquiet
  | _ => rfl

theorem dialogues_append (lines : List Line) (next : Line.Dialogue) (rest : List Line)
    (h : ∀ line ∈ lines, line.isDialogue = false) :
    dialogues (lines ++ .dialogue next :: rest) = next :: dialogues rest := by
  have hnone := dialogues_eq_nil h
  unfold dialogues at hnone ⊢
  rw [List.filterMap_append, hnone, List.nil_append]
  rfl

/-- The first label before the next dialogue line is also the last one, or there is none. -/
def NamesNextOnce (p : Place) : Prop := (labels p.between).head? = (labels p.between).getLast?

theorem Splits.exists_of_next? {p q : Place} (h : p.next? = some q) :
    ∃ between rest, p.Splits between q.dialogue rest ∧
      q = ⟨p.before ++ .dialogue p.dialogue :: between, q.dialogue, rest⟩ := by
  rcases p.latest_or_splits with hlatest | ⟨between, next, rest, hsplits⟩
  · rw [hlatest.next?] at h
    cases h
  · rw [hsplits.next?_eq] at h
    cases h
    exact ⟨between, rest, hsplits, rfl⟩

theorem lines_of_next? {p q : Place} (h : p.next? = some q) : q.lines = p.lines := by
  obtain ⟨between, rest, hsplits, hq⟩ := Splits.exists_of_next? h
  rw [hq, Place.lines, Place.lines, hsplits.after]
  simp

theorem dialogues_after {p q : Place} (h : p.next? = some q) :
    dialogues p.after = q.dialogue :: dialogues q.after := by
  obtain ⟨between, rest, hsplits, hq⟩ := Splits.exists_of_next? h
  rw [hsplits.after, dialogues_append between q.dialogue rest hsplits.quiet]
  rw [hq]

theorem sinceDialogue_eq (before : List Line) (dialogue : Line.Dialogue) {lines : List Line}
    (h : ∀ line ∈ lines, line.isDialogue = false) :
    sinceDialogue (before ++ .dialogue dialogue :: lines) = lines := by
  induction lines using List.reverseRecOn with
  | nil =>
    rw [sinceDialogue_concat]
    rfl
  | append_singleton lines line ih =>
    have hline : line.isDialogue = false := h line (by simp)
    rw [← List.cons_append, ← List.append_assoc, sinceDialogue_concat, hline,
      ih fun other hother => h other (List.mem_append_left _ hother)]
    rfl

section Naming
variable {startId : String}

/-- A dialogue line is called after the last label since the previous one. -/
theorem id_of_next? (startId : String) {p q : Place} (h : p.next? = some q) :
    ∃ madeUp, q.id startId = (labels p.between).getLast?.getD madeUp := by
  obtain ⟨between, rest, hsplits, hq⟩ := Splits.exists_of_next? h
  refine ⟨Compile.nodeStem ++ toString (counter startId q.before), ?_⟩
  have hbefore : q.before = p.before ++ .dialogue p.dialogue :: between := by rw [hq]
  have hany : q.before.any Line.isDialogue = true := by
    rw [hbefore, List.any_append, List.any_cons]
    simp [Line.isDialogue]
  have hsince : sinceDialogue q.before = between := by
    rw [hbefore]
    exact sinceDialogue_eq p.before p.dialogue hsplits.quiet
  unfold Place.id idAfter pendingLabel
  rw [hany, hsince, hsplits.between_eq, if_pos rfl, Option.or_none]

theorem successor_of_plain {p : Place} (hchoice : p.lines.any Line.isChoice = false)
    (hreturn : p.lines.any Line.isReturn = false) :
    p.successor startId = (labels p.between).head?.or (p.next?.map (id startId)) := by
  have hmem : ∀ line ∈ p.between, line ∈ p.lines := by
    intro line hline
    have hafter : line ∈ p.after := (List.takeWhile_prefix _).subset hline
    exact List.mem_append_right _ (List.mem_cons_of_mem _ hafter)
  rw [List.any_eq_false] at hchoice hreturn
  have hnoChoice : p.between.any Line.isChoice = false :=
    List.any_eq_false.mpr fun line hline => hchoice line (hmem line hline)
  have hnoReturn : p.between.any Line.isReturn = false :=
    List.any_eq_false.mpr fun line hline => hreturn line (hmem line hline)
  have hwhole : p.between.takeWhile (!·.isChoice) = p.between := by
    rw [List.takeWhile_eq_self_iff]
    intro line hline
    simpa using hchoice line (hmem line hline)
  unfold Place.successor firstLabel
  rw [hnoReturn, hnoChoice, hwhole, if_neg Bool.false_ne_true, if_neg Bool.false_ne_true]

theorem successor_eq_next_iff {p q : Place} (hchoice : p.lines.any Line.isChoice = false)
    (hreturn : p.lines.any Line.isReturn = false) (h : p.next? = some q) :
    p.successor startId = some (q.id startId) ↔ p.NamesNextOnce := by
  obtain ⟨madeUp, hid⟩ := id_of_next? startId h
  rw [successor_of_plain hchoice hreturn, h, Option.map_some, hid]
  unfold NamesNextOnce
  cases labels p.between with
  | nil => simp
  | cons name rest => simp [List.getLast?_cons]

end Naming

end Place

namespace Compile

/-- No two dialogue lines were given the same identifier. -/
def Unrepeated (found : List Diagnostic) : Prop := ∀ d ∈ found, d.code ≠ duplicateCode

/-- A dialogue line whose identifier is taken is reported. -/
theorem not_unrepeated_applyDialogue {p : Progress} (here : Located) (dialogue : Line.Dialogue)
    (h : (p.drafts.get? (takeId p.carry).1).isSome = true) :
    ¬ Unrepeated (applyDialogue p here dialogue).found := by
  have hmem := (KeyedList.isSome_get?_iff _ _).mp h
  have hfound := (notes_applyDialogue p here dialogue).found
  rw [if_pos hmem] at hfound
  intro hunrepeated
  exact hunrepeated _ (hfound ▸ List.mem_append_right _ List.mem_cons_self) rfl

section Naming
variable {startId : String}

/-- Unless something was reported, each dialogue line so far has kept its identifier. -/
def Progress.Distinct (startId : String) (lines : List Line) (p : Progress) : Prop :=
  Unrepeated p.found → ∀ place : Place, place.lines = lines → place.IsLast startId

theorem Progress.Distinct.applyLine {lines : List Line} {p : Progress}
    (h : p.Distinct startId lines) (hreflects : p.Reflects startId lines)
    (catalog : Asset.Catalog) (here : Located) :
    (Compile.applyLine catalog p here).Distinct startId (lines ++ [here.line]) := by
  intro hunrepeated place hlines
  have hbefore : Unrepeated p.found := by
    intro d hd
    exact hunrepeated d ((notes_applyLine catalog p here).found ▸ List.mem_append_left _ hd)
  rcases Place.eq_extend_or_new hlines with ⟨old, hold, rfl⟩ | ⟨hnew, -⟩
  · refine (h hbefore old hold).extend ?_
    intro dialogue hdialogue hsame
    have hread : Line.read here.text = .dialogue dialogue := hdialogue
    have hnamed := hreflects.named old hold
    rw [← hsame, hold, ← hreflects.takeId_eq] at hnamed
    unfold Compile.applyLine at hunrepeated
    rw [hread] at hunrepeated
    exact not_unrepeated_applyDialogue here dialogue hnamed hunrepeated
  · rw [hnew]
    exact Place.isLast_of_after_eq_nil rfl

theorem Progress.Distinct.foldl {lines : List Line} {p : Progress} (h : p.Distinct startId lines)
    (hreflects : p.Reflects startId lines) (catalog : Asset.Catalog) (more : List Located) :
    (more.foldl (Compile.applyLine catalog) p).Distinct startId
      (lines ++ more.map Located.line) := by
  induction more generalizing lines p with
  | nil => simpa using h
  | cons here rest ih =>
    simpa using ih (h.applyLine hreflects catalog here) (hreflects.applyLine catalog here)

theorem distinct_initial (c : Compiler) : (initial c).Distinct c.startId [] := by
  intro _ place hlines
  simp [Place.lines] at hlines

end Naming

theorem isLast_of_unrepeated {c : Compiler} {text : String}
    (h : Unrepeated (c.compile text).diagnostics) (place : Place)
    (hlines : place.lines = linesOf text) : place.IsLast c.startId := by
  have hrun : (c.run text).Distinct c.startId (linesOf text) :=
    (distinct_initial c).foldl (reflects_initial c) c.catalog (locatedLines text)
  refine hrun ?_ place hlines
  exact fun d hd => h d (List.mem_append_left _ hd)

end Compile

namespace Place

theorem eq_of_length {p q : Place} (hlines : p.lines = q.lines)
    (hlength : p.before.length = q.before.length) : p = q := by
  obtain ⟨before, dialogue, after⟩ := p
  obtain ⟨before', dialogue', after'⟩ := q
  obtain ⟨rfl, hrest⟩ := List.append_inj hlines hlength
  cases hrest
  rfl

theorem IsLast.unique {startId : String} {p q : Place} (hp : p.IsLast startId)
    (hq : q.IsLast startId) (hlines : p.lines = q.lines) (hid : p.id startId = q.id startId) :
    p = q := by
  refine eq_of_length hlines ?_
  rcases Nat.lt_trichotomy p.before.length q.before.length with hlt | heq | hlt
  · exact absurd hid.symm (hp q hlines.symm hlt)
  · exact heq
  · exact absurd hid (hq p hlines hlt)

theorem Describes.dialogue_eq {startId : String} {p : Place} {node : Node}
    (h : p.Describes startId node) : node.dialogue = p.dialogue := by
  unfold Node.dialogue
  rw [h.speaker, h.text]

end Place

namespace Compiler

variable {c : Compiler} {text : String}

/-- Without repeated identifiers, every dialogue line has its own node. -/
theorem exists_node (hunrepeated : Compile.Unrepeated (c.compile text).diagnostics) (place : Place)
    (hlines : place.lines = Compile.linesOf text) :
    ∃ node, (c.compile text).script.get? (place.id c.startId) = some node ∧
      place.Describes c.startId node := by
  have hreflects := Compile.reflects_run c text
  obtain ⟨node, hnode⟩ := Option.isSome_iff_exists.mp (hreflects.named place hlines)
  obtain ⟨other, hother, hid, hlast, hdescribes, -⟩ := hreflects.drafted _ node hnode
  have hsame : other = place := hlast.unique (Compile.isLast_of_unrepeated hunrepeated place hlines)
    (hother.trans hlines.symm) hid
  exact ⟨node, hnode, hsame ▸ hdescribes⟩

/-- From a dialogue line on, play goes through all the others in their order, as long as each leads
to the next. -/
theorem trail_eq (hunrepeated : Compile.Unrepeated (c.compile text).diagnostics)
    (hleads : ∀ p q : Place, p.lines = Compile.linesOf text → p.next? = some q →
      p.successor c.startId = some (q.id c.startId)) (place : Place)
    (hlines : place.lines = Compile.linesOf text) :
    ((c.compile text).script.trail (Place.dialogues place.after).length.succ
        (some (place.id c.startId))).map Node.dialogue =
      place.dialogue :: Place.dialogues place.after := by
  obtain ⟨node, hnode, hdescribes⟩ := exists_node hunrepeated place hlines
  have hdialogue := hdescribes.dialogue_eq
  have hlook : (some (place.id c.startId)).bind (c.compile text).script.get? = some node := hnode
  unfold Script.trail
  rw [hlook]
  dsimp only
  rw [List.map_cons, hdialogue]
  cases hnext : place.next? with
  | none =>
    have hnone : Place.dialogues place.after = [] := by
      rcases place.latest_or_splits with hlatest | ⟨between, next, rest, hsplits⟩
      · exact Place.dialogues_eq_nil hlatest
      · rw [hsplits.next?_eq] at hnext
        cases hnext
    rw [hnone]
    rfl
  | some q =>
    have hrest := Place.dialogues_after hnext
    have hfollows := trail_eq hunrepeated hleads q ((Place.lines_of_next? hnext).trans hlines)
    rw [hdescribes.next, hleads place q hlines hnext, hrest, List.length_cons, hfollows]
termination_by (Place.dialogues place.after).length
decreasing_by
  rw [hrest, List.length_cons]
  omega

/-- A text without choices and returns, in which no identifier comes up twice, is played in its
order exactly where the labels between two dialogue lines begin and end with the same name. -/
theorem reading_order_is_playing_order_iff (c : Compiler) (text : String)
    (hchoice : (Compile.linesOf text).any Line.isChoice = false)
    (hreturn : (Compile.linesOf text).any Line.isReturn = false)
    (hunrepeated : Compile.Unrepeated (c.compile text).diagnostics) :
    (∀ place : Place, place.lines = Compile.linesOf text →
      ∃ node, (c.compile text).script.get? (place.id c.startId) = some node ∧
        node.dialogue = place.dialogue ∧
        ∀ q, place.next? = some q →
          (node.next = some (q.id c.startId) ↔ place.NamesNextOnce)) ∧
      ((∀ place : Place, place.lines = Compile.linesOf text → place.next?.isSome = true →
          place.NamesNextOnce) →
        ∀ first : Place, first.lines = Compile.linesOf text →
          (∀ line ∈ first.before, line.isDialogue = false) →
          ((c.compile text).script.trail (Place.dialogues (Compile.linesOf text)).length
              (some (first.id c.startId))).map Node.dialogue =
            Place.dialogues (Compile.linesOf text)) := by
  have hleads : ∀ p q : Place, p.lines = Compile.linesOf text → p.next? = some q →
      (p.successor c.startId = some (q.id c.startId) ↔ p.NamesNextOnce) := by
    intro p q hlines hnext
    exact Place.successor_eq_next_iff (hlines ▸ hchoice) (hlines ▸ hreturn) hnext
  constructor
  · intro place hlines
    obtain ⟨node, hnode, hdescribes⟩ := exists_node hunrepeated place hlines
    refine ⟨node, hnode, hdescribes.dialogue_eq, ?_⟩
    intro q hnext
    rw [hdescribes.next]
    exact hleads place q hlines hnext
  · intro hnames first hlines hfirst
    have hall : Place.dialogues (Compile.linesOf text) =
        first.dialogue :: Place.dialogues first.after := by
      rw [← hlines]
      exact Place.dialogues_append _ _ _ hfirst
    rw [hall]
    refine trail_eq hunrepeated ?_ first hlines
    intro p q hp hnext
    exact (hleads p q hp hnext).mpr (hnames p hp (by rw [hnext]; rfl))

/-- Labels and commands between the lines, one of the labels twice. -/
def orderlyText : String := "Hi\n# a\n【cg：x】\n#\n# a\nYo\n\nBye"

theorem linesOf_orderlyText : Compile.linesOf orderlyText =
    [.dialogue ⟨none, "Hi"⟩, .label "a", .command ⟨.cg, "x"⟩, .label "", .label "a",
      .dialogue ⟨none, "Yo"⟩, .dialogue ⟨none, "Bye"⟩] := by decide +kernel

theorem namesNextOnce_orderlyText (place : Place)
    (hplace : place.lines = Compile.linesOf orderlyText) : place.NamesNextOnce := by
  have hall : ∀ n < 7, (Place.labels (((Compile.linesOf orderlyText).drop (n + 1)).takeWhile
      (!·.isDialogue))).head? = (Place.labels (((Compile.linesOf orderlyText).drop
        (n + 1)).takeWhile (!·.isDialogue))).getLast? := by
    rw [linesOf_orderlyText]
    decide
  have hlength : place.lines.length = 7 := by rw [hplace, linesOf_orderlyText]; rfl
  have hbefore := place.length_before_lt
  unfold Place.NamesNextOnce Place.between
  rw [← place.drop_lines, hplace]
  exact hall place.before.length (hlength ▸ hbefore)

theorem reading_order_is_playing_order_in_a_story :
    (Compile.linesOf orderlyText).any Line.isChoice = false ∧
      (Compile.linesOf orderlyText).any Line.isReturn = false ∧
      Compile.Unrepeated (({} : Compiler).compile orderlyText).diagnostics ∧
      ((({} : Compiler).compile orderlyText).script.trail 3 (some "start")).map Node.dialogue =
        [⟨none, "Hi"⟩, ⟨none, "Yo"⟩, ⟨none, "Bye"⟩] := by
  have hchoice : (Compile.linesOf orderlyText).any Line.isChoice = false := by decide +kernel
  have hreturn : (Compile.linesOf orderlyText).any Line.isReturn = false := by decide +kernel
  have hunrepeated : Compile.Unrepeated (({} : Compiler).compile orderlyText).diagnostics := by
    unfold Compile.Unrepeated
    decide +kernel
  refine ⟨hchoice, hreturn, hunrepeated, ?_⟩
  have hplayed := (reading_order_is_playing_order_iff {} orderlyText hchoice hreturn
    hunrepeated).2 (fun place hplace _ => namesNextOnce_orderlyText place hplace)
    ⟨[], ⟨none, "Hi"⟩, (Compile.linesOf orderlyText).drop 1⟩ (by rw [linesOf_orderlyText]; rfl)
    (by simp)
  rw [linesOf_orderlyText] at hplayed
  exact hplayed

/-- Two labels between two lines. -/
def relabelledText : String := "Hi\n# a\n# b\nBye"

/-- The first line leads to the first label, and the second line is called after the second. -/
theorem two_labels_lead_astray :
    (Compile.linesOf relabelledText).any Line.isChoice = false ∧
      (Compile.linesOf relabelledText).any Line.isReturn = false ∧
      Compile.Unrepeated (({} : Compiler).compile relabelledText).diagnostics ∧
      ∃ (p q : Place) (node : Node), p.lines = Compile.linesOf relabelledText ∧
        p.next? = some q ∧
        (({} : Compiler).compile relabelledText).script.get? (p.id "start") = some node ∧
        node.next = some "a" ∧ q.id "start" = "b" := by
  have hunrepeated : Compile.Unrepeated (({} : Compiler).compile relabelledText).diagnostics := by
    unfold Compile.Unrepeated
    decide +kernel
  have hnode : (({} : Compiler).compile relabelledText).script.get? "start" =
      some { id := "start", text := "Hi", next := some "a" } := by decide +kernel
  exact ⟨by decide +kernel, by decide +kernel, hunrepeated,
    ⟨[], ⟨none, "Hi"⟩, [.label "a", .label "b", .dialogue ⟨none, "Bye"⟩]⟩,
    ⟨[.dialogue ⟨none, "Hi"⟩, .label "a", .label "b"], ⟨none, "Bye"⟩, []⟩, _,
    by decide +kernel, rfl, hnode, rfl, by decide +kernel⟩

end Compiler

end VisualNovel
