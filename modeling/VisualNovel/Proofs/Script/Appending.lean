import VisualNovel.Proofs.Script.Spacing

/-!
A text that goes on. More lines after a text leave its nodes alone, unless they take over the
identifier of one; only the node of its last dialogue line may still be given choices and a
successor. What was reported about lines of the shorter text is reported first.
-/
namespace VisualNovel

namespace Compile

def Located.below (count : Nat) (here : Located) : Located :=
  { here with number := here.number + count }

theorem locatedLines_append (s t : String) :
    locatedLines (s ++ "\n" ++ t) =
      locatedLines s ++ (locatedLines t).map (Located.below (Text.lines s).length) := by
  rw [locatedLines_eq, locatedLines_eq, locatedLines_eq, Text.lines_append, locate_append,
    locate_add]
  rfl

theorem linesOf_append (s t : String) : linesOf (s ++ "\n" ++ t) = linesOf s ++ linesOf t := by
  unfold linesOf
  rw [locatedLines_append, List.map_append, List.map_map]
  rfl

end Compile

namespace Place

variable {startId : String}

/-- The same dialogue line in a text that goes on. -/
def append (p : Place) (more : List Line) : Place := { p with after := p.after ++ more }

theorem append_lines (p : Place) (more : List Line) : (p.append more).lines = p.lines ++ more := by
  simp [append, lines]

theorem Splits.append {p : Place} {between rest : List Line} {next : Line.Dialogue}
    (h : p.Splits between next rest) (more : List Line) :
    (p.append more).Splits between next (rest ++ more) where
  after := by
    rw [Place.append, h.after, List.append_assoc, List.cons_append]
  quiet := h.quiet

theorem choicesIn_append (before lines more : List Line) :
    choicesIn startId before lines <+: choicesIn startId before (lines ++ more) := by
  induction more using List.reverseRecOn with
  | nil => exact (List.append_nil lines).symm ▸ List.prefix_rfl
  | append_singleton more line ih =>
    rw [← List.append_assoc, choicesIn_concat]
    exact ih.trans (List.prefix_append _ _)

/-- Choices that come up later are put behind the others. -/
theorem choices_append (p : Place) (more : List Line) :
    p.choices startId <+: (p.append more).choices startId := by
  rcases p.latest_or_splits with hlatest | ⟨between, next, rest, hsplits⟩
  · have hbetween : (p.append more).between = p.after ++ more.takeWhile (!·.isDialogue) := by
      unfold Place.between append
      refine List.takeWhile_append_of_pos ?_
      intro line hline
      rw [hlatest line hline, Bool.not_false]
    unfold Place.choices
    rw [hlatest.between, hbetween]
    exact choicesIn_append _ _ _
  · unfold Place.choices
    rw [hsplits.between_eq, (hsplits.append more).between_eq]
    exact List.prefix_rfl

theorem Splits.choices_append {p : Place} {between rest : List Line} {next : Line.Dialogue}
    (h : p.Splits between next rest) (more : List Line) :
    (p.append more).choices startId = p.choices startId := by
  unfold Place.choices
  rw [h.between_eq, (h.append more).between_eq]
  rfl

theorem Splits.successor_append {p : Place} {between rest : List Line} {next : Line.Dialogue}
    (h : p.Splits between next rest) (more : List Line) :
    (p.append more).successor startId = p.successor startId := by
  unfold Place.successor
  rw [h.between_eq, (h.append more).between_eq, h.next?_eq, (h.append more).next?_eq]
  rfl

/-- A last dialogue line stays one if no new line takes over its identifier. -/
theorem IsLast.append {p : Place} (h : p.IsLast startId) {more : List Line}
    (hmore : ∀ q : Place, q.lines = p.lines ++ more → p.lines.length ≤ q.before.length →
      q.id startId ≠ p.id startId) : (p.append more).IsLast startId := by
  intro q hq hlater
  rw [append_lines] at hq
  rcases Nat.lt_or_ge q.before.length p.lines.length with hold | hnew
  · obtain ⟨rest, hrest⟩ := List.prefix_of_prefix_length_le (hq ▸ q.upTo_prefix)
      (List.prefix_append p.lines more) (by simpa using Nat.succ_le_of_lt hold)
    refine h ⟨q.before, q.dialogue, rest⟩ ?_ hlater
    rw [← hrest]
    simp [Place.lines]
  · exact hmore q hq hnew

end Place

theorem Node.eq_of_told {a b : Node} (hid : a.id = b.id) (hdialogue : a.dialogue = b.dialogue)
    (hscene : a.scene = b.scene) (hchoices : a.choices = b.choices) (hnext : a.next = b.next) :
    a = b := by
  cases a
  cases b
  simp_all [Node.dialogue, Node.scene]

namespace Compile

/-- What is reported later comes behind what was reported before. -/
theorem found_foldl (catalog : Asset.Catalog) (lines : List Located) (p : Progress) :
    p.found <+: (lines.foldl (applyLine catalog) p).found :=
  found_foldl_eq catalog lines p ▸ List.prefix_append _ _

/-- Reports about lines come first, and only reports about the whole text follow. -/
theorem filter_numbered (c : Compiler) (text : String) :
    (c.compile text).diagnostics.filter (·.lineNumber.isSome) = (c.run text).found := by
  have hnumbered : (c.run text).found.filter (·.lineNumber.isSome) = (c.run text).found := by
    rw [List.filter_eq_self, found_run]
    intro d hd
    obtain ⟨here, -, -, n, -, rfl⟩ := mem_notices c.catalog hd
    rfl
  have hdangling : (danglingChoices (c.run text).drafts).filter (·.lineNumber.isSome) = [] := by
    rw [List.filter_eq_nil_iff]
    intro d hd
    rw [(code_of_mem_danglingChoices hd).2]
    exact Bool.false_ne_true
  have hsplit := List.filter_append (p := (·.lineNumber.isSome)) (c.run text).found
    (danglingChoices (c.run text).drafts)
  rw [hdangling, List.append_nil, hnumbered] at hsplit
  exact hsplit

end Compile

namespace Compiler

/-- A node whose identifier no new line takes over says and shows the same in the longer text. -/
theorem exists_longer (c : Compiler) {text longer : String} {more : List Line}
    (hlonger : Compile.linesOf longer = Compile.linesOf text ++ more) {place : Place}
    (hlines : place.lines = Compile.linesOf text) (hlast : (place.append more).IsLast c.startId) :
    ∃ node, (c.compile longer).script.get? (place.id c.startId) = some node ∧
      (place.append more).Describes c.startId node ∧
      node.scene = place.scene c.catalog c.defaultBackground := by
  have happend : (place.append more).lines = Compile.linesOf longer := by
    rw [Place.append_lines, hlines, hlonger]
  obtain ⟨node, hnode, hscene⟩ := (Compile.pictures_run c longer).drafted _ happend hlast
  obtain ⟨other, hother, hid, hotherLast, hdescribes, -⟩ := Compile.exists_place c longer hnode
  have hsame : other = place.append more :=
    hotherLast.unique hlast (hother.trans happend.symm) hid
  exact ⟨node, hnode, hsame ▸ hdescribes, hscene⟩

/-- More lines after a text leave alone every node whose identifier they do not take over. Only to
the node of the last dialogue line of the text they may add choices, and a successor. Reports about
lines of the text stay and come first. -/
theorem appending_lines_is_local (c : Compiler) (text more : String) :
    Compile.linesOf (text ++ "\n" ++ more) = Compile.linesOf text ++ Compile.linesOf more ∧
      (∀ id node, (c.compile text).script.get? id = some node →
        (∀ q : Place, q.lines = Compile.linesOf (text ++ "\n" ++ more) →
          (Compile.linesOf text).length ≤ q.before.length → q.id c.startId ≠ id) →
        ∃ node', (c.compile (text ++ "\n" ++ more)).script.get? id = some node' ∧
          node'.id = node.id ∧ node'.dialogue = node.dialogue ∧ node'.scene = node.scene ∧
          node.choices <+: node'.choices ∧
          ((∀ last : Place, last.lines = Compile.linesOf text → last.IsLatest →
            last.id c.startId ≠ id) → node' = node)) ∧
      (c.compile text).diagnostics.filter (·.lineNumber.isSome) <+:
        (c.compile (text ++ "\n" ++ more)).diagnostics.filter (·.lineNumber.isSome) := by
  have hlonger := Compile.linesOf_append text more
  refine ⟨hlonger, ?_, ?_⟩
  · intro id node hnode hfree
    obtain ⟨place, hlines, rfl, hlast, hdescribes, hscene⟩ := Compile.exists_place c text hnode
    have hstill : (place.append (Compile.linesOf more)).IsLast c.startId := by
      refine hlast.append ?_
      rw [hlines, ← hlonger]
      exact hfree
    obtain ⟨node', hnode', hdescribes', hscene'⟩ := c.exists_longer hlonger hlines hstill
    have hid : node'.id = node.id :=
      (c.keysAreIds_compile _ _ _ hnode').trans (c.keysAreIds_compile _ _ _ hnode).symm
    have hdialogue : node'.dialogue = node.dialogue :=
      hdescribes'.dialogue_eq.trans hdescribes.dialogue_eq.symm
    have hsame : node'.scene = node.scene := hscene'.trans hscene.symm
    refine ⟨node', hnode', hid, hdialogue, hsame, ?_, ?_⟩
    · rw [hdescribes.choices, hdescribes'.choices]
      exact place.choices_append _
    · intro hpassed
      have hnot : ¬ place.IsLatest := fun hlatest => hpassed place hlines hlatest rfl
      obtain ⟨between, next, rest, hsplits⟩ := place.latest_or_splits.resolve_left hnot
      refine Node.eq_of_told hid hdialogue hsame ?_ ?_
      · rw [hdescribes'.choices, hdescribes.choices, hsplits.choices_append]
      · rw [hdescribes'.next, hdescribes.next, hsplits.successor_append]
  · rw [Compile.filter_numbered, Compile.filter_numbered]
    unfold Compiler.run
    rw [Compile.locatedLines_append, List.foldl_append]
    exact Compile.found_foldl c.catalog _ _

def begunText : String := "Hi\nYo"

/-- A choice for the second line, and a line that leaves the names of the others alone. -/
def continuedText : String := begunText ++ "\n" ++ "A. Back >> start\nBye"

theorem linesOf_begunText :
    Compile.linesOf begunText = [.dialogue ⟨none, "Hi"⟩, .dialogue ⟨none, "Yo"⟩] := by
  decide

theorem linesOf_continuedText :
    Compile.linesOf continuedText =
      [.dialogue ⟨none, "Hi"⟩, .dialogue ⟨none, "Yo"⟩, .choice ⟨"A. Back", some "start"⟩,
        .dialogue ⟨none, "Bye"⟩] := by
  decide

theorem id_of_later_continuedText (q : Place) (hlines : q.lines = Compile.linesOf continuedText)
    (hlater : (Compile.linesOf begunText).length ≤ q.before.length) : q.id "start" ≠ "start" := by
  have hall : ∀ n < 4, 2 ≤ n →
      Place.idAfter "start" ((Compile.linesOf continuedText).take n) ≠ "start" := by
    decide
  have hlength := q.length_before_lt
  rw [linesOf_begunText] at hlater
  rw [hlines, linesOf_continuedText] at hlength
  unfold Place.id
  rw [← q.take_lines, hlines]
  exact hall _ hlength hlater

theorem id_of_latest_begunText (last : Place) (hlines : last.lines = Compile.linesOf begunText)
    (hlatest : last.IsLatest) : last.id "start" ≠ "start" := by
  have hall : ∀ n < 2,
      (∀ line ∈ (Compile.linesOf begunText).drop (n + 1), line.isDialogue = false) →
        Place.idAfter "start" ((Compile.linesOf begunText).take n) ≠ "start" := by
    decide
  have hlength := last.length_before_lt
  rw [hlines, linesOf_begunText] at hlength
  unfold Place.IsLatest at hlatest
  rw [← last.drop_lines, hlines] at hlatest
  unfold Place.id
  rw [← last.take_lines, hlines]
  exact hall _ hlength hlatest

theorem appending_lines_is_local_in_a_story :
    (∀ q : Place, q.lines = Compile.linesOf continuedText →
        (Compile.linesOf begunText).length ≤ q.before.length → q.id "start" ≠ "start") ∧
      (∀ last : Place, last.lines = Compile.linesOf begunText → last.IsLatest →
        last.id "start" ≠ "start") ∧
      (({} : Compiler).compile continuedText).script.get? "start" =
        some { id := "start", text := "Hi", next := some "node_0" } := by
  have hnode : (({} : Compiler).compile begunText).script.get? "start" =
      some { id := "start", text := "Hi", next := some "node_0" } := by decide
  obtain ⟨node, hsame, -, -, -, -, hkept⟩ :=
    (appending_lines_is_local {} begunText "A. Back >> start\nBye").2.1 _ _ hnode
      id_of_later_continuedText
  exact ⟨id_of_later_continuedText, id_of_latest_begunText,
    hsame.trans (congrArg some (hkept id_of_latest_begunText))⟩

end Compiler

end VisualNovel
