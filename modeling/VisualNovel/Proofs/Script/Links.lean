import VisualNovel.Proofs.Script.NodeKeys
import VisualNovel.Proofs.Script.Places

/-!
Where compiled nodes lead. Compilation goes over the lines once and changes the latest node as it
goes. What it leaves at each identifier is what the text has at the last dialogue line of that
identifier: the choices before the next dialogue line, and a successor that these lines settle.
-/
namespace VisualNovel

namespace Compile

def Located.line (here : Located) : Line := Line.read here.text

section Naming
variable (startId : String)

/-- What a line does to the node of the latest dialogue line. -/
def relink (before : List Line) (line : Line) (node : Node) : Node :=
  match line with
  | .label name => if name.isEmpty then node else linkIfOpen name node
  | .command command =>
      if command.kind = .returnTitle then { node with next := some endTarget } else node
  | .choice choice =>
      { node with choices := node.choices ++
          [⟨choice.text, Place.targetAfter startId before choice, Line.choiceStyle choice.text⟩] }
  | .dialogue _ => linkIfOpen (Place.idAfter startId before) node

/-- What is kept of the lines read so far. -/
structure Progress.Reflects (lines : List Line) (p : Progress) : Prop where
  pending : p.carry.pendingLabel = Place.pendingLabel startId lines
  counter : p.carry.counter = Place.counter startId lines
  previous : p.carry.previous.isSome = lines.any Line.isDialogue
  /-- Every node is that of the last dialogue line of its identifier. Only the latest dialogue line
  may still be given choices and a successor. -/
  drafted : ∀ key node, p.drafts.get? key = some node → ∃ place : Place,
    place.lines = lines ∧ place.id startId = key ∧ place.IsLast startId ∧
      place.Describes startId node ∧ (place.IsLatest ↔ p.carry.previous = some key)
  named : ∀ place : Place, place.lines = lines → (p.drafts.get? (place.id startId)).isSome = true

/-- What a line that is not dialogue changes. -/
structure Progress.Retells (before : List Line) (line : Line) (p p' : Progress) : Prop where
  pending : p'.carry.pendingLabel = line.labelName?.or p.carry.pendingLabel
  counter : p'.carry.counter =
    p.carry.counter + if Place.takesNumber startId before line then 1 else 0
  previous : p'.carry.previous = p.carry.previous
  drafts : ∀ key, p'.drafts.get? key =
    if p.carry.previous = some key then (p.drafts.get? key).map (relink startId before line)
    else p.drafts.get? key

end Naming

end Compile

namespace Place

variable {startId : String}

theorem Describes.isTerminal_iff {p : Place} {node : Node} (h : p.Describes startId node)
    (hlatest : p.IsLatest) :
    node.isTerminal = true ↔ p.after.any Line.isReturn = false ∧ p.after.any Line.isChoice = false ∧
      firstLabel p.after = none := by
  have hchoices : node.choices = [] ↔ p.after.any Line.isChoice = false := by
    rw [h.choices, Place.choices, choicesIn_eq_nil_iff, hlatest.between]
  unfold Node.isTerminal
  rw [Bool.and_eq_true, List.isEmpty_iff, hchoices, Option.isNone_iff_eq_none, h.next,
    hlatest.successor]
  cases p.after.any Line.isReturn <;> simp

theorem Describes.linkIfOpen {p q : Place} {node : Node} (h : p.Describes startId node)
    (hdialogue : q.dialogue = p.dialogue) (hchoices : q.choices startId = p.choices startId)
    {target : String}
    (hnext : q.successor startId = if node.isTerminal then some target else p.successor startId) :
    q.Describes startId (Compile.linkIfOpen target node) := by
  unfold Compile.linkIfOpen
  split
  · next hterminal =>
    rw [if_pos hterminal] at hnext
    exact ⟨hdialogue ▸ h.text, hdialogue ▸ h.speaker, hchoices ▸ h.choices, hnext.symm⟩
  · next hterminal =>
    rw [if_neg hterminal] at hnext
    exact ⟨hdialogue ▸ h.text, hdialogue ▸ h.speaker, hchoices ▸ h.choices,
      h.next.trans hnext.symm⟩

section Latest
variable {p : Place} {node : Node}

/-- A line that is neither a choice nor dialogue leaves the choices as they are. -/
theorem IsLatest.choices_eq (hlatest : p.IsLatest) {line : Line} (hline : line.isDialogue = false)
    (hchoice : choiceAfter startId p.lines line = none) :
    (p.extend line).choices startId = p.choices startId := by
  rw [hlatest.choices_extend line hline, hchoice]
  exact List.append_nil _

theorem Describes.extend_label (h : p.Describes startId node) (hlatest : p.IsLatest)
    (name : String) :
    (p.extend (.label name)).Describes startId
      (Compile.relink startId p.lines (.label name) node) := by
  have hnext := hlatest.successor startId
  have hterminal := h.isTerminal_iff hlatest
  have hchoices : (p.extend (.label name)).choices startId = p.choices startId :=
    hlatest.choices_eq rfl rfl
  have hmore := hlatest.successor_extend (.label name) rfl startId
  have hreturn : (Line.label name).isReturn = false := rfl
  rw [hreturn, Bool.or_false] at hmore
  unfold Compile.relink
  dsimp only
  by_cases hname : name.isEmpty = true
  · have hnone : (Line.label name).labelName? = none := if_pos hname
    rw [hnone, Option.or_none, ite_self, ← hnext] at hmore
    rw [if_pos hname]
    exact ⟨h.text, h.speaker, h.choices.trans hchoices.symm, h.next.trans hmore.symm⟩
  · have hsome : (Line.label name).labelName? = some name := if_neg hname
    rw [hsome] at hmore
    rw [if_neg hname]
    refine h.linkIfOpen (q := p.extend (.label name)) rfl hchoices ?_
    rw [hmore, hnext]
    cases hr : p.after.any Line.isReturn <;> cases hc : p.after.any Line.isChoice <;>
      cases hl : firstLabel p.after <;> simp [hterminal, hr, hc, hl]

theorem Describes.extend_command (h : p.Describes startId node) (hlatest : p.IsLatest)
    (command : Line.Command) :
    (p.extend (.command command)).Describes startId
      (Compile.relink startId p.lines (.command command) node) := by
  have hchoices : (p.extend (.command command)).choices startId = p.choices startId :=
    hlatest.choices_eq rfl rfl
  have hmore := hlatest.successor_extend (.command command) rfl startId
  have hnone : (Line.command command).labelName? = none := rfl
  have hreturn : (Line.command command).isReturn = (command.kind == .returnTitle) := rfl
  rw [hnone, Option.or_none, ite_self, hreturn] at hmore
  unfold Compile.relink
  dsimp only
  split
  · next hkind =>
    refine ⟨h.text, h.speaker, h.choices.trans hchoices.symm, ?_⟩
    simp [hmore, hkind]
  · next hkind =>
    refine ⟨h.text, h.speaker, h.choices.trans hchoices.symm, ?_⟩
    simp [hmore, hkind, h.next, hlatest.successor]

theorem Describes.extend_choice (h : p.Describes startId node) (hlatest : p.IsLatest)
    (choice : Line.ChoiceLine) :
    (p.extend (.choice choice)).Describes startId
      (Compile.relink startId p.lines (.choice choice) node) := by
  have hchoices := hlatest.choices_extend (.choice choice) rfl startId
  have hmore := hlatest.successor_extend (.choice choice) rfl startId
  have hnone : (Line.choice choice).labelName? = none := rfl
  have hreturn : (Line.choice choice).isReturn = false := rfl
  rw [hnone, Option.or_none, ite_self, hreturn, Bool.or_false, ← hlatest.successor] at hmore
  refine ⟨h.text, h.speaker, ?_, h.next.trans hmore.symm⟩
  rw [hchoices, ← h.choices]
  rfl

/-- The next dialogue line settles a link that was left open. -/
theorem Describes.extend_dialogue (h : p.Describes startId node) (hlatest : p.IsLatest)
    (dialogue : Line.Dialogue) :
    (p.extend (.dialogue dialogue)).Describes startId
      (Compile.relink startId p.lines (.dialogue dialogue) node) := by
  have hterminal := h.isTerminal_iff hlatest
  have hsplits := hlatest.extend_dialogue dialogue
  have hid : id startId ⟨p.before ++ .dialogue p.dialogue :: p.after, dialogue, []⟩ =
      idAfter startId p.lines := rfl
  refine h.linkIfOpen (q := p.extend (.dialogue dialogue)) rfl ?_ ?_
  · unfold Place.choices
    rw [hsplits.between_eq, hlatest.between]
    rfl
  · rw [hlatest.successor]
    unfold Place.successor
    rw [hsplits.between_eq, hsplits.next?_eq]
    cases hr : p.after.any Line.isReturn <;> cases hc : p.after.any Line.isChoice <;>
      cases hl : firstLabel p.after <;> simp [hterminal, hr, hc, hl, Place.extend, hid]

theorem Describes.extend (h : p.Describes startId node) (hlatest : p.IsLatest) (line : Line) :
    (p.extend line).Describes startId (Compile.relink startId p.lines line node) := by
  cases line with
  | label name => exact h.extend_label hlatest name
  | command command => exact h.extend_command hlatest command
  | choice choice => exact h.extend_choice hlatest choice
  | dialogue dialogue => exact h.extend_dialogue hlatest dialogue

end Latest

/-- Once another dialogue line has come, nothing changes any more. -/
theorem Describes.extend_of_splits {p : Place} {node : Node} (h : p.Describes startId node)
    {between rest : List Line} {next : Line.Dialogue} (hsplits : p.Splits between next rest)
    (line : Line) : (p.extend line).Describes startId node where
  text := h.text
  speaker := h.speaker
  choices := by
    rw [h.choices, Place.choices, Place.choices, (hsplits.extend line).between_eq,
      hsplits.between_eq]
    rfl
  next := by
    rw [h.next, Place.successor, Place.successor, (hsplits.extend line).between_eq,
      hsplits.between_eq, (hsplits.extend line).next?_eq, hsplits.next?_eq]
    rfl

theorem isLast_of_after_eq_nil {p : Place} (h : p.after = []) : p.IsLast startId := by
  intro q hq hlater
  have hlength := congrArg List.length hq
  simp only [Place.lines, List.length_append, List.length_cons, h, List.length_nil] at hlength
  omega

theorem IsLast.extend {p : Place} (h : p.IsLast startId) {line : Line}
    (hline : ∀ dialogue, line = .dialogue dialogue → idAfter startId p.lines ≠ p.id startId) :
    (p.extend line).IsLast startId := by
  intro q hq hlater
  rw [extend_lines] at hq
  rcases eq_extend_or_new hq with ⟨old, hold, rfl⟩ | ⟨hnew, hdialogue⟩
  · exact h old hold hlater
  · rw [hnew]
    exact hline _ hdialogue

end Place

namespace Compile

variable {startId : String}

theorem Progress.get?_updatePrevious (p : Progress) (f : Node → Node) (key : String) :
    (p.updatePrevious f).drafts.get? key =
      if p.carry.previous = some key then (p.drafts.get? key).map f else p.drafts.get? key := by
  unfold Progress.updatePrevious
  cases hprevious : p.carry.previous with
  | none => simp
  | some id =>
    rw [KeyedList.get?_modify]
    simp only [Option.some.injEq]

/-- A node after the latest one may have been changed is an old one, changed or not. -/
theorem Progress.exists_old {p : Progress} {f : Node → Node} {key : String} {node : Node}
    (h : (if p.carry.previous = some key then (p.drafts.get? key).map f else p.drafts.get? key) =
      some node) :
    ∃ old, p.drafts.get? key = some old ∧
      node = if p.carry.previous = some key then f old else old := by
  split at h
  · next hprevious =>
    obtain ⟨old, hold, rfl⟩ := Option.map_eq_some_iff.mp h
    exact ⟨old, hold, (if_pos hprevious).symm⟩
  · next hprevious => exact ⟨node, h, (if_neg hprevious).symm⟩

theorem Progress.isSome_updated (p : Progress) (f : Node → Node) (key : String) :
    (if p.carry.previous = some key then (p.drafts.get? key).map f
      else p.drafts.get? key).isSome = (p.drafts.get? key).isSome := by
  split
  · exact Option.isSome_map
  · rfl

@[simp] theorem Progress.updatePrevious_carry (p : Progress) (f : Node → Node) :
    (p.updatePrevious f).carry = p.carry := by
  unfold Progress.updatePrevious
  split <;> rfl

namespace Progress.Retells

variable {before : List Line} {line : Line} {p p' : Progress}

theorem of_shown (hpending : p'.carry.pendingLabel = p.carry.pendingLabel)
    (hprevious : p'.carry.previous = p.carry.previous)
    (hcounter : p'.carry.counter = p.carry.counter)
    (hdrafts : p'.drafts = p.drafts) (hname : line.labelName? = none)
    (hnumber : Place.takesNumber startId before line = false)
    (hrelink : ∀ node, relink startId before line node = node) :
    p.Retells startId before line p' where
  pending := by rw [hpending, hname, Option.none_or]
  counter := by rw [hcounter, hnumber]; rfl
  previous := hprevious
  drafts := by
    intro key
    have hid : relink startId before line = fun node => node := funext hrelink
    rw [hdrafts, hid, Option.map_id', ite_self]

theorem of_update {f : Node → Node} (hrelink : ∀ node, relink startId before line node = f node)
    (hdrafts : p'.drafts = (p.updatePrevious f).drafts)
    (hpending : p'.carry.pendingLabel = line.labelName?.or p.carry.pendingLabel)
    (hprevious : p'.carry.previous = p.carry.previous)
    (hcounter : p'.carry.counter =
      p.carry.counter + if Place.takesNumber startId before line then 1 else 0) :
    p.Retells startId before line p' where
  pending := hpending
  counter := hcounter
  previous := hprevious
  drafts := by
    intro key
    have hf : relink startId before line = f := funext hrelink
    rw [hdrafts, hf]
    exact p.get?_updatePrevious f key

theorem applyLabel (p : Progress) (here : Located) (name : String) :
    p.Retells startId before (.label name) (Compile.applyLabel p here name) := by
  unfold Compile.applyLabel
  split
  · next hname => exact of_shown rfl rfl rfl rfl (if_pos hname) rfl fun _ => if_pos hname
  · next hname =>
    have hsome : (Line.label name).labelName? = some name := if_neg hname
    refine of_update (fun _ => if_neg hname) rfl ?_ ?_ ?_
    · rw [hsome]
      rfl
    · dsimp only
      rw [Progress.updatePrevious_carry]
    · dsimp only
      rw [Progress.updatePrevious_carry]
      rfl

theorem applySprite (catalog : Asset.Catalog) (p : Progress) (here : Located) (value : String) :
    (Compile.applySprite catalog p here value).carry.pendingLabel = p.carry.pendingLabel ∧
      (Compile.applySprite catalog p here value).carry.previous = p.carry.previous ∧
      (Compile.applySprite catalog p here value).carry.counter = p.carry.counter := by
  unfold Compile.applySprite
  repeat' split
  all_goals exact ⟨rfl, rfl, rfl⟩

theorem applyCommand (catalog : Asset.Catalog) (p : Progress) (here : Located)
    (command : Line.Command) :
    p.Retells startId before (.command command) (Compile.applyCommand catalog p here command) := by
  have hkeep : command.kind ≠ .returnTitle →
      ∀ node, relink startId before (.command command) node = node := fun hkind _ => if_neg hkind
  cases hkind : command.kind with
  | sprite =>
    obtain ⟨hpending, hprevious, hcounter⟩ := applySprite catalog p here command.value
    simp only [Compile.applyCommand, hkind]
    exact of_shown hpending hprevious hcounter (drafts_applySprite catalog p here command.value) rfl
      rfl (hkeep (by simp [hkind]))
  | returnTitle =>
    simp only [Compile.applyCommand, hkind]
    split
    · refine of_update (fun _ => if_pos hkind) rfl ?_ ?_ ?_
      · rw [Progress.updatePrevious_carry]
        rfl
      · rw [Progress.updatePrevious_carry]
      · rw [Progress.updatePrevious_carry]
        rfl
    · next hnone =>
      have hprevious : p.carry.previous = none := by simpa using hnone
      exact ⟨rfl, rfl, rfl, fun key => by rw [hprevious]; rfl⟩
  | _ =>
    simp only [Compile.applyCommand, hkind]
    split <;> exact of_shown rfl rfl rfl rfl rfl rfl (hkeep (by simp [hkind]))

theorem applyChoice {p : Progress}
    (hprevious : p.carry.previous.isSome = before.any Line.isDialogue)
    (hcounter : p.carry.counter = Place.counter startId before) (here : Located)
    (choice : Line.ChoiceLine) :
    p.Retells startId before (.choice choice) (Compile.applyChoice p here choice) := by
  unfold Compile.applyChoice
  split
  · next hnone =>
    have hno : p.carry.previous = none := by simpa using hnone
    have hany : before.any Line.isDialogue = false := by rw [← hprevious, hno]; rfl
    have hnumber : Place.takesNumber startId before (.choice choice) = false := by
      rw [Place.takesNumber, hany, Bool.false_and]
    exact ⟨rfl, by rw [hnumber]; rfl, rfl, fun key => by rw [hno]; rfl⟩
  · next hsome =>
    have hany : before.any Line.isDialogue = true := by
      rw [← hprevious]
      simpa [Option.isSome_iff_ne_none] using hsome
    have hnumber : Place.takesNumber startId before (.choice choice) = choice.target.isNone := by
      rw [Place.takesNumber, hany, Bool.true_and]
    have hcarry : ∀ target, (addChoice p choice.text target).carry = p.carry :=
      fun _ => p.updatePrevious_carry _
    split
    · next target htarget =>
      refine of_update ?_ rfl ?_ ?_ ?_
      · intro node
        rw [relink, Place.targetAfter, htarget]
        rfl
      · rw [hcarry]
        rfl
      · rw [hcarry]
      · rw [hcarry, hnumber, htarget]
        rfl
    · next htarget =>
      refine of_update ?_ rfl ?_ ?_ ?_
      · intro node
        rw [relink, Place.targetAfter, htarget, ← hcounter]
        rfl
      · dsimp only
        rw [hcarry]
        rfl
      · dsimp only
        rw [hcarry]
      · dsimp only
        rw [hcarry, hnumber, htarget, Option.isNone_none, if_pos rfl]

end Progress.Retells

namespace Progress.Reflects

variable {lines : List Line} {line : Line} {p p' : Progress}

/-- A node that is not replaced is still that of the last dialogue line of its identifier, also in
the text with one more line. -/
theorem drafted_extend (h : p.Reflects startId lines) {key : String} {node : Node}
    (hnode : p.drafts.get? key = some node)
    (hline : ∀ dialogue, line = .dialogue dialogue → Place.idAfter startId lines ≠ key) :
    ∃ place : Place, place.lines = lines ++ [line] ∧ place.id startId = key ∧
      place.IsLast startId ∧
      place.Describes startId
        (if p.carry.previous = some key then relink startId lines line node else node) ∧
      (place.IsLatest ↔ line.isDialogue = false ∧ p.carry.previous = some key) := by
  obtain ⟨place, hlines, hid, hlast, hdescribes, hlatest⟩ := h.drafted key node hnode
  have hextend : (place.extend line).lines = lines ++ [line] := by rw [Place.extend_lines, hlines]
  have hstill : (place.extend line).IsLast startId := by
    refine hlast.extend ?_
    rw [hlines, hid]
    exact hline
  refine ⟨place.extend line, hextend, hid, hstill, ?_⟩
  by_cases hprevious : p.carry.previous = some key
  · have hnow : place.IsLatest := hlatest.mpr hprevious
    rw [if_pos hprevious]
    refine ⟨hlines ▸ hdescribes.extend hnow line, fun hthen => ⟨?_, hprevious⟩, ?_⟩
    · exact hthen line (List.mem_append_right _ List.mem_cons_self)
    · exact fun hquiet => hnow.extend hquiet.1
  · have hpassed : ¬ place.IsLatest := fun hnow => hprevious (hlatest.mp hnow)
    obtain ⟨between, next, rest, hsplits⟩ := place.latest_or_splits.resolve_left hpassed
    rw [if_neg hprevious]
    exact ⟨hdescribes.extend_of_splits hsplits line,
      fun hthen => absurd hthen (hsplits.extend line).not_latest,
      fun hthen => absurd hthen.2 hprevious⟩

theorem retell (h : p.Reflects startId lines) (hline : line.isDialogue = false)
    (hretells : p.Retells startId lines line p') : p'.Reflects startId (lines ++ [line]) where
  pending := by
    rw [hretells.pending, h.pending, Place.pendingLabel_concat, hline]
    rfl
  counter := by rw [hretells.counter, h.counter, Place.counter_concat]
  previous := by simp [hretells.previous, h.previous, hline]
  drafted := by
    intro key node hnode
    have hquiet : ∀ dialogue, line = .dialogue dialogue → Place.idAfter startId lines ≠ key := by
      rintro dialogue rfl
      cases hline
    rw [hretells.drafts] at hnode
    obtain ⟨old, hold, rfl⟩ := Progress.exists_old hnode
    obtain ⟨place, hlines, hid, hlast, hdescribes, hlatest⟩ := h.drafted_extend hold hquiet
    refine ⟨place, hlines, hid, hlast, hdescribes, ?_⟩
    rw [hretells.previous, hlatest]
    exact and_iff_right hline
  named := by
    intro place hlines
    rcases Place.eq_extend_or_new hlines with ⟨old, hold, rfl⟩ | ⟨-, hdialogue⟩
    · rw [hretells.drafts, Progress.isSome_updated]
      exact h.named old hold
    · rw [hdialogue] at hline
      cases hline

end Progress.Reflects

theorem takeId_fst (c : Carry) :
    (takeId c).1 = c.pendingLabel.getD (nodeStem ++ toString c.counter) := by
  unfold takeId
  cases c.pendingLabel <;> rfl

theorem takeId_snd (c : Carry) :
    (takeId c).2 = { c with counter := c.counter + if c.pendingLabel.isNone then 1 else 0 } := by
  unfold takeId
  split
  · next label hlabel =>
    have hsome : c.pendingLabel.isNone = false := by rw [hlabel]; rfl
    rw [hsome]
    rfl
  · next hnone =>
    have htaken : c.pendingLabel.isNone = true := by rw [hnone]; rfl
    rw [htaken]
    rfl

theorem carry_applyDialogue (p : Progress) (here : Located) (dialogue : Line.Dialogue) :
    (applyDialogue p here dialogue).carry = (takeId p.carry).2.afterNode (takeId p.carry).1 := by
  unfold applyDialogue
  dsimp only
  split <;> simp [Progress.report]

/-- A dialogue line leads the latest node to the new one and stores that. -/
theorem get?_applyDialogue (p : Progress) (here : Located) (dialogue : Line.Dialogue)
    (key : String) :
    (applyDialogue p here dialogue).drafts.get? key =
      if (takeId p.carry).1 = key then
        some (snapshot (takeId p.carry).2 (takeId p.carry).1 dialogue)
      else if p.carry.previous = some key then
        (p.drafts.get? key).map (linkIfOpen (takeId p.carry).1)
      else p.drafts.get? key := by
  have hprevious : (takeId p.carry).2.previous = p.carry.previous := by rw [takeId_snd]
  unfold applyDialogue
  dsimp only
  split <;> simp [Progress.report, KeyedList.get?_insert, Progress.get?_updatePrevious, hprevious]

namespace Progress.Reflects

variable {lines : List Line} {p : Progress}

theorem takeId_eq (h : p.Reflects startId lines) :
    (takeId p.carry).1 = Place.idAfter startId lines := by
  rw [takeId_fst, h.pending, h.counter]
  rfl

theorem snapshot_describes (c : Carry) (id : String) (dialogue : Line.Dialogue) :
    (Place.mk lines dialogue []).Describes startId (snapshot c id dialogue) :=
  ⟨rfl, rfl, rfl, rfl⟩

theorem applyDialogue (h : p.Reflects startId lines) (here : Located) (dialogue : Line.Dialogue) :
    (Compile.applyDialogue p here dialogue).Reflects startId (lines ++ [.dialogue dialogue]) := by
  have hid := h.takeId_eq
  have hcarry := carry_applyDialogue p here dialogue
  have hget := get?_applyDialogue p here dialogue
  rw [hid] at hcarry
  rw [hid] at hget
  have hnow : (Compile.applyDialogue p here dialogue).carry.previous =
      some (Place.idAfter startId lines) := by rw [hcarry]; rfl
  refine { pending := ?pending, counter := ?counter, previous := ?previous, drafted := ?drafted,
           named := ?named }
  case pending =>
    rw [hcarry, Place.pendingLabel_concat]
    rfl
  case counter =>
    rw [hcarry, takeId_snd, Place.counter_concat, h.pending, h.counter]
    rfl
  case previous => simp [hnow, Line.isDialogue]
  case drafted =>
    intro key node hnode
    rw [hget] at hnode
    rw [hnow]
    split at hnode
    · next hkey =>
      cases hnode
      refine ⟨⟨lines, dialogue, []⟩, rfl, hkey, Place.isLast_of_after_eq_nil rfl,
        snapshot_describes _ _ dialogue, ?_⟩
      simp [hkey, Place.IsLatest]
    · next hkey =>
      obtain ⟨old, hold, rfl⟩ := Progress.exists_old hnode
      obtain ⟨place, hlines, hid, hlast, hdescribes, hlatest⟩ :=
        h.drafted_extend hold fun other _ => hkey
      refine ⟨place, hlines, hid, hlast, hdescribes, ?_⟩
      rw [hlatest]
      simp [Line.isDialogue, hkey]
  case named =>
    intro place hlines
    rw [hget]
    split
    · rfl
    · next hother =>
      rcases Place.eq_extend_or_new hlines with ⟨old, hold, rfl⟩ | ⟨hnew, -⟩
      · rw [Progress.isSome_updated]
        exact h.named old hold
      · rw [hnew] at hother
        exact absurd rfl hother

end Progress.Reflects

theorem reflects_initial (c : Compiler) : (initial c).Reflects c.startId [] where
  pending := rfl
  counter := rfl
  previous := rfl
  drafted := fun _ _ hnode => nomatch hnode
  named := fun place hlines => by simp [Place.lines] at hlines

theorem Progress.Reflects.applyLine {lines : List Line} {p : Progress}
    (h : p.Reflects startId lines) (catalog : Asset.Catalog) (here : Located) :
    (Compile.applyLine catalog p here).Reflects startId (lines ++ [here.line]) := by
  unfold Compile.applyLine Located.line
  cases Line.read here.text with
  | label name => exact h.retell rfl (.applyLabel p here name)
  | command command => exact h.retell rfl (.applyCommand catalog p here command)
  | choice choice => exact h.retell rfl (.applyChoice h.previous h.counter here choice)
  | dialogue dialogue => exact h.applyDialogue here dialogue

theorem Progress.Reflects.foldl {lines : List Line} {p : Progress} (h : p.Reflects startId lines)
    (catalog : Asset.Catalog) (more : List Located) :
    (more.foldl (Compile.applyLine catalog) p).Reflects startId
      (lines ++ more.map Located.line) := by
  induction more generalizing lines p with
  | nil => simpa using h
  | cons here rest ih => simpa using ih (h.applyLine catalog here)

def linesOf (text : String) : List Line := (locatedLines text).map Located.line

theorem reflects_run (c : Compiler) (text : String) :
    (c.run text).Reflects c.startId (linesOf text) :=
  (reflects_initial c).foldl c.catalog (locatedLines text)

end Compile

theorem Compiler.get?_empty (c : Compiler) (text : String) :
    (c.compile text).script.get? "" = none := by
  cases hnode : (c.compile text).script.get? "" with
  | none => rfl
  | some node =>
    obtain ⟨place, -, hid, -⟩ := (Compile.reflects_run c text).drafted "" node hnode
    exact absurd hid (Place.idAfter_ne_empty c.startId place.before)

/-- A compiled node says, offers and leads to what the text has at the last dialogue line that was
given its identifier. -/
theorem Compiler.nodes_tell_their_place (c : Compiler) (text : String) (id : String) (node : Node)
    (hnode : (c.compile text).script.get? id = some node) :
    ∃ place : Place, place.lines = Compile.linesOf text ∧ place.id c.startId = id ∧
      place.IsLast c.startId ∧ place.Describes c.startId node := by
  obtain ⟨place, hlines, hid, hlast, hdescribes, -⟩ :=
    (Compile.reflects_run c text).drafted id node hnode
  exact ⟨place, hlines, hid, hlast, hdescribes⟩

/-- The last line takes over the identifier of the first one. -/
def retoldText : String :=
  "Hi\nA. Stay\nB. Go >> away\n# away\nGone\n# start\nBack\nA. Rest"

def retoldNode : Node where
  id := "start"
  text := "Back"
  choices := [⟨"A. Rest", "auto_choice_1", .normal⟩]

theorem Compiler.nodes_tell_their_place_in_a_story :
    (({} : Compiler).compile retoldText).script.get? "start" = some retoldNode ∧
      ∃ place : Place, place.lines = Compile.linesOf retoldText ∧ place.id "start" = "start" ∧
        place.IsLast "start" ∧ place.Describes "start" retoldNode := by
  have hnode : (({} : Compiler).compile retoldText).script.get? "start" = some retoldNode := by
    decide +kernel
  exact ⟨hnode, Compiler.nodes_tell_their_place {} retoldText "start" retoldNode hnode⟩

end VisualNovel
