import VisualNovel.Proofs.Script.Order
import VisualNovel.Proofs.Script.Scenes

/-!
Compiled nodes show the scenes of their dialogue lines. Compilation carries the stage on from line
to line and takes a picture of it at every dialogue line; what is carried is what the cues so far
amount to. Commands that cannot be followed leave no trace in the script.
-/
namespace VisualNovel

namespace Compile

variable {catalog : Asset.Catalog} {backdrop : Option String} {startId : String}

def Carry.stage (c : Carry) : Cue → Carry
  | .background image => c.withBackground image
  | .cg image => { c with cg := some image }
  | .video file => { c with video := some file }
  | .sprite shown => c.withSprite shown
  | .clear => { c with sprites := [] }
  | .effect played => { c with effect := some played }

theorem carry_applySprite (catalog : Asset.Catalog) (p : Progress) (here : Located)
    (value : String) :
    (applySprite catalog p here value).carry =
      (Line.spriteCue? catalog value).elim p.carry p.carry.stage := by
  unfold applySprite Line.spriteCue?
  cases Line.spriteArgument value with
  | clear => rfl
  | «show» name position =>
    dsimp only
    cases catalog.resolve .sprite (some name) with
    | none => rfl
    | some image => cases position <;> rfl

theorem carry_applyCommand (catalog : Asset.Catalog) (p : Progress) (here : Located)
    (command : Line.Command) :
    (applyCommand catalog p here command).carry =
      (command.cue? catalog).elim p.carry p.carry.stage := by
  unfold applyCommand Line.Command.cue?
  cases command.kind with
  | background => dsimp only; cases catalog.resolve .background (some command.value) <;> rfl
  | sprite => exact carry_applySprite catalog p here command.value
  | cg => dsimp only; cases catalog.resolve .cg (some command.value) <;> rfl
  | video => dsimp only; cases catalog.resolve .video (some command.value) <;> rfl
  | effect => dsimp only; cases Line.effect? command.value <;> rfl
  | returnTitle =>
    dsimp only
    split
    · exact p.updatePrevious_carry _
    · rfl

theorem Carry.visibleSprites_eq (c : Carry) :
    c.visibleSprites = if c.cg.any (!·.isEmpty) then [] else c.sprites := by
  unfold Carry.visibleSprites
  cases c.cg with
  | none => rfl
  | some image => cases hempty : image.isEmpty <;> simp [hempty]

section Stage
variable (catalog backdrop)

/-- The stage is what the cues among some lines amount to. -/
structure Carry.Stages (lines : List Line) (c : Carry) : Prop where
  background : c.background = (Cue.latest Cue.background? (Place.cues catalog lines)).or
    (catalog.resolve .background backdrop)
  cg : c.cg = Cue.standing Cue.cg? Cue.endsCg (Place.cues catalog lines)
  video : c.video =
    Cue.standing Cue.video? Cue.endsVideo (Place.cues catalog (Place.sinceDialogue lines))
  sprites : c.sprites =
    (Cue.standing Cue.sprite? Cue.endsSprite (Place.cues catalog lines)).toList
  effect : c.effect =
    Cue.latest Cue.effect? (Place.cues catalog (Place.sinceDialogue lines))

end Stage

namespace Carry.Stages

variable {lines : List Line} {line : Line} {c c' : Carry}

theorem initial (c : Compiler) :
    (Compile.initial c).carry.Stages c.catalog c.defaultBackground [] :=
  ⟨rfl, rfl, rfl, rfl, rfl⟩

theorem of_same (h : c.Stages catalog backdrop lines) (hbackground : c'.background = c.background)
    (hcg : c'.cg = c.cg) (hvideo : c'.video = c.video) (hsprites : c'.sprites = c.sprites)
    (heffect : c'.effect = c.effect) : c'.Stages catalog backdrop lines :=
  ⟨hbackground.trans h.background, hcg.trans h.cg, hvideo.trans h.video,
    hsprites.trans h.sprites, heffect.trans h.effect⟩

theorem stage (h : c.Stages catalog backdrop lines) {cue : Cue}
    (hcue : line.cue? catalog = some cue) :
    (c.stage cue).Stages catalog backdrop (lines ++ [line]) := by
  have hline : line.isDialogue = false := by
    cases line with
    | dialogue said => cases hcue
    | _ => rfl
  have hall : Place.cues catalog (lines ++ [line]) = Place.cues catalog lines ++ [cue] := by
    rw [Place.cues_concat, hcue, Option.toList_some]
  have hlatest : Place.cues catalog (Place.sinceDialogue (lines ++ [line])) =
      Place.cues catalog (Place.sinceDialogue lines) ++ [cue] := by
    rw [Place.sinceDialogue_concat, hline, if_neg Bool.false_ne_true, Place.cues_concat, hcue,
      Option.toList_some]
  constructor
  · rw [hall, Cue.latest_concat, Option.or_assoc, ← h.background]
    cases cue <;> rfl
  · rw [hall, Cue.standing_concat, ← h.cg]
    cases cue <;> rfl
  · rw [hlatest, Cue.standing_concat, ← h.video]
    cases cue <;> rfl
  · rw [hall, Cue.standing_concat, apply_ite Option.toList, ← h.sprites]
    cases cue <;> rfl
  · rw [hlatest, Cue.latest_concat, ← h.effect]
    cases cue <;> rfl

theorem keep (h : c.Stages catalog backdrop lines) (hline : line.isDialogue = false)
    (hcue : line.cue? catalog = none) : c.Stages catalog backdrop (lines ++ [line]) := by
  have hall : Place.cues catalog (lines ++ [line]) = Place.cues catalog lines := by
    rw [Place.cues_concat, hcue, Option.toList_none, List.append_nil]
  have hlatest : Place.cues catalog (Place.sinceDialogue (lines ++ [line])) =
      Place.cues catalog (Place.sinceDialogue lines) := by
    rw [Place.sinceDialogue_concat, hline, if_neg Bool.false_ne_true, Place.cues_concat, hcue,
      Option.toList_none, List.append_nil]
  exact ⟨hall ▸ h.background, hall ▸ h.cg, hlatest ▸ h.video, hall ▸ h.sprites,
    hlatest ▸ h.effect⟩

theorem afterNode (h : c.Stages catalog backdrop lines) (id : String) (dialogue : Line.Dialogue) :
    (c.afterNode id).Stages catalog backdrop (lines ++ [.dialogue dialogue]) := by
  have hall : Place.cues catalog (lines ++ [.dialogue dialogue]) = Place.cues catalog lines := by
    rw [Place.cues_concat]
    exact List.append_nil _
  have hlatest : Place.sinceDialogue (lines ++ [.dialogue dialogue]) = [] := by
    rw [Place.sinceDialogue_concat]
    rfl
  refine ⟨hall ▸ h.background, hall ▸ h.cg, ?_, hall ▸ h.sprites, ?_⟩
  · rw [hlatest]
    rfl
  · rw [hlatest]
    rfl

theorem scene_snapshot {place : Place} (h : c.Stages catalog backdrop place.before) (id : String)
    (dialogue : Line.Dialogue) :
    (snapshot c id dialogue).scene = place.scene catalog backdrop := by
  unfold Place.scene
  dsimp only
  rw [← h.background, ← h.cg, ← h.video, ← h.sprites, ← h.effect, ← c.visibleSprites_eq]
  rfl

end Carry.Stages

theorem scene_linkIfOpen (target : String) (node : Node) :
    (linkIfOpen target node).scene = node.scene := by
  unfold linkIfOpen
  split <;> rfl

theorem scene_relink (before : List Line) (line : Line) (node : Node) :
    (relink startId before line node).scene = node.scene := by
  unfold relink
  cases line with
  | label name =>
    dsimp only
    split
    · rfl
    · exact scene_linkIfOpen name node
  | command command => dsimp only; split <;> rfl
  | choice choice => rfl
  | dialogue dialogue => exact scene_linkIfOpen _ node

end Compile

namespace Place

variable {startId : String}

theorem IsLast.of_extend {p : Place} {line : Line} (h : (p.extend line).IsLast startId) :
    p.IsLast startId := by
  intro q hq hlater
  have hlines : (q.extend line).lines = (p.extend line).lines := by
    rw [extend_lines, extend_lines, hq]
  exact h (q.extend line) hlines hlater

/-- The identifier of a last dialogue line is not given to the next one. -/
theorem IsLast.idAfter_ne {p : Place} {dialogue : Line.Dialogue}
    (h : (p.extend (.dialogue dialogue)).IsLast startId) :
    idAfter startId p.lines ≠ p.id startId := by
  refine h ⟨p.lines, dialogue, []⟩ (by rw [extend_lines]; rfl) ?_
  change p.before.length < p.lines.length
  simp [lines]

end Place

namespace Compile

variable {catalog : Asset.Catalog} {backdrop : Option String} {startId : String}

section Pictures
variable (catalog backdrop startId)

/-- The stage is right, and so are all the pictures that were taken of it. -/
structure Progress.Pictures (lines : List Line) (p : Progress) : Prop where
  carry : p.carry.Stages catalog backdrop lines
  drafted : ∀ place : Place, place.lines = lines → place.IsLast startId →
    ∃ node, p.drafts.get? (place.id startId) = some node ∧
      node.scene = place.scene catalog backdrop

end Pictures

namespace Progress.Pictures

variable {lines : List Line} {line : Line} {p p' : Progress}

theorem retell (h : p.Pictures catalog backdrop startId lines) (hline : line.isDialogue = false)
    (hcarry : p'.carry.Stages catalog backdrop (lines ++ [line]))
    (hretells : p.Retells startId lines line p') :
    p'.Pictures catalog backdrop startId (lines ++ [line]) where
  carry := hcarry
  drafted := by
    intro place hlines hlast
    rcases Place.eq_extend_or_new hlines with ⟨old, hold, rfl⟩ | ⟨-, hdialogue⟩
    · obtain ⟨node, hnode, hscene⟩ := h.drafted old hold hlast.of_extend
      have hnode' : p.drafts.get? ((old.extend line).id startId) = some node := hnode
      rw [hretells.drafts, hnode']
      split
      · exact ⟨_, rfl, (scene_relink lines line node).trans hscene⟩
      · exact ⟨node, rfl, hscene⟩
    · rw [hdialogue] at hline
      cases hline

theorem applyDialogue (h : p.Pictures catalog backdrop startId lines)
    (hreflects : p.Reflects startId lines) (here : Located) (dialogue : Line.Dialogue) :
    (Compile.applyDialogue p here dialogue).Pictures catalog backdrop startId
      (lines ++ [.dialogue dialogue]) := by
  have hid := hreflects.takeId_eq
  have hget := get?_applyDialogue p here dialogue
  rw [hid] at hget
  have hstages : (takeId p.carry).2.Stages catalog backdrop lines := by
    rw [takeId_snd]
    exact h.carry.of_same rfl rfl rfl rfl rfl
  refine ⟨?_, ?_⟩
  · rw [carry_applyDialogue]
    exact hstages.afterNode _ dialogue
  · intro place hlines hlast
    rcases Place.eq_extend_or_new hlines with ⟨old, hold, rfl⟩ | ⟨hnew, -⟩
    · obtain ⟨node, hnode, hscene⟩ := h.drafted old hold hlast.of_extend
      have hother : Place.idAfter startId lines ≠ (old.extend (.dialogue dialogue)).id startId :=
        hold ▸ hlast.idAfter_ne
      have hnode' : p.drafts.get? ((old.extend (.dialogue dialogue)).id startId) = some node :=
        hnode
      rw [hget, if_neg hother, hnode']
      split
      · exact ⟨_, rfl, (scene_linkIfOpen _ node).trans hscene⟩
      · exact ⟨node, rfl, hscene⟩
    · have hbefore : place.before = lines := by rw [hnew]
      have hsame : Place.idAfter startId lines = place.id startId := by rw [← hbefore]; rfl
      rw [hget, if_pos hsame]
      exact ⟨_, rfl, Carry.Stages.scene_snapshot (hbefore ▸ hstages) _ dialogue⟩

theorem applyLabel (h : p.Pictures catalog backdrop startId lines) (here : Located)
    (name : String) :
    (Compile.applyLabel p here name).Pictures catalog backdrop startId
      (lines ++ [.label name]) := by
  refine h.retell rfl ?_ (.applyLabel p here name)
  have hkept : p.carry.Stages catalog backdrop (lines ++ [.label name]) := h.carry.keep rfl rfl
  unfold Compile.applyLabel
  split
  · exact hkept
  · dsimp only
    rw [Progress.updatePrevious_carry]
    exact hkept.of_same rfl rfl rfl rfl rfl

theorem applyCommand (h : p.Pictures catalog backdrop startId lines) (here : Located)
    (command : Line.Command) :
    (Compile.applyCommand catalog p here command).Pictures catalog backdrop startId
      (lines ++ [.command command]) := by
  refine h.retell rfl ?_ (.applyCommand catalog p here command)
  rw [carry_applyCommand]
  cases hcue : command.cue? catalog with
  | none => exact h.carry.keep rfl hcue
  | some cue => exact h.carry.stage hcue

theorem applyChoice (h : p.Pictures catalog backdrop startId lines)
    (hreflects : p.Reflects startId lines) (here : Located) (choice : Line.ChoiceLine) :
    (Compile.applyChoice p here choice).Pictures catalog backdrop startId
      (lines ++ [.choice choice]) := by
  refine h.retell rfl ?_ (.applyChoice hreflects.previous hreflects.counter here choice)
  have hkept : p.carry.Stages catalog backdrop (lines ++ [.choice choice]) :=
    h.carry.keep rfl rfl
  have hcarry : ∀ target, (addChoice p choice.text target).carry = p.carry :=
    fun _ => p.updatePrevious_carry _
  unfold Compile.applyChoice
  split
  · exact hkept
  · split
    · rw [hcarry]
      exact hkept
    · dsimp only
      rw [hcarry]
      exact hkept.of_same rfl rfl rfl rfl rfl

theorem applyLine (h : p.Pictures catalog backdrop startId lines)
    (hreflects : p.Reflects startId lines) (here : Located) :
    (Compile.applyLine catalog p here).Pictures catalog backdrop startId
      (lines ++ [here.line]) := by
  unfold Compile.applyLine Located.line
  cases Line.read here.text with
  | label name => exact h.applyLabel here name
  | command command => exact h.applyCommand here command
  | choice choice => exact h.applyChoice hreflects here choice
  | dialogue dialogue => exact h.applyDialogue hreflects here dialogue

theorem foldl (h : p.Pictures catalog backdrop startId lines)
    (hreflects : p.Reflects startId lines) (more : List Located) :
    (more.foldl (Compile.applyLine catalog) p).Pictures catalog backdrop startId
      (lines ++ more.map Located.line) := by
  induction more generalizing lines p with
  | nil => simpa using h
  | cons here rest ih =>
    simpa using ih (h.applyLine hreflects here) (hreflects.applyLine catalog here)

end Progress.Pictures

theorem pictures_initial (c : Compiler) :
    (initial c).Pictures c.catalog c.defaultBackground c.startId [] where
  carry := .initial c
  drafted := fun place hlines => by simp [Place.lines] at hlines

theorem pictures_run (c : Compiler) (text : String) :
    (c.run text).Pictures c.catalog c.defaultBackground c.startId (linesOf text) :=
  (pictures_initial c).foldl (reflects_initial c) (locatedLines text)

/-- A node tells and shows the last dialogue line of its identifier. -/
theorem exists_place (c : Compiler) (text : String) {id : String} {node : Node}
    (hnode : (c.run text).drafts.get? id = some node) :
    ∃ place : Place, place.lines = linesOf text ∧ place.id c.startId = id ∧
      place.IsLast c.startId ∧ place.Describes c.startId node ∧
      node.scene = place.scene c.catalog c.defaultBackground := by
  obtain ⟨place, hlines, hid, hlast, hdescribes, -⟩ := (reflects_run c text).drafted id node hnode
  obtain ⟨shown, hshown, hscene⟩ := (pictures_run c text).drafted place hlines hlast
  rw [hid, hnode, Option.some.injEq] at hshown
  exact ⟨place, hlines, hid, hlast, hdescribes, hshown ▸ hscene⟩

namespace Progress

/-- The same script so far, and the same to carry on. What was reported may differ. -/
structure Alike (p q : Progress) : Prop where
  carry : p.carry = q.carry
  drafts : p.drafts = q.drafts

theorem Alike.refl (p : Progress) : p.Alike p := ⟨rfl, rfl⟩

theorem Alike.trans {p q r : Progress} (h : p.Alike q) (h' : q.Alike r) : p.Alike r :=
  ⟨h.carry.trans h'.carry, h.drafts.trans h'.drafts⟩

theorem Alike.updatePrevious {p q : Progress} (h : p.Alike q) (f : Node → Node) :
    (p.updatePrevious f).Alike (q.updatePrevious f) := by
  unfold Progress.updatePrevious
  rw [h.carry]
  cases q.carry.previous with
  | none => exact h
  | some id => exact ⟨rfl, congrArg (·.modify id f) h.drafts⟩

end Progress

theorem drafts_applyCommand (catalog : Asset.Catalog) (p : Progress) (here : Located)
    (command : Line.Command) :
    (applyCommand catalog p here command).drafts =
      if command.kind = .returnTitle then
        (p.updatePrevious fun n => { n with next := some endTarget }).drafts
      else p.drafts := by
  cases hkind : command.kind with
  | sprite =>
    simp only [applyCommand, hkind]
    exact drafts_applySprite catalog p here command.value
  | returnTitle =>
    simp only [applyCommand, hkind]
    unfold Progress.updatePrevious
    cases hprevious : p.carry.previous <;> simp [Progress.report]
  | _ =>
    simp only [applyCommand, hkind]
    split <;> rfl

theorem drafts_applyDialogue (p : Progress) (here : Located) (dialogue : Line.Dialogue) :
    (applyDialogue p here dialogue).drafts =
      (({ p with carry := (takeId p.carry).2 } : Progress).updatePrevious
        (linkIfOpen (takeId p.carry).1)).drafts.insert (takeId p.carry).1
          (snapshot (takeId p.carry).2 (takeId p.carry).1 dialogue) := by
  unfold applyDialogue
  dsimp only
  split <;> simp [Progress.report]

namespace Progress.Alike

variable {p q : Progress}

theorem applyLabel (h : p.Alike q) (here there : Located) (name : String) :
    (Compile.applyLabel p here name).Alike (Compile.applyLabel q there name) := by
  unfold Compile.applyLabel
  by_cases hname : name.isEmpty = true
  · rw [if_pos hname, if_pos hname]
    exact ⟨h.carry, h.drafts⟩
  · rw [if_neg hname, if_neg hname]
    have hupdated := h.updatePrevious (linkIfOpen name)
    exact ⟨congrArg (fun c : Carry => { c with pendingLabel := some name }) hupdated.carry,
      hupdated.drafts⟩

theorem applyCommand (h : p.Alike q) (catalog : Asset.Catalog) (here there : Located)
    (command : Line.Command) :
    (Compile.applyCommand catalog p here command).Alike
      (Compile.applyCommand catalog q there command) where
  carry := by rw [carry_applyCommand, carry_applyCommand, h.carry]
  drafts := by rw [drafts_applyCommand, drafts_applyCommand, (h.updatePrevious _).drafts, h.drafts]

theorem applyChoice (h : p.Alike q) (here there : Located) (choice : Line.ChoiceLine) :
    (Compile.applyChoice p here choice).Alike (Compile.applyChoice q there choice) := by
  unfold Compile.applyChoice
  rw [h.carry]
  split
  · exact ⟨h.carry, h.drafts⟩
  · cases choice.target with
    | some target => exact h.updatePrevious _
    | none =>
      have hupdated : (addChoice p choice.text
          (choiceTargetStem ++ toString q.carry.counter)).Alike
          (addChoice q choice.text (choiceTargetStem ++ toString q.carry.counter)) :=
        h.updatePrevious _
      exact ⟨congrArg (fun c : Carry => { c with counter := c.counter + 1 }) hupdated.carry,
        hupdated.drafts⟩

theorem applyDialogue (h : p.Alike q) (here there : Located) (dialogue : Line.Dialogue) :
    (Compile.applyDialogue p here dialogue).Alike (Compile.applyDialogue q there dialogue) where
  carry := by rw [carry_applyDialogue, carry_applyDialogue, h.carry]
  drafts := by
    have hnamed : ({ p with carry := (takeId p.carry).2 } : Progress).Alike
        { q with carry := (takeId p.carry).2 } := ⟨rfl, h.drafts⟩
    rw [drafts_applyDialogue, drafts_applyDialogue, (hnamed.updatePrevious _).drafts, h.carry]

/-- Where a line stands, and how it is spelled, makes no difference to the script. -/
theorem applyLine (h : p.Alike q) (catalog : Asset.Catalog) {here there : Located}
    (hline : here.line = there.line) :
    (Compile.applyLine catalog p here).Alike (Compile.applyLine catalog q there) := by
  unfold Located.line at hline
  unfold Compile.applyLine
  rw [hline]
  cases Line.read there.text with
  | label name => exact h.applyLabel here there name
  | command command => exact h.applyCommand catalog here there command
  | choice choice => exact h.applyChoice here there choice
  | dialogue dialogue => exact h.applyDialogue here there dialogue

theorem foldl (h : p.Alike q) (catalog : Asset.Catalog) {lines lines' : List Located}
    (hlines : lines.map Located.line = lines'.map Located.line) :
    (lines.foldl (Compile.applyLine catalog) p).Alike
      (lines'.foldl (Compile.applyLine catalog) q) := by
  induction lines generalizing lines' p q with
  | nil =>
    rw [List.map_nil, eq_comm, List.map_eq_nil_iff] at hlines
    rw [hlines]
    exact h
  | cons here rest ih =>
    obtain ⟨there, rest', rfl, hthere, hrest⟩ := List.map_eq_cons_iff.mp hlines.symm
    exact ih (h.applyLine catalog hthere.symm) hrest.symm

end Progress.Alike

theorem alike_of_isIdle {catalog : Asset.Catalog} (p : Progress) {here : Located}
    (hidle : here.line.isIdle catalog = true) : (applyLine catalog p here).Alike p := by
  unfold applyLine
  unfold Located.line at hidle
  cases hread : Line.read here.text with
  | command command =>
    rw [hread] at hidle
    simp only [Line.isIdle, Bool.and_eq_true, bne_iff_ne, ne_eq, Option.isNone_iff_eq_none] at hidle
    refine ⟨?_, ?_⟩
    · dsimp only
      rw [carry_applyCommand, hidle.2]
      rfl
    · exact (drafts_applyCommand catalog p here command).trans (if_neg hidle.1)
  | _ =>
    rw [hread] at hidle
    cases hidle

theorem alike_filter (catalog : Asset.Catalog) (lines : List Located) (p : Progress) :
    (lines.foldl (applyLine catalog) p).Alike
      ((lines.filter fun here => !here.line.isIdle catalog).foldl (applyLine catalog) p) := by
  induction lines generalizing p with
  | nil => exact .refl p
  | cons here rest ih =>
    cases hidle : here.line.isIdle catalog with
    | true =>
      rw [List.filter_cons_of_neg (by simp [hidle])]
      exact ((alike_of_isIdle p hidle).foldl catalog rfl).trans (ih p)
    | false =>
      rw [List.filter_cons_of_pos (by simp [hidle])]
      exact ih (applyLine catalog p here)

theorem filter_linesOf (catalog : Asset.Catalog) (text : String) :
    (linesOf text).filter (fun line => !line.isIdle catalog) =
      ((locatedLines text).filter fun here => !here.line.isIdle catalog).map Located.line := by
  unfold linesOf
  rw [List.filter_map]
  rfl

end Compile

namespace Compiler

/-- What a compilation has come to after so many lines. -/
def runUpTo (c : Compiler) (text : String) (count : Nat) : Compile.Progress :=
  ((Compile.locatedLines text).take count).foldl (Compile.applyLine c.catalog) (Compile.initial c)

theorem reflects_runUpTo (c : Compiler) (text : String) (count : Nat) :
    (c.runUpTo text count).Reflects c.startId ((Compile.linesOf text).take count) := by
  have hread := (Compile.reflects_initial c).foldl c.catalog
    ((Compile.locatedLines text).take count)
  rw [List.nil_append, List.map_take] at hread
  exact hread

theorem pictures_runUpTo (c : Compiler) (text : String) (count : Nat) :
    (c.runUpTo text count).Pictures c.catalog c.defaultBackground c.startId
      ((Compile.linesOf text).take count) := by
  have hread := (Compile.pictures_initial c).foldl (Compile.reflects_initial c)
    ((Compile.locatedLines text).take count)
  rw [List.nil_append, List.map_take] at hread
  exact hread

/-- Every dialogue line makes a node that shows the scene of the line. -/
theorem exists_made (c : Compiler) {text : String} {place : Place}
    (hlines : place.lines = Compile.linesOf text) :
    ∃ made, (c.runUpTo text (place.before.length + 1)).drafts.get? (place.id c.startId) =
        some made ∧
      made.dialogue = place.dialogue ∧ made.scene = place.scene c.catalog c.defaultBackground := by
  have hread : (Compile.linesOf text).take (place.before.length + 1) =
      (Place.mk place.before place.dialogue []).lines := by
    rw [← hlines, Place.lines, List.take_append, List.take_of_length_le (Nat.le_succ _)]
    simp [Place.lines]
  have hreflects := c.reflects_runUpTo text (place.before.length + 1)
  have hpictures := c.pictures_runUpTo text (place.before.length + 1)
  rw [hread] at hreflects hpictures
  have hlast : (Place.mk place.before place.dialogue []).IsLast c.startId :=
    Place.isLast_of_after_eq_nil rfl
  obtain ⟨made, hmade, hscene⟩ := hpictures.drafted _ rfl hlast
  obtain ⟨other, hother, hid, hotherLast, hdescribes, -⟩ := hreflects.drafted _ made hmade
  have hsame := hotherLast.unique hlast hother hid
  rw [hsame] at hdescribes
  exact ⟨made, hmade, hdescribes.dialogue_eq, hscene⟩

/-- The node that a dialogue line makes shows the scene of the line, and so does every node of the
script: its line is the last one of its identifier. Texts that differ only in commands that cannot
be followed have the same script. -/
theorem nodes_show_their_scene (c : Compiler) (text : String) :
    (∀ place : Place, place.lines = Compile.linesOf text →
        ∃ made, (c.runUpTo text (place.before.length + 1)).drafts.get? (place.id c.startId) =
            some made ∧
          made.dialogue = place.dialogue ∧
          made.scene = place.scene c.catalog c.defaultBackground) ∧
      (∀ place : Place, place.lines = Compile.linesOf text → place.IsLast c.startId →
        ∃ node, (c.compile text).script.get? (place.id c.startId) = some node ∧
          node.scene = place.scene c.catalog c.defaultBackground) ∧
      (∀ id node, (c.compile text).script.get? id = some node →
        ∃ place : Place, place.lines = Compile.linesOf text ∧ place.id c.startId = id ∧
          place.IsLast c.startId ∧ node.scene = place.scene c.catalog c.defaultBackground) ∧
      ∀ other : String,
        (Compile.linesOf other).filter (fun line => !line.isIdle c.catalog) =
          (Compile.linesOf text).filter (fun line => !line.isIdle c.catalog) →
        (c.compile other).script = (c.compile text).script := by
  have hpictures := Compile.pictures_run c text
  refine ⟨fun place hlines => c.exists_made hlines, hpictures.drafted, ?_, ?_⟩
  · intro id node hnode
    obtain ⟨place, hlines, hid, hlast, -, hscene⟩ := Compile.exists_place c text hnode
    exact ⟨place, hlines, hid, hlast, hscene⟩
  · intro other hsame
    rw [Compile.filter_linesOf, Compile.filter_linesOf] at hsame
    have hother := Compile.alike_filter c.catalog (Compile.locatedLines other) (Compile.initial c)
    have htext := Compile.alike_filter c.catalog (Compile.locatedLines text) (Compile.initial c)
    have hboth := (Compile.Progress.Alike.refl (Compile.initial c)).foldl c.catalog hsame
    have hdrafts : (c.run other).drafts = (c.run text).drafts :=
      hother.drafts.trans (hboth.drafts.trans htext.drafts.symm)
    exact congrArg (fun drafts => Script.mk drafts c.startId) hdrafts

/-- A place, a character and a dream in front of them. -/
def stagedCompiler : Compiler where
  catalog :=
    (((Asset.Catalog.empty.add .background "a" "town.png").add .sprite "b" "hero.png").add
      .cg "c" "dream.png").add .video "d" "film.mp4"

def stagedText (more : String) : String :=
  "【bg:a】\n【sprite:b left】\nHi\n【cg:c】\n【video:d】\n" ++ more ++ "Yo"

def stagedPlace : Place where
  before := [.command ⟨.background, "a"⟩, .command ⟨.sprite, "b left"⟩, .dialogue ⟨none, "Hi"⟩,
    .command ⟨.cg, "c"⟩, .command ⟨.video, "d"⟩]
  dialogue := ⟨none, "Yo"⟩
  after := []

theorem linesOf_stagedText : Compile.linesOf (stagedText "") = stagedPlace.lines := by
  decide +kernel

theorem linesOf_stagedText_nowhere :
    Compile.linesOf (stagedText "【bg:e】\n") =
      stagedPlace.before ++ [.command ⟨.background, "e"⟩, .dialogue ⟨none, "Yo"⟩] := by
  decide +kernel

/-- A place that is known would end the dream and the film; this one is not known. -/
theorem nodes_show_their_scene_in_a_story :
    stagedPlace.lines = Compile.linesOf (stagedText "") ∧ stagedPlace.IsLast "start" ∧
      (∃ node, (stagedCompiler.compile (stagedText "")).script.get? "node_0" = some node ∧
        node.scene = ⟨some "town.png", some "dream.png", some "film.mp4", [], none⟩) ∧
      (stagedCompiler.compile (stagedText "【bg:e】\n")).script =
        (stagedCompiler.compile (stagedText "")).script := by
  have hlast : stagedPlace.IsLast "start" := Place.isLast_of_after_eq_nil rfl
  have hid : stagedPlace.id "start" = "node_0" := by decide +kernel
  have hscene : stagedPlace.scene stagedCompiler.catalog none =
      ⟨some "town.png", some "dream.png", some "film.mp4", [], none⟩ := by decide +kernel
  have hidle : (Line.command ⟨.background, "e"⟩).isIdle stagedCompiler.catalog = true := by
    decide +kernel
  have hsameLines : (Compile.linesOf (stagedText "【bg:e】\n")).filter
      (fun line => !line.isIdle stagedCompiler.catalog) =
        (Compile.linesOf (stagedText "")).filter
          (fun line => !line.isIdle stagedCompiler.catalog) := by
    rw [linesOf_stagedText_nowhere, linesOf_stagedText, Place.lines, List.filter_append,
      List.filter_append, List.filter_cons_of_neg (by simp [hidle])]
    rfl
  obtain ⟨-, hshown, -, hsame⟩ := nodes_show_their_scene stagedCompiler (stagedText "")
  obtain ⟨node, hnode, hnodeScene⟩ := hshown stagedPlace linesOf_stagedText.symm hlast
  have hget : (stagedCompiler.compile (stagedText "")).script.get? "node_0" = some node :=
    hid ▸ hnode
  exact ⟨linesOf_stagedText.symm, hlast, ⟨node, hget, hnodeScene.trans hscene⟩,
    hsame _ hsameLines⟩

end Compiler

end VisualNovel
