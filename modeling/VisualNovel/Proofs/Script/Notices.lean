import VisualNovel.Proofs.Script.Links

/-!
What is reported about lines. There is one report about a line at most, and it gives the number and
the text of the line. Whether there is one depends on what the line says and on the lines before it,
but not on what was reported about these. Most lines that are reported do nothing else.
-/
namespace VisualNovel.Compile

def duplicateCode : String := "duplicate-node-id"

/-- What there is to say about a line, wherever it stands. -/
structure Notice where
  code : String
  message : String

namespace Notice

def about (n : Notice) (here : Located) : Diagnostic := warning here n.code n.message

def emptyLabel : Notice := ⟨"empty-label", "Label has no name"⟩

def unresolved (category : Asset.Category) (name : String) : Notice :=
  ⟨"unresolved-asset", s!"Unknown {category.name} asset '{name}' ignored"⟩

def unknownPosition : Notice :=
  ⟨"unknown-sprite-position", "Unknown sprite position, using center"⟩

def unknownEffect (value : String) : Notice :=
  ⟨"unknown-effect", s!"Unknown effect '{value}' ignored"⟩

def orphanReturn : Notice :=
  ⟨"orphan-return-title", "Return-to-title before any dialogue line was ignored"⟩

def orphanChoice : Notice := ⟨"orphan-choice", "Choice before any dialogue line was dropped"⟩

def repeated (id : String) : Notice :=
  ⟨duplicateCode, s!"Node '{id}' redefined; the later definition wins"⟩

end Notice

/-- The reports about lines that are ignored. -/
def ignoredCodes : List String :=
  ["empty-label", "orphan-choice", "orphan-return-title", "unresolved-asset", "unknown-effect"]

section Notices
variable (catalog : Asset.Catalog)

def assetNotice? (category : Asset.Category) (name : String) : Option Notice :=
  if (catalog.resolve category (some name)).isNone then some (.unresolved category name) else none

def spriteNotice? (value : String) : Option Notice :=
  match Line.spriteArgument value with
  | .clear => none
  | .show name position =>
      (assetNotice? catalog .sprite name).or
        (if position.isNone then some .unknownPosition else none)

def commandNotice? (p : Progress) (command : Line.Command) : Option Notice :=
  match command.kind with
  | .background => assetNotice? catalog .background command.value
  | .sprite => spriteNotice? catalog command.value
  | .cg => assetNotice? catalog .cg command.value
  | .video => assetNotice? catalog .video command.value
  | .effect =>
      if (Line.effect? command.value).isNone then some (.unknownEffect command.value) else none
  | .returnTitle => if p.carry.previous.isNone then some .orphanReturn else none

/-- What there is to say about a line that comes after others. -/
def notice? (p : Progress) : Line → Option Notice
  | .label name => if name.isEmpty then some .emptyLabel else none
  | .command command => commandNotice? catalog p command
  | .choice _ => if p.carry.previous.isNone then some .orphanChoice else none
  | .dialogue _ =>
      if (takeId p.carry).1 ∈ p.drafts.keys then some (.repeated (takeId p.carry).1) else none

end Notices

/-- What is said about a line is reported once more. A line that is ignored does nothing else. -/
structure Progress.Notes (here : Located) (n : Option Notice) (p p' : Progress) : Prop where
  found : p'.found = p.found ++ (n.map (·.about here)).toList
  ignored : ∀ m, n = some m → m.code ∈ ignoredCodes → p' = p.report here m.code m.message

namespace Progress.Notes

variable {here : Located} {p p' : Progress}

theorem silent (hfound : p'.found = p.found) : p.Notes here none p' where
  found := hfound.trans (List.append_nil _).symm
  ignored := fun _ hnone => nomatch hnone

theorem alone (n : Notice) : p.Notes here (some n) (p.report here n.code n.message) where
  found := rfl
  ignored := fun _ hsome _ => Option.some.inj hsome ▸ rfl

theorem besides {n : Notice} (hcode : n.code ∉ ignoredCodes)
    (hfound : p'.found = p.found ++ [n.about here]) : p.Notes here (some n) p' where
  found := hfound
  ignored := fun _ hsome hignored => absurd (Option.some.inj hsome ▸ hignored) hcode

end Progress.Notes

theorem found_updatePrevious (p : Progress) (f : Node → Node) :
    (p.updatePrevious f).found = p.found := by
  unfold Progress.updatePrevious
  split <;> rfl

theorem keys_updatePrevious (p : Progress) (f : Node → Node) :
    (p.updatePrevious f).drafts.keys = p.drafts.keys := by
  unfold Progress.updatePrevious
  split
  · exact KeyedList.keys_modify _ _ _
  · rfl

theorem notes_applyLabel (p : Progress) (here : Located) (name : String) :
    p.Notes here (if name.isEmpty then some .emptyLabel else none) (applyLabel p here name) := by
  unfold applyLabel
  split
  · exact .alone .emptyLabel
  · exact .silent (found_updatePrevious p _)

/-- A file is put to use if the catalogue has it. -/
theorem notes_asset {catalog : Asset.Catalog} {p p' : Progress} {here : Located}
    {category : Asset.Category} {name : String}
    (hmissing : catalog.resolve category (some name) = none →
      p' = unknownAsset p here category name)
    (hfound : ∀ file, catalog.resolve category (some name) = some file → p'.found = p.found) :
    p.Notes here (assetNotice? catalog category name) p' := by
  unfold assetNotice?
  cases hresolve : catalog.resolve category (some name) with
  | none =>
    rw [hmissing hresolve]
    exact .alone (.unresolved category name)
  | some file => exact .silent (hfound file hresolve)

theorem notes_applySprite (catalog : Asset.Catalog) (p : Progress) (here : Located)
    (value : String) :
    p.Notes here (spriteNotice? catalog value) (applySprite catalog p here value) := by
  unfold applySprite spriteNotice? assetNotice?
  cases Line.spriteArgument value with
  | clear => exact .silent rfl
  | «show» name position =>
    dsimp only
    cases catalog.resolve .sprite (some name) with
    | none => exact .alone (.unresolved .sprite name)
    | some image =>
      cases position with
      | some position => exact .silent rfl
      | none =>
        have hcode : Notice.unknownPosition.code ∉ ignoredCodes := by decide
        exact .besides hcode rfl

theorem notes_applyCommand (catalog : Asset.Catalog) (p : Progress) (here : Located)
    (command : Line.Command) :
    p.Notes here (commandNotice? catalog p command) (applyCommand catalog p here command) := by
  unfold applyCommand commandNotice?
  cases command.kind with
  | background => exact notes_asset (fun h => by rw [h]) fun _ h => by rw [h]
  | sprite => exact notes_applySprite catalog p here command.value
  | cg => exact notes_asset (fun h => by rw [h]) fun _ h => by rw [h]
  | video => exact notes_asset (fun h => by rw [h]) fun _ h => by rw [h]
  | effect =>
    dsimp only
    cases Line.effect? command.value with
    | none => exact .alone (.unknownEffect command.value)
    | some effect => exact .silent rfl
  | returnTitle =>
    dsimp only
    cases p.carry.previous with
    | none => exact .alone .orphanReturn
    | some id => exact .silent (found_updatePrevious p _)

theorem notes_applyChoice (p : Progress) (here : Located) (choice : Line.ChoiceLine) :
    p.Notes here (if p.carry.previous.isNone then some .orphanChoice else none)
      (applyChoice p here choice) := by
  unfold applyChoice
  split
  · exact .alone .orphanChoice
  · cases choice.target <;> exact .silent (found_updatePrevious p _)

/-- The identifier of a dialogue line has come up before exactly if it still is a key when the line
before has been linked to it. -/
theorem contains_updatePrevious (p : Progress) (carry : Carry) (f : Node → Node) (id : String) :
    (({ p with carry } : Progress).updatePrevious f).drafts.contains id = true ↔
      id ∈ p.drafts.keys := by
  unfold KeyedList.contains
  rw [KeyedList.isSome_get?_iff, keys_updatePrevious]

theorem notes_applyDialogue (p : Progress) (here : Located) (dialogue : Line.Dialogue) :
    p.Notes here
      (if (takeId p.carry).1 ∈ p.drafts.keys then some (.repeated (takeId p.carry).1) else none)
      (applyDialogue p here dialogue) := by
  have hcontains := contains_updatePrevious p (takeId p.carry).2 (linkIfOpen (takeId p.carry).1)
    (takeId p.carry).1
  unfold applyDialogue
  dsimp only
  by_cases hmem : (takeId p.carry).1 ∈ p.drafts.keys
  · rw [if_pos hmem, if_pos (hcontains.mpr hmem)]
    have hcode : duplicateCode ∉ ignoredCodes := by decide
    exact .besides hcode (congrArg (· ++ [_]) (found_updatePrevious _ _))
  · rw [if_neg hmem, if_neg (mt hcontains.mp hmem)]
    exact .silent (found_updatePrevious _ _)

theorem notes_applyLine (catalog : Asset.Catalog) (p : Progress) (here : Located) :
    p.Notes here (notice? catalog p here.line) (applyLine catalog p here) := by
  unfold applyLine Located.line
  cases Line.read here.text with
  | label name => exact notes_applyLabel p here name
  | command command => exact notes_applyCommand catalog p here command
  | choice choice => exact notes_applyChoice p here choice
  | dialogue dialogue => exact notes_applyDialogue p here dialogue

def quietCodes : List String := "unknown-sprite-position" :: ignoredCodes

theorem code_mem_of_ite {c : Prop} [Decidable c] {m n : Notice} {codes : List String}
    (h : (if c then some m else none) = some n) (hcode : m.code ∈ codes) : n.code ∈ codes := by
  obtain ⟨-, hsome⟩ := Option.ite_none_right_eq_some.mp h
  cases hsome
  exact hcode

theorem code_mem_of_assetNotice? {catalog : Asset.Catalog} {category : Asset.Category}
    {name : String} {n : Notice} (h : assetNotice? catalog category name = some n) :
    n.code ∈ quietCodes := by
  have hcode : "unresolved-asset" ∈ quietCodes := by decide
  exact code_mem_of_ite h hcode

theorem code_mem_of_spriteNotice? {catalog : Asset.Catalog} {value : String} {n : Notice}
    (h : spriteNotice? catalog value = some n) : n.code ∈ quietCodes := by
  unfold spriteNotice? at h
  split at h
  · cases h
  · rcases Option.or_eq_some_iff.mp h with hasset | ⟨-, hposition⟩
    · exact code_mem_of_assetNotice? hasset
    · exact code_mem_of_ite hposition List.mem_cons_self

theorem code_mem_of_commandNotice? {catalog : Asset.Catalog} {p : Progress}
    {command : Line.Command} {n : Notice} (h : commandNotice? catalog p command = some n) :
    n.code ∈ quietCodes := by
  have heffect : "unknown-effect" ∈ quietCodes := by decide
  have hreturn : "orphan-return-title" ∈ quietCodes := by decide
  unfold commandNotice? at h
  cases hkind : command.kind <;> rw [hkind] at h
  case sprite => exact code_mem_of_spriteNotice? h
  case effect => exact code_mem_of_ite h heffect
  case returnTitle => exact code_mem_of_ite h hreturn
  all_goals exact code_mem_of_assetNotice? h

theorem code_mem_quietCodes {catalog : Asset.Catalog} {p : Progress} {line : Line} {n : Notice}
    (h : notice? catalog p line = some n) (hline : line.isDialogue = false) :
    n.code ∈ quietCodes := by
  have hlabel : "empty-label" ∈ quietCodes := by decide
  have hchoice : "orphan-choice" ∈ quietCodes := by decide
  cases line with
  | label name => exact code_mem_of_ite h hlabel
  | command command => exact code_mem_of_commandNotice? h
  | choice choice => exact code_mem_of_ite h hchoice
  | dialogue dialogue => cases hline

theorem code_mem_of_notice? {catalog : Asset.Catalog} {p : Progress} {line : Line} {n : Notice}
    (h : notice? catalog p line = some n) : n.code ∈ duplicateCode :: quietCodes := by
  cases hline : line.isDialogue with
  | false => exact List.mem_cons_of_mem _ (code_mem_quietCodes h hline)
  | true =>
    cases line with
    | dialogue dialogue => exact code_mem_of_ite h List.mem_cons_self
    | _ => cases hline

section Run
variable (catalog : Asset.Catalog)

/-- What is said about lines that come after others. -/
def notices (p : Progress) : List Located → List Diagnostic
  | [] => []
  | here :: rest =>
      ((notice? catalog p here.line).map (·.about here)).toList ++
        notices (applyLine catalog p here) rest

theorem notices_append (p : Progress) (lines more : List Located) :
    notices catalog p (lines ++ more) =
      notices catalog p lines ++ notices catalog (lines.foldl (applyLine catalog) p) more := by
  induction lines generalizing p with
  | nil => rfl
  | cons here rest ih =>
    rw [List.cons_append, notices, notices, ih, List.append_assoc]
    rfl

theorem found_foldl_eq (lines : List Located) (p : Progress) :
    (lines.foldl (applyLine catalog) p).found = p.found ++ notices catalog p lines := by
  induction lines generalizing p with
  | nil => exact (List.append_nil _).symm
  | cons here rest ih =>
    rw [List.foldl_cons, ih, (notes_applyLine catalog p here).found, List.append_assoc]
    rfl

theorem found_run (c : Compiler) (text : String) :
    (c.run text).found = notices c.catalog (initial c) (locatedLines text) :=
  (found_foldl_eq c.catalog (locatedLines text) (initial c)).trans (List.nil_append _)

theorem mem_notices {p : Progress} {lines : List Located} {d : Diagnostic}
    (h : d ∈ notices catalog p lines) :
    ∃ here ∈ lines, ∃ q n, notice? catalog q here.line = some n ∧ d = n.about here := by
  induction lines generalizing p with
  | nil => cases h
  | cons here rest ih =>
    rcases List.mem_append.mp h with hd | hd
    · obtain ⟨n, hnotice, rfl⟩ := Option.map_eq_some_iff.mp (Option.mem_toList.mp hd)
      exact ⟨here, List.mem_cons_self, p, n, hnotice, rfl⟩
    · obtain ⟨other, hother, hn⟩ := ih hd
      exact ⟨other, List.mem_cons_of_mem here hother, hn⟩

end Run

end VisualNovel.Compile
