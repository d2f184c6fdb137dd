import Mathlib.Data.List.Basic
import Mathlib.Data.List.Induction
import Mathlib.Data.List.TakeWhile
import VisualNovel.Script.Compile

/-!
What the lines of a text ask for, told without compiling them. A place is a dialogue line with the
lines before and after it. The lines before it settle its identifier; the lines between it and the
next dialogue line settle its choices and where it leads.
-/
namespace VisualNovel

namespace Line

def isDialogue : Line → Bool
  | .dialogue _ => true
  | _ => false

def isChoice : Line → Bool
  | .choice _ => true
  | _ => false

def isReturn : Line → Bool
  | .command c => c.kind == .returnTitle
  | _ => false

def labelName? : Line → Option String
  | .label name => nonempty name
  | _ => none

end Line

namespace Place

/-- Each element of a list, with those before it. -/
def withEarlier {α : Type} (xs : List α) : List (List α × α) :=
  xs.zipIdx.map fun (x, i) => (xs.take i, x)

theorem withEarlier_concat {α : Type} (xs : List α) (x : α) :
    withEarlier (xs ++ [x]) = withEarlier xs ++ [(xs, x)] := by
  unfold withEarlier
  rw [List.zipIdx_append, List.map_append]
  congr 1
  · refine List.map_congr_left ?_
    rintro ⟨y, i⟩ hmem
    have hi : i ≤ xs.length := by
      have hlt := List.snd_lt_of_mem_zipIdx hmem
      omega
    exact congrArg (·, y) (List.take_append_of_le_length hi)
  · simp

def labels (lines : List Line) : List String := lines.filterMap Line.labelName?

/-- The first label among some lines, unless a choice comes before it. -/
def firstLabel (lines : List Line) : Option String :=
  (labels (lines.takeWhile (!·.isChoice))).head?

theorem firstLabel_concat (lines : List Line) (line : Line) :
    firstLabel (lines ++ [line]) =
      if lines.any Line.isChoice then firstLabel lines
      else (firstLabel lines).or line.labelName? := by
  unfold firstLabel labels
  induction lines with
  | nil => cases line <;> simp [Line.isChoice, Line.labelName?]
  | cons first rest ih =>
    cases hfirst : first.isChoice with
    | true => simp [hfirst]
    | false =>
      cases hname : first.labelName? with
      | none => simpa [hfirst, hname] using ih
      | some name => simp [hfirst, hname]

/-- The lines that come after the last dialogue line. -/
def sinceDialogue (lines : List Line) : List Line :=
  (lines.reverse.takeWhile (!·.isDialogue)).reverse

theorem sinceDialogue_concat (lines : List Line) (line : Line) :
    sinceDialogue (lines ++ [line]) =
      if line.isDialogue then [] else sinceDialogue lines ++ [line] := by
  unfold sinceDialogue
  cases hline : line.isDialogue <;> simp [hline]

section Naming
variable (startId : String)

/-- The label that the next dialogue line takes its identifier from: the last one since the
previous dialogue line. The first dialogue line begins the story if it has none. -/
def pendingLabel (before : List Line) : Option String :=
  (labels (sinceDialogue before)).getLast?.or
    (if before.any Line.isDialogue then none else Line.nonempty startId)

theorem pendingLabel_concat (before : List Line) (line : Line) :
    pendingLabel startId (before ++ [line]) =
      if line.isDialogue then none else line.labelName?.or (pendingLabel startId before) := by
  unfold pendingLabel
  rw [sinceDialogue_concat, List.any_append]
  cases hline : line.isDialogue with
  | true => simp [hline, labels]
  | false =>
    cases hname : line.labelName? <;> simp [hline, labels, hname]

/-- A line for which an identifier has to be made up: a choice without a target, unless there is no
node yet that could offer it, or a dialogue line without a label. -/
def takesNumber (before : List Line) : Line → Bool
  | .choice choice => before.any Line.isDialogue && choice.target.isNone
  | .dialogue _ => (pendingLabel startId before).isNone
  | _ => false

/-- The number that the next made-up identifier takes. Dialogue and choices share it. -/
def counter (before : List Line) : Nat :=
  (withEarlier before).countP fun (earlier, line) => takesNumber startId earlier line

theorem counter_concat (before : List Line) (line : Line) :
    counter startId (before ++ [line]) =
      counter startId before + if takesNumber startId before line then 1 else 0 := by
  unfold counter
  rw [withEarlier_concat, List.countP_append, List.countP_singleton]

def idAfter (before : List Line) : String :=
  (pendingLabel startId before).getD (Compile.nodeStem ++ toString (counter startId before))

theorem idAfter_ne_empty (before : List Line) : idAfter startId before ≠ "" := by
  unfold idAfter
  cases hpending : pendingLabel startId before with
  | none =>
    intro hempty
    have hlength := congrArg String.length hempty
    simp [Compile.nodeStem] at hlength
  | some name =>
    obtain ⟨s, hs⟩ : ∃ s, Line.nonempty s = some name := by
      unfold pendingLabel at hpending
      cases hlast : (labels (sinceDialogue before)).getLast? with
      | none =>
        rw [hlast, Option.none_or] at hpending
        split at hpending
        · cases hpending
        · exact ⟨startId, hpending⟩
      | some last =>
        rw [hlast, Option.some_or, Option.some.injEq] at hpending
        subst hpending
        obtain ⟨line, -, hname⟩ := List.mem_filterMap.mp (List.mem_of_getLast? hlast)
        cases line with
        | label label => exact ⟨label, hname⟩
        | _ => cases hname
    rintro rfl
    unfold Line.nonempty at hs
    split at hs
    · cases hs
    · next hfull => exact hfull (by simp [Option.some.inj hs])

def targetAfter (before : List Line) (choice : Line.ChoiceLine) : String :=
  choice.target.getD (Compile.choiceTargetStem ++ toString (counter startId before))

/-- What a line that comes after these lines offers. -/
def choiceAfter (before : List Line) : Line → Option Choice
  | .choice choice =>
      some ⟨choice.text, targetAfter startId before choice, Line.choiceStyle choice.text⟩
  | _ => none

/-- The choices among some lines that come after others. -/
def choicesIn (before lines : List Line) : List Choice :=
  (withEarlier lines).filterMap fun (earlier, line) => choiceAfter startId (before ++ earlier) line

theorem choicesIn_concat (before lines : List Line) (line : Line) :
    choicesIn startId before (lines ++ [line]) =
      choicesIn startId before lines ++ (choiceAfter startId (before ++ lines) line).toList := by
  unfold choicesIn
  rw [withEarlier_concat, List.filterMap_append]
  cases hchoice : choiceAfter startId (before ++ lines) line <;> simp [hchoice]

theorem choicesIn_eq_nil_iff (before lines : List Line) :
    choicesIn startId before lines = [] ↔ lines.any Line.isChoice = false := by
  induction lines using List.reverseRecOn with
  | nil => simp [choicesIn, withEarlier]
  | append_singleton lines line ih =>
    rw [choicesIn_concat, List.append_eq_nil_iff, ih, List.any_append, Bool.or_eq_false_iff]
    cases line <;> simp [choiceAfter, Line.isChoice]

end Naming

end Place

/-- A dialogue line of a text. -/
structure Place where
  before : List Line
  dialogue : Line.Dialogue
  after : List Line

namespace Place

def lines (p : Place) : List Line := p.before ++ .dialogue p.dialogue :: p.after

theorem length_before_lt (p : Place) : p.before.length < p.lines.length := by
  simp [lines]

theorem take_lines (p : Place) : p.lines.take p.before.length = p.before := by
  simp [lines]

theorem drop_lines (p : Place) : p.lines.drop (p.before.length + 1) = p.after := by
  simp [lines]

/-- The lines up to the dialogue line, which is the last of them. -/
theorem upTo_prefix (p : Place) : p.before ++ [.dialogue p.dialogue] <+: p.lines :=
  ⟨p.after, by simp [lines]⟩

/-- The lines up to the next dialogue line. -/
def between (p : Place) : List Line := p.after.takeWhile (!·.isDialogue)

def next? (p : Place) : Option Place :=
  match p.after.dropWhile (!·.isDialogue) with
  | .dialogue dialogue :: rest =>
      some ⟨p.before ++ .dialogue p.dialogue :: p.between, dialogue, rest⟩
  | _ => none

section Naming
variable (startId : String)

def id (p : Place) : String := idAfter startId p.before

/-- The choice lines up to the next dialogue line. -/
def choices (p : Place) : List Choice :=
  choicesIn startId (p.before ++ [.dialogue p.dialogue]) p.between

/-- Where the dialogue line leads. A return to the title overrules everything else, and a choice
leaves no room for what comes after it. -/
def successor (p : Place) : Option String :=
  if p.between.any Line.isReturn then some endTarget
  else
    (firstLabel p.between).or
      (if p.between.any Line.isChoice then none else p.next?.map (id startId))

/-- No later dialogue line of the text is given the same identifier. -/
def IsLast (p : Place) : Prop :=
  ∀ q : Place, q.lines = p.lines → p.before.length < q.before.length → q.id startId ≠ p.id startId

/-- A node says, offers and leads to what the text has at a dialogue line. -/
structure Describes (p : Place) (node : Node) : Prop where
  text : node.text = p.dialogue.text
  speaker : node.speaker = p.dialogue.speaker
  choices : node.choices = p.choices startId
  next : node.next = p.successor startId

end Naming

def IsLatest (p : Place) : Prop := ∀ line ∈ p.after, line.isDialogue = false

theorem IsLatest.between {p : Place} (h : p.IsLatest) : p.between = p.after := by
  unfold Place.between
  rw [List.takeWhile_eq_self_iff]
  intro line hline
  rw [h line hline, Bool.not_false]

theorem IsLatest.next? {p : Place} (h : p.IsLatest) : p.next? = none := by
  have hdrop : p.after.dropWhile (!·.isDialogue) = [] := by
    rw [List.dropWhile_eq_nil_iff]
    intro line hline
    rw [h line hline, Bool.not_false]
  unfold Place.next?
  rw [hdrop]

/-- As long as no dialogue line follows, the links are settled by the lines so far alone. -/
theorem IsLatest.successor {p : Place} (h : p.IsLatest) (startId : String) :
    p.successor startId =
      if p.after.any Line.isReturn then some endTarget else firstLabel p.after := by
  unfold Place.successor
  rw [h.between, h.next?]
  simp

/-- The next dialogue line comes right after `between`. -/
structure Splits (p : Place) (between : List Line) (next : Line.Dialogue) (rest : List Line) :
    Prop where
  after : p.after = between ++ .dialogue next :: rest
  quiet : ∀ line ∈ between, line.isDialogue = false

namespace Splits

variable {p : Place} {between rest : List Line} {next : Line.Dialogue}

theorem between_eq (h : p.Splits between next rest) : p.between = between := by
  unfold Place.between
  rw [h.after, List.takeWhile_append_of_pos]
  · simp [Line.isDialogue]
  · intro line hline
    rw [h.quiet line hline, Bool.not_false]

theorem next?_eq (h : p.Splits between next rest) :
    p.next? = some ⟨p.before ++ .dialogue p.dialogue :: between, next, rest⟩ := by
  have hdrop : p.after.dropWhile (!·.isDialogue) = .dialogue next :: rest := by
    rw [h.after, List.dropWhile_append_of_pos]
    · simp [Line.isDialogue]
    · intro line hline
      rw [h.quiet line hline, Bool.not_false]
  unfold Place.next?
  rw [hdrop, h.between_eq]

theorem not_latest (h : p.Splits between next rest) : ¬ p.IsLatest := by
  intro hlatest
  have hquiet := hlatest (.dialogue next) (by simp [h.after])
  cases hquiet

end Splits

theorem latest_or_splits (p : Place) :
    p.IsLatest ∨ ∃ between next rest, p.Splits between next rest := by
  have hjoin := List.takeWhile_append_dropWhile (p := (!·.isDialogue)) (l := p.after)
  cases hdrop : p.after.dropWhile (!·.isDialogue) with
  | nil =>
    left
    intro line hline
    simpa using List.dropWhile_eq_nil_iff.mp hdrop line hline
  | cons line rest =>
    right
    have hhead := List.head?_dropWhile_not (!·.isDialogue) p.after
    rw [hdrop] at hjoin hhead
    cases line with
    | dialogue next =>
      refine ⟨_, next, rest, hjoin.symm, ?_⟩
      intro line hline
      simpa using List.mem_takeWhile_imp hline
    | _ => simp [Line.isDialogue] at hhead

/-- The same dialogue line in a text with one more line. -/
def extend (p : Place) (line : Line) : Place := { p with after := p.after ++ [line] }

@[simp] theorem extend_lines (p : Place) (line : Line) :
    (p.extend line).lines = p.lines ++ [line] := by
  simp [extend, lines]

theorem IsLatest.extend {p : Place} (h : p.IsLatest) {line : Line}
    (hline : line.isDialogue = false) : (p.extend line).IsLatest := by
  intro other hother
  rcases List.mem_append.mp hother with hold | hnew
  · exact h other hold
  · rw [List.mem_singleton.mp hnew]
    exact hline

theorem IsLatest.extend_dialogue {p : Place} (h : p.IsLatest) (dialogue : Line.Dialogue) :
    (p.extend (.dialogue dialogue)).Splits p.after dialogue [] := ⟨rfl, h⟩

theorem Splits.extend {p : Place} {between rest : List Line} {next : Line.Dialogue}
    (h : p.Splits between next rest) (line : Line) :
    (p.extend line).Splits between next (rest ++ [line]) where
  after := by
    rw [Place.extend, h.after, List.append_assoc, List.cons_append]
  quiet := h.quiet

theorem IsLatest.choices_extend {p : Place} (h : p.IsLatest) (line : Line)
    (hline : line.isDialogue = false) (startId : String) :
    (p.extend line).choices startId =
      p.choices startId ++ (choiceAfter startId p.lines line).toList := by
  unfold Place.choices
  rw [(h.extend hline).between, h.between, Place.extend, choicesIn_concat]
  simp [Place.lines]

theorem IsLatest.successor_extend {p : Place} (h : p.IsLatest) (line : Line)
    (hline : line.isDialogue = false) (startId : String) :
    (p.extend line).successor startId =
      if p.after.any Line.isReturn || line.isReturn then some endTarget
      else if p.after.any Line.isChoice then firstLabel p.after
      else (firstLabel p.after).or line.labelName? := by
  rw [(h.extend hline).successor, Place.extend, List.any_append, firstLabel_concat]
  simp

/-- A dialogue line of a text with one more line is one of the old text, or that line. -/
theorem eq_extend_or_new {p : Place} {lines : List Line} {line : Line}
    (h : p.lines = lines ++ [line]) :
    (∃ q : Place, q.lines = lines ∧ p = q.extend line) ∨
      p = ⟨lines, p.dialogue, []⟩ ∧ line = .dialogue p.dialogue := by
  obtain ⟨before, dialogue, after⟩ := p
  unfold Place.lines at h
  rcases List.eq_nil_or_concat' after with rfl | ⟨rest, last, rfl⟩
  · obtain ⟨rfl, hline⟩ := List.append_inj' h rfl
    rw [List.cons.injEq] at hline
    exact Or.inr ⟨rfl, hline.1.symm⟩
  · have hsnoc : (before ++ .dialogue dialogue :: rest) ++ [last] = lines ++ [line] := by
      simpa using h
    obtain ⟨rfl, hlast⟩ := List.append_inj' hsnoc rfl
    rw [List.cons.injEq] at hlast
    exact Or.inl ⟨⟨before, dialogue, rest⟩, rfl, by rw [← hlast.1]; rfl⟩

end Place

end VisualNovel
