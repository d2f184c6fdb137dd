import VisualNovel.Script.Node
import VisualNovel.Text.Blank
import VisualNovel.Text.Casing
import VisualNovel.Text.Search

/-!
What a single line of script markup says. Each line is a label, a bracket command, a choice or
dialogue; which of them it is depends on the line alone.
-/
namespace VisualNovel.Line

open Text

inductive CommandKind where
  | background
  | sprite
  | cg
  | video
  | effect
  | returnTitle
deriving DecidableEq, Repr, Inhabited

def CommandKind.name : CommandKind → String
  | background => "background"
  | sprite => "sprite"
  | cg => "cg"
  | video => "video"
  | effect => "effect"
  | returnTitle => "return-title"

/-- The keywords of commands, in folded letters. -/
def keywords : List (String × CommandKind) := [
  ("背景", .background), ("bg", .background),
  ("立绘", .sprite), ("sprite", .sprite),
  ("cg", .cg),
  ("视频", .video), ("video", .video),
  ("特效", .effect), ("effect", .effect),
  ("返回标题", .returnTitle), ("returntitle", .returnTitle)]

structure Command where
  kind : CommandKind
  value : String
deriving DecidableEq, Inhabited

/-- A colon as typed in Chinese or in Latin text. -/
def isColon (c : Char) : Bool := c == '：' || c == ':'

/-- A colon separates a speaker only among the first characters of a line, so that a colon inside
prose is left alone. -/
def speakerLimit : Int := 10

structure Dialogue where
  speaker : Option String
  text : String
deriving DecidableEq, Inhabited

def nonempty (s : String) : Option String := if s.isEmpty then none else some s

def splitSpeaker (line : String) (limit : Int := speakerLimit) : Dialogue :=
  let cs := line.toList
  let name := cs.takeWhile (!isColon ·)
  match cs.dropWhile (!isColon ·) with
  | [] => ⟨none, line⟩
  | _ :: rest =>
      if limit ≤ name.length then ⟨none, line⟩
      else ⟨nonempty (trim (String.ofList name)), trim (String.ofList rest)⟩

/-- Marker words in the text of a choice; a bad choice is dangerous even if it is the true one. -/
def choiceStyle (text : String) : ChoiceStyle :=
  if contains text "Bad" then .danger
  else if contains text "True" then .special
  else .normal

def label? (line : String) : Option String :=
  match line.toList with
  | '#' :: rest => some (trim (String.ofList rest))
  | _ => none

def bracketed? (cs : List Char) : Option (List Char) :=
  match cs with
  | '【' :: rest =>
      match rest.reverse with
      | '】' :: inside => some inside.reverse
      | _ => none
  | _ => none

/-- Brackets around anything but a known keyword are prose, for example a chapter title. -/
def command? (line : String) : Option Command := do
  let inside ← bracketed? line.toList
  let key := fold (trim (String.ofList (inside.takeWhile (!isColon ·))))
  let kind ← keywords.lookup key
  some ⟨kind, trim (String.ofList ((inside.dropWhile (!isColon ·)).drop 1))⟩

inductive SpriteArgument where
  | clear
  /-- `position` is missing when the line names one that does not exist. -/
  | show (name : String) (position : Option Position)
deriving DecidableEq, Inhabited

def clearWords : List String := ["清除", "clear"]

def spriteArgument (value : String) : SpriteArgument :=
  if clearWords.contains (fold (trim value)) then .clear
  else
    match words value with
    | [] => .show "" (some .center)
    | [name] => .show name (some .center)
    | name :: position :: _ => .show name (Position.ofName? (fold position))

def effect? (value : String) : Option Effect := Effect.ofName? (fold (trim value))

structure ChoiceLine where
  text : String
  target : Option String
deriving DecidableEq, Inhabited

/-- The text up to an arrow, and what follows it. -/
def splitArrow : List Char → List Char × Option (List Char)
  | [] => ([], none)
  | '》' :: rest => ([], some rest)
  | '>' :: '>' :: rest => ([], some rest)
  | c :: rest =>
      let (before, after) := splitArrow rest
      (c :: before, after)

/-- A choice starts with a capital letter and a point, which stay part of its text. What stands
after a second arrow is ignored. -/
def choice? (line : String) : Option ChoiceLine :=
  match line.toList with
  | c :: '.' :: _ =>
      if 'A' ≤ c ∧ c ≤ 'Z' then
        let (before, after) := splitArrow line.toList
        let target := after.bind fun rest =>
          nonempty (trim (String.ofList (splitArrow rest).1))
        some ⟨trim (String.ofList before), target⟩
      else none
  | _ => none

end Line

inductive Line where
  | label (name : String)
  | command (command : Line.Command)
  | choice (choice : Line.ChoiceLine)
  | dialogue (dialogue : Line.Dialogue)
deriving DecidableEq, Inhabited

/-- Reads a line that is trimmed and not empty. -/
def Line.read (s : String) : Line :=
  match Line.label? s with
  | some name => .label name
  | none =>
      match Line.command? s with
      | some c => .command c
      | none =>
          match Line.choice? s with
          | some c => .choice c
          | none => .dialogue (Line.splitSpeaker s)

end VisualNovel
