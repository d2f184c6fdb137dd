import VisualNovel.Data.Lenient
import VisualNovel.Disk.Path
import VisualNovel.Playback.Timing
import VisualNovel.Settings.Field

/-!
Settings and how they are read from what is given for them. Everything given is checked, so that
settings are good as soon as there are any; all fields that fail are reported together.
-/
namespace VisualNovel

open Disk

abbrev NonemptyText := {s : String // s ≠ ""}

inductive LogLevel where
  | debug
  | info
  | warning
  | error
  | critical
deriving DecidableEq, Repr, Inhabited

namespace LogLevel

def all : List LogLevel := [debug, info, warning, error, critical]

def name : LogLevel → String
  | debug => "DEBUG"
  | info => "INFO"
  | warning => "WARNING"
  | error => "ERROR"
  | critical => "CRITICAL"

def ofName? (s : String) : Option LogLevel := all.find? (·.name == s)

end LogLevel

namespace Settings

/-- Delays are in milliseconds. -/
structure Fields where
  startNode : NonemptyText
  defaultBackground : Option String
  assetManifest : Option Path
  revealInterval : {n : Nat // 1 ≤ n}
  fastRevealInterval : {n : Nat // 1 ≤ n}
  fastForwardDelay : Nat
  autoPerChar : Nat
  autoMinDelay : Nat
  autoMaxDelay : Nat
  endGrace : Nat
  saveFile : Path
  saveKey : NonemptyText
  saveSlotCount : {n : Nat // 1 ≤ n}
  savePreviewLength : Nat
  debug : Bool
  logLevel : LogLevel
  logFormat : String
  logFile : Option Path

end Settings

/-- The shortest reading time must not exceed the longest one. -/
structure Settings extends Settings.Fields where
  auto_bounds : autoMinDelay ≤ autoMaxDelay

namespace Settings

/-- Where paths are read: the working directory, the home directory and the variables that paths
may refer to. -/
structure Surroundings where
  cwd : Path
  vars : List (String × String)
deriving Inhabited

namespace Surroundings

/-- Of a variable that is set twice the last value counts. -/
def lookup (s : Surroundings) (name : String) : Option String :=
  s.vars.reverse.lookup name

def home (s : Surroundings) : Path := Path.ofText ((s.lookup "HOME").getD "/")

def isWordChar (c : Char) : Bool := c.isAlphanum || c == '_'

/-- The name after a dollar sign, bare or in braces, and what follows it. -/
def takeVariable? : List Char → Option (String × List Char)
  | '\x7b' :: rest =>
      let name := rest.takeWhile (· != '\x7d')
      match rest.drop name.length with
      | _ :: rest => some (String.ofList name, rest)
      | [] => none
  | cs =>
      let name := cs.takeWhile isWordChar
      if name.isEmpty then none else some (String.ofList name, cs.drop name.length)

/-- A text with its variables replaced; unknown ones stay as they are. `fuel` is never smaller than
the length of the text. -/
def expand (s : Surroundings) : Nat → List Char → List Char
  | 0, cs => cs
  | _, [] => []
  | fuel + 1, c :: rest =>
      match (if c == '$' then takeVariable? rest else none) with
      | some (name, after) =>
          match s.lookup name with
          | some value => value.toList ++ s.expand fuel after
          | none => c :: (rest.take (rest.length - after.length) ++ s.expand fuel after)
      | none => c :: s.expand fuel rest

/-- The path that a text stands for, before its home directory is filled in. -/
def written (s : Surroundings) (text : String) : Path :=
  Path.ofText (String.ofList (s.expand text.length text.toList))

/-- Whether a path starts in the home directory of somebody else. -/
def isForeignHome (p : Path) : Bool :=
  !p.isAbsolute && (p.parts.head?.any fun part => part.startsWith "~" && part != "~")

def fillHome (s : Surroundings) (p : Path) : Path :=
  match p.isAbsolute, p.parts with
  | false, "~" :: rest => { s.home with parts := s.home.parts ++ rest }
  | _, _ => p

def resolve (s : Surroundings) (p : Path) : Path := Path.resolve s.cwd p

end Surroundings

def atLeast? (least : Nat) : Given → Option {n : Nat // least ≤ n}
  | .plain v =>
      match Data.Lenient.whole? v with
      | some (.ofNat n) => if h : least ≤ n then some ⟨n, h⟩ else none
      | _ => none
  | .path _ => none

def count? (g : Given) : Option Nat := (atLeast? 0 g).map (·.val)

def text? : Given → Option String
  | .plain v => Data.Lenient.text? v
  | .path _ => none

def nonempty? (g : Given) : Option NonemptyText :=
  (text? g).bind fun s => if h : s ≠ "" then some ⟨s, h⟩ else none

/-- Nothing is a value too. -/
def optional? {α : Type} (read? : Given → Option α) : Given → Option (Option α)
  | .plain .null => some none
  | g => (read? g).map some

def flag? : Given → Option Bool
  | .plain v => Data.Lenient.truth? v
  | .path _ => none

def path? (s : Surroundings) : Given → Option Path
  | .plain (.text t) =>
      let p := s.written t
      if t.toList.contains '\x00' || Surroundings.isForeignHome p then none
      else some (s.resolve (s.fillHome p))
  | .path p => some (s.resolve p)
  | .plain _ => none

def logLevel? (g : Given) : Option LogLevel :=
  (text? g).bind fun s => LogLevel.ofName? (Text.upper s)

def logFormats : List String := ["console", "json", "structured"]

/-- The format's name in small letters. Letters that fold to those of a name are let through. -/
def logFormat? (g : Given) : Option String :=
  ((text? g).map Text.lower).filter fun s => logFormats.contains (Text.foldEach s)

/-- A value, or the fields that kept it from being read. -/
inductive Checked (α : Type) where
  | good (a : α)
  | bad (fields : List Field)

namespace Checked

variable {α β : Type}

def map (f : α → β) : Checked α → Checked β
  | good a => good (f a)
  | bad fs => bad fs

/-- Failures of both sides add up. -/
def apply : Checked (α → β) → Checked α → Checked β
  | good f, x => x.map f
  | bad fs, good _ => bad fs
  | bad fs, bad gs => bad (fs ++ gs)

end Checked

/-- The value of a field: what is given, or else its default. -/
def Layer.check {α : Type} (given : Layer) (field : Field) (default : α)
    (read? : Given → Option α) : Checked α :=
  match given field with
  | none => .good default
  | some g => (read? g).elim (.bad [field]) .good

/-- Why there are no settings. -/
inductive Failure where
  | invalid (fields : List Field)
  /-- The fields are good by themselves and do not fit together. -/
  | inconsistent
  | unknownHome
deriving Inhabited

def Given.namesForeignHome (s : Surroundings) : Given → Bool
  | .plain (.text t) => Surroundings.isForeignHome (s.written t)
  | _ => false

def defaultSaveFile (s : Surroundings) : Path := s.cwd.child "vnscript_saves.json"

def Fields.check (s : Surroundings) (given : Layer) : Checked Fields :=
  (Checked.good Fields.mk)
    |>.apply (given.check .startNode ⟨"start", by decide⟩ nonempty?)
    |>.apply (given.check .defaultBackground (some "Black") (optional? text?))
    |>.apply (given.check .assetManifest none (optional? (path? s)))
    |>.apply (given.check .revealInterval ⟨30, by decide⟩ (atLeast? 1))
    |>.apply (given.check .fastRevealInterval ⟨2, by decide⟩ (atLeast? 1))
    |>.apply (given.check .fastForwardDelay 100 count?)
    |>.apply (given.check .autoPerChar 50 count?)
    |>.apply (given.check .autoMinDelay 1000 count?)
    |>.apply (given.check .autoMaxDelay 4000 count?)
    |>.apply (given.check .endGrace 3000 count?)
    |>.apply (given.check .saveFile (s.resolve (defaultSaveFile s)) (path? s))
    |>.apply (given.check .saveKey ⟨"galgame_saves_v1", by decide⟩ nonempty?)
    |>.apply (given.check .saveSlotCount ⟨4, by decide⟩ (atLeast? 1))
    |>.apply (given.check .savePreviewLength 20 count?)
    |>.apply (given.check .debug false flag?)
    |>.apply (given.check .logLevel .warning logLevel?)
    |>.apply (given.check .logFormat "console" logFormat?)
    |>.apply (given.check .logFile none (optional? (path? s)))

/-- The settings that a layer of givens stands for. A home directory that cannot be found stops the
reading at once. -/
def ofLayer (s : Surroundings) (given : Layer) : Except Failure Settings :=
  if Field.paths.any fun f => (given f).any (·.namesForeignHome s) then .error .unknownHome
  else
    match Fields.check s given with
    | .bad fields => .error (.invalid fields)
    | .good fields =>
        if h : fields.autoMinDelay ≤ fields.autoMaxDelay then
          .ok { fields with auto_bounds := h }
        else .error .inconsistent

def optionalPath (p : Option Path) : Given := p.elim (.plain .null) .path

def content (s : Settings) : Field → Given
  | .startNode => .plain (.text s.startNode.val)
  | .defaultBackground => .plain (s.defaultBackground.elim .null .text)
  | .assetManifest => optionalPath s.assetManifest
  | .revealInterval => .plain (.int s.revealInterval.val)
  | .fastRevealInterval => .plain (.int s.fastRevealInterval.val)
  | .fastForwardDelay => .plain (.int s.fastForwardDelay)
  | .autoPerChar => .plain (.int s.autoPerChar)
  | .autoMinDelay => .plain (.int s.autoMinDelay)
  | .autoMaxDelay => .plain (.int s.autoMaxDelay)
  | .endGrace => .plain (.int s.endGrace)
  | .saveFile => .path s.saveFile
  | .saveKey => .plain (.text s.saveKey.val)
  | .saveSlotCount => .plain (.int s.saveSlotCount.val)
  | .savePreviewLength => .plain (.int s.savePreviewLength)
  | .debug => .plain (.bool s.debug)
  | .logLevel => .plain (.text s.logLevel.name)
  | .logFormat => .plain (.text s.logFormat)
  | .logFile => optionalPath s.logFile

/-- Everything that is settled, as a layer. -/
def toLayer (s : Settings) : Layer := fun f => some (s.content f)

variable {τ : Type}

/-- The delays of playback; `ofMillis` makes a time of milliseconds. -/
def timing (ofMillis : Nat → τ) (s : Settings) : Playback.Timing τ where
  revealInterval := ofMillis s.revealInterval.val
  fastRevealInterval := ofMillis s.fastRevealInterval.val
  fastForwardDelay := ofMillis s.fastForwardDelay
  autoSecondsPerChar := ofMillis s.autoPerChar
  autoMinDelay := ofMillis s.autoMinDelay
  autoMaxDelay := ofMillis s.autoMaxDelay
  endGrace := ofMillis s.endGrace
  previewLength := s.savePreviewLength

def seconds (milliseconds : Nat) : Float := Decimal.toFloat false milliseconds (-3)

end Settings

end VisualNovel
