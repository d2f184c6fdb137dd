/-!
The words of a command line. Options begin with a dash and may be given more than once; of an
option's values the last one counts. The word `--` ends the options.
-/
namespace VisualNovel.Terminal

inductive Flag where
  | help
  | config
  | verbose
  | debug
  | assets
  | saveFile
  | load
  | json
deriving DecidableEq, Repr, Inhabited

namespace Flag

def longName : Flag → String
  | help => "--help"
  | config => "--config"
  | verbose => "--verbose"
  | debug => "--debug"
  | assets => "--assets"
  | saveFile => "--save-file"
  | load => "--load"
  | json => "--json"

def letter? : Flag → Option Char
  | config => some 'c'
  | verbose => some 'v'
  | assets => some 'a'
  | load => some 'l'
  | _ => none

def takesValue : Flag → Bool
  | config | assets | saveFile | load => true
  | _ => false

end Flag

structure Arguments where
  /-- The flags that were given and their values; a flag without a value has the empty text. -/
  flags : List (Flag × String) := []
  words : List String := []
deriving DecidableEq, Repr, Inhabited

namespace Arguments

def value? (a : Arguments) (f : Flag) : Option String := a.flags.reverse.lookup f

def has (a : Arguments) (f : Flag) : Bool := (a.value? f).isSome

def addFlags (a : Arguments) (flags : List (Flag × String)) : Arguments :=
  { a with flags := flags ++ a.flags }

def addWord (a : Arguments) (word : String) : Arguments := { a with words := word :: a.words }

/-- What one word of options gives: flags, and perhaps one more flag whose value is the next
word. -/
structure Reading where
  flags : List (Flag × String) := []
  waiting : Option Flag := none

/-- Letters behind a single dash. A flag with a value takes the rest of the word, if there is
any. -/
def readLetters (allowed : List Flag) : List Char → Option Reading
  | [] => some {}
  | c :: rest => do
      let f ← allowed.find? (·.letter? == some c)
      if !f.takesValue then
        let reading ← readLetters allowed rest
        return { reading with flags := (f, "") :: reading.flags }
      else if rest.isEmpty then return { waiting := some f }
      else return { flags := [(f, String.ofList rest)] }

/-- A flag by its long name, with a value attached behind `=` if there is one. -/
def readLong (f : Flag) (attached : Option String) : Option Reading :=
  match f.takesValue, attached with
  | true, some value => some { flags := [(f, value)] }
  | true, none => some { waiting := some f }
  | false, none => some { flags := [(f, "")] }
  | false, some _ => none

/-- Cuts a word at the first `=`. -/
def splitValue (word : String) : String × Option String :=
  let name := word.toList.takeWhile (· != '=')
  match word.toList.drop name.length with
  | [] => (word, none)
  | _ :: value => (String.ofList name, some (String.ofList value))

def readOption (allowed : List Flag) (word : String) : Option Reading :=
  let (name, attached) := splitValue word
  match allowed.find? (·.longName == name) with
  | some f => readLong f attached
  | none => if word.startsWith "--" then none else readLetters allowed (word.toList.drop 1)

def isOption (word : String) : Bool := word.startsWith "-" && word != "-"

/-- Reads words, the first of which may be the value of a flag that waits for one. Unless options
may stand among the plain words, the first plain word ends them. -/
def readFrom (allowed : List Flag) (mixed : Bool) : Option Flag → List String → Option Arguments
  | some _, [] => none
  | some f, value :: rest => (readFrom allowed mixed none rest).map (·.addFlags [(f, value)])
  | none, [] => some {}
  | none, word :: rest =>
      if word = "--" then some { words := rest }
      else if isOption word then do
        let reading ← readOption allowed word
        let a ← readFrom allowed mixed reading.waiting rest
        return a.addFlags reading.flags
      else if mixed then (readFrom allowed mixed none rest).map (·.addWord word)
      else some { words := word :: rest }

/-- Reads a command's options and words in any order. -/
def read (allowed : List Flag) (words : List String) : Option Arguments :=
  readFrom allowed true none words

/-- Reads the options in front of the first plain word. -/
def readLeading (allowed : List Flag) (words : List String) : Option Arguments :=
  readFrom allowed false none words

end Arguments

end VisualNovel.Terminal
