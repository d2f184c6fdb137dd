/-!
Findings of the script compiler. None of them stops compilation.
-/
namespace VisualNovel

inductive Severity where
  | info
  | warning
deriving DecidableEq, Repr, Inhabited

def Severity.name : Severity → String
  | info => "info"
  | warning => "warning"

def Severity.all : List Severity := [info, warning]

def Severity.ofName? (s : String) : Option Severity := all.find? (·.name == s)

structure Diagnostic where
  severity : Severity
  code : String
  message : String
  lineNumber : Option Int := none
  line : Option String := none
deriving DecidableEq, Repr, Inhabited

def Diagnostic.text (d : Diagnostic) : String :=
  let place := match d.lineNumber with
    | some n => s!"line {n}: "
    | none => ""
  s!"{d.severity.name}[{d.code}] {place}{d.message}"

end VisualNovel
