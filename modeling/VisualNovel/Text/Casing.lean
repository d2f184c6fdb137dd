import VisualNovel.Text.CaseTables

/-!
Letter case of whole texts. Caseless comparison folds both sides and compares the results; letters
may fold to several, so a folded text can be longer than the text it comes from.
-/
namespace VisualNovel.Text

def CaseRun.covers (run : CaseRun) (n : Nat) : Bool :=
  run.first ≤ n && n ≤ run.last && (n - run.first) % run.step == 0

def CaseMap.image (map : CaseMap) (c : Char) : List Char :=
  match map.expansions.find? (·.1 == c.toNat) with
  | some (_, image) => image.map Char.ofNat
  | none =>
      match map.runs.find? (·.covers c.toNat) with
      | some run => [Char.ofNat (c.toNat + run.distance).toNat]
      | none => [c]

/-- Plain letters need no look-up in the tables. -/
def foldChar (c : Char) : List Char :=
  if c.toNat < 128 then [c.toLower] else foldTable.image c

def upperChar (c : Char) : List Char :=
  if c.toNat < 128 then [c.toUpper] else upperTable.image c

def lowerChar (c : Char) : List Char :=
  if c.toNat < 128 then [c.toLower] else lowerTable.image c

def fold (s : String) : String := String.ofList (s.toList.flatMap foldChar)

/-- Folds letter by letter, leaving letters that would fold to several. -/
def foldEach (s : String) : String :=
  String.ofList (s.toList.map fun c => match foldChar c with
    | [d] => d
    | _ => c)

def upper (s : String) : String := String.ofList (s.toList.flatMap upperChar)

def lower (s : String) : String := String.ofList (s.toList.flatMap lowerChar)

end VisualNovel.Text
