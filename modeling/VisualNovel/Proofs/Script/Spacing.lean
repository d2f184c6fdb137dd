import VisualNovel.Proofs.Script.Repetitions
import VisualNovel.Proofs.Text.Lines
import VisualNovel.Script.Source

/-!
The layout of a text. Lines are trimmed before they are read, and blank lines are skipped, so the
only trace of either is in the line numbers of reports. Where a line stands makes no difference to
what is compiled.
-/
namespace VisualNovel

def Diagnostic.renumber (f : Nat → Nat) (d : Diagnostic) : Diagnostic :=
  { d with lineNumber := d.lineNumber.map fun n => (f n.toNat : Int) }

namespace Compile

/-- The lines that say something, trimmed, with their numbers, counted from some number on. -/
def locate (start : Nat) (ls : List String) : List Located :=
  ((ls.zipIdx start).map fun (line, number) => ⟨number, Text.trim line⟩).filter
    fun here => !here.text.isEmpty

theorem locatedLines_eq (text : String) : locatedLines text = locate 1 (Text.lines text) := rfl

theorem locate_cons (start : Nat) (line : String) (ls : List String) :
    locate start (line :: ls) =
      (if (Text.trim line).isEmpty then [] else [⟨start, Text.trim line⟩]) ++
        locate (start + 1) ls := by
  unfold locate
  rw [List.zipIdx_cons, List.map_cons, List.filter_cons]
  cases (Text.trim line).isEmpty <;> rfl

theorem locate_append (start : Nat) (ls ls' : List String) :
    locate start (ls ++ ls') = locate start ls ++ locate (start + ls.length) ls' := by
  unfold locate
  rw [List.zipIdx_append, List.map_append, List.filter_append]

theorem locate_of_allBlank (start : Nat) {ls : List String} (h : ∀ line ∈ ls, Text.AllBlank line) :
    locate start ls = [] := by
  induction ls generalizing start with
  | nil => rfl
  | cons line rest ih =>
    have hline : (Text.trim line).isEmpty = true := by
      rw [Text.trim_of_allBlank (h line List.mem_cons_self)]
      rfl
    rw [locate_cons, if_pos hline, List.nil_append]
    exact ih (start + 1) fun other hother => h other (List.mem_cons_of_mem line hother)

theorem locate_congr (start : Nat) {ls ls' : List String}
    (h : ls'.map Text.trim = ls.map Text.trim) : locate start ls' = locate start ls := by
  have hmap : ∀ ls : List String, locate start ls =
      (((ls.map Text.trim).zipIdx start).map fun (line, number) => Located.mk number line).filter
        fun here => !here.text.isEmpty := by
    intro ls
    rw [List.zipIdx_map, List.map_map]
    rfl
  rw [hmap, hmap, h]

/-- The same line elsewhere. -/
def Located.renumber (f : Nat → Nat) (here : Located) : Located :=
  { here with number := f here.number }

theorem locate_add (start count : Nat) (ls : List String) :
    locate (start + count) ls = (locate start ls).map (Located.renumber (· + count)) := by
  have hshift : ls.zipIdx (start + count) = (ls.zipIdx start).map (Prod.map id (· + count)) := by
    rw [List.map_snd_add_zipIdx_eq_zipIdx, Nat.add_comm]
  unfold locate
  rw [hshift, List.map_map, List.filter_map, List.filter_map, List.map_map]
  rfl

theorem map_renumber_renumber (f g : Nat → Nat) (lines : List Located) :
    (lines.map (Located.renumber g)).map (Located.renumber f) =
      lines.map (Located.renumber fun n => f (g n)) := by
  rw [List.map_map]
  rfl

theorem map_line_renumber (f : Nat → Nat) (lines : List Located) :
    (lines.map (Located.renumber f)).map Located.line = lines.map Located.line := by
  rw [List.map_map]
  rfl

/-- Lines with others in between, the first of these before the first of the lines. -/
def spread (gaps : Nat → List String) : List String → List String
  | [] => gaps 0
  | line :: rest => gaps 0 ++ line :: spread (fun i => gaps (i + 1)) rest

/-- How many lines come into the first gaps. -/
def putIn (gaps : Nat → List String) (n : Nat) : Nat :=
  ((List.range n).flatMap gaps).length

theorem putIn_succ (gaps : Nat → List String) (n : Nat) :
    putIn gaps (n + 1) = (gaps 0).length + putIn (fun i => gaps (i + 1)) n := by
  unfold putIn
  rw [List.range_succ_eq_map, List.flatMap_cons, List.length_append, List.flatMap_map]

theorem locate_spread (start : Nat) {gaps : Nat → List String}
    (h : ∀ i, ∀ line ∈ gaps i, Text.AllBlank line) (ls : List String) :
    locate (start + 1) (spread gaps ls) =
      (locate 1 ls).map (Located.renumber fun n => start + (n + putIn gaps n)) := by
  induction ls generalizing start gaps with
  | nil => exact locate_of_allBlank (start + 1) (h 0)
  | cons line rest ih =>
    have hrest := ih (start + (gaps 0).length + 1) fun i => h (i + 1)
    have hnumber : start + 1 + (gaps 0).length = start + (gaps 0).length + 1 := by omega
    rw [spread, locate_append, locate_of_allBlank _ (h 0), List.nil_append, locate_cons,
      locate_cons, locate_add 1 1 rest, List.map_append, map_renumber_renumber, hnumber, hrest]
    refine congrArg₂ (· ++ ·) ?_ ?_
    · split
      · rfl
      · have hput : putIn gaps 1 = (gaps 0).length := putIn_succ gaps 0
        have hfirst : start + (gaps 0).length + 1 = start + (1 + putIn gaps 1) := by
          rw [hput]
          omega
        rw [hfirst]
        rfl
    · refine congrArg (fun f => (locate 1 rest).map (Located.renumber f)) (funext fun n => ?_)
      rw [putIn_succ]
      omega

/-- Lines without some of them. -/
def thin (gone : Nat → Bool) : List String → List String
  | [] => []
  | line :: rest =>
      if gone 0 then thin (fun i => gone (i + 1)) rest
      else line :: thin (fun i => gone (i + 1)) rest

/-- How many of the first lines are taken out. -/
def takenOut (gone : Nat → Bool) (n : Nat) : Nat := (List.range n).countP gone

theorem takenOut_succ (gone : Nat → Bool) (n : Nat) :
    takenOut gone (n + 1) =
      (if gone 0 then 1 else 0) + takenOut (fun i => gone (i + 1)) n := by
  unfold takenOut
  rw [List.range_succ_eq_map, List.countP_cons, List.countP_map, Nat.add_comm]
  rfl

theorem takenOut_le (gone : Nat → Bool) (n : Nat) : takenOut gone n ≤ n := by
  have hle : takenOut gone n ≤ (List.range n).length := List.countP_le_length
  rwa [List.length_range] at hle

theorem locate_thin (start : Nat) {gone : Nat → Bool} {ls : List String}
    (h : ∀ i line, ls[i]? = some line → gone i = true → Text.AllBlank line) :
    locate (start + 1) (thin gone ls) =
      (locate 1 ls).map (Located.renumber fun n => start + (n - takenOut gone n)) := by
  induction ls generalizing start gone with
  | nil => rfl
  | cons line rest ih =>
    have hbelow : ∀ i other, rest[i]? = some other → gone (i + 1) = true → Text.AllBlank other :=
      fun i => h (i + 1)
    rw [thin, locate_cons 1 line rest, locate_add 1 1 rest, List.map_append, map_renumber_renumber]
    by_cases hgone : gone 0 = true
    · have hblank : (Text.trim line).isEmpty = true := by
        rw [Text.trim_of_allBlank (h 0 line rfl hgone)]
        rfl
      rw [if_pos hgone, if_pos hblank, ih start hbelow]
      refine congrArg (fun f => (locate 1 rest).map (Located.renumber f)) (funext fun n => ?_)
      rw [takenOut_succ, if_pos hgone]
      omega
    · rw [if_neg hgone, locate_cons, ih (start + 1) hbelow]
      refine congrArg₂ (· ++ ·) ?_ ?_
      · split
        · rfl
        · have hnone : takenOut gone 1 = 0 := by
            rw [takenOut_succ, if_neg hgone]
            rfl
          have hfirst : start + 1 = start + (1 - takenOut gone 1) := by rw [hnone]
          rw [hfirst]
          rfl
      · refine congrArg (fun f => (locate 1 rest).map (Located.renumber f)) (funext fun n => ?_)
        have hle := takenOut_le (fun i => gone (i + 1)) n
        rw [takenOut_succ, if_neg hgone]
        omega

section Notices
variable {catalog : Asset.Catalog} {p q : Progress}

theorem notice?_congr (h : p.Alike q) (line : Line) :
    notice? catalog p line = notice? catalog q line := by
  unfold notice? commandNotice?
  rw [h.carry, h.drafts]

/-- What is said about lines depends on what was compiled before, but not on what was reported
before. If lines stand elsewhere, the same is said about them there. -/
theorem notices_renumber (h : p.Alike q) (f : Nat → Nat) (lines : List Located) :
    notices catalog q (lines.map (Located.renumber f)) =
      (notices catalog p lines).map (Diagnostic.renumber f) := by
  induction lines generalizing p q with
  | nil => rfl
  | cons here rest ih =>
    have hnext : (applyLine catalog p here).Alike (applyLine catalog q (here.renumber f)) :=
      h.applyLine catalog rfl
    rw [List.map_cons, notices, notices, List.map_append, ← ih hnext]
    congr 1
    rw [show (here.renumber f).line = here.line from rfl, ← notice?_congr h]
    cases notice? catalog p here.line <;> rfl

theorem notices_congr (h : p.Alike q) (lines : List Located) :
    notices catalog p lines = notices catalog q lines := by
  have hself : notices catalog q (lines.map (Located.renumber id)) =
      (notices catalog p lines).map (Diagnostic.renumber id) := notices_renumber h id lines
  have hlines : lines.map (Located.renumber id) = lines := List.map_id lines
  have hfound : (notices catalog p lines).map (Diagnostic.renumber id) =
      notices catalog p lines := by
    refine (List.map_congr_left ?_).trans (List.map_id _)
    intro d hd
    obtain ⟨here, -, -, n, -, rfl⟩ := mem_notices catalog hd
    rfl
  rw [hlines, hfound] at hself
  exact hself.symm

end Notices

theorem renumber_danglingChoices (f : Nat → Nat) (nodes : KeyedList String Node) :
    (danglingChoices nodes).map (Diagnostic.renumber f) = danglingChoices nodes := by
  refine (List.map_congr_left ?_).trans (List.map_id _)
  intro d hd
  have hnumber := (code_of_mem_danglingChoices hd).2
  cases d
  cases hnumber
  rfl

/-- Texts with the same lines in other places have the same script, and what is reported about
them differs in the places only. -/
theorem compile_renumber (c : Compiler) {text other : String} {f : Nat → Nat}
    (h : locatedLines other = (locatedLines text).map (Located.renumber f)) :
    (c.compile other).script = (c.compile text).script ∧
      (c.compile other).diagnostics = (c.compile text).diagnostics.map (Diagnostic.renumber f) := by
  have hrun : (c.run text).Alike (c.run other) := by
    refine (Progress.Alike.refl (initial c)).foldl c.catalog ?_
    rw [h, map_line_renumber]
  have hfound : (c.run other).found = (c.run text).found.map (Diagnostic.renumber f) := by
    rw [found_run, found_run, h]
    exact notices_renumber (Progress.Alike.refl (initial c)) f (locatedLines text)
  constructor
  · exact congrArg (fun drafts => Script.mk drafts c.startId) hrun.drafts.symm
  · unfold Compiler.compile
    dsimp only
    rw [List.map_append, renumber_danglingChoices, hfound, hrun.drafts]

theorem compile_congr (c : Compiler) {text other : String}
    (h : locatedLines other = locatedLines text) : c.compile other = c.compile text := by
  unfold Compiler.compile Compiler.run
  rw [h]

end Compile

namespace Compiler

/-- Blanks at the ends of lines make no difference, and neither do carriage returns at the ends of
lines, whether they come from a text or from a file. Where blank lines are put in or taken out, the
reports are renumbered, and nothing else changes. -/
theorem layout_changes_numbers_only (c : Compiler) (text : String) :
    (∀ other, List.Forall₂ Text.Padded (Text.lines text) (Text.lines other) →
        c.compile other = c.compile text) ∧
      (∀ other : String, Text.EndsRenewed text.toList other.toList →
        c.compile other = c.compile text) ∧
      (∀ other gaps, (∀ i, ∀ line ∈ gaps i, Text.AllBlank line) →
        Text.lines other = Compile.spread gaps (Text.lines text) →
        (c.compile other).script = (c.compile text).script ∧
          (c.compile other).diagnostics =
            (c.compile text).diagnostics.map (·.renumber fun n => n + Compile.putIn gaps n)) ∧
      (∀ other gone,
        (∀ i line, (Text.lines text)[i]? = some line → gone i = true → Text.AllBlank line) →
        Text.lines other = Compile.thin gone (Text.lines text) →
        (c.compile other).script = (c.compile text).script ∧
          (c.compile other).diagnostics =
            (c.compile text).diagnostics.map (·.renumber fun n => n - Compile.takenOut gone n)) ∧
      ∀ (tree : Disk.Tree) (path : Disk.Path), tree.read path = .ok text.toUTF8 →
        Text.Utf8.ReturnsEndLines text.toList →
        c.compileFile tree path = .ok (c.compile text) := by
  have hpadded : ∀ {text other : String},
      List.Forall₂ Text.Padded (Text.lines text) (Text.lines other) →
        c.compile other = c.compile text := by
    intro text other h
    exact Compile.compile_congr c (Compile.locate_congr 1 (Text.map_trim_of_padded h))
  refine ⟨fun _ => hpadded, ?ends, ?put, ?taken, ?file⟩
  case ends =>
    intro other h
    exact hpadded h.padded
  case put =>
    intro other gaps hblank hlines
    have hlocated := Compile.locate_spread 0 hblank (Text.lines text)
    simp only [Nat.zero_add] at hlocated
    rw [← hlines] at hlocated
    exact Compile.compile_renumber c hlocated
  case taken =>
    intro other gone hblank hlines
    have hlocated := Compile.locate_thin 0 hblank
    simp only [Nat.zero_add] at hlocated
    rw [← hlines] at hlocated
    exact Compile.compile_renumber c hlocated
  case file =>
    intro tree path hread hreturns
    have hends := Text.Utf8.endsRenewed_normaliseLineEnds hreturns
    rw [← String.toList_ofList (l := Text.Utf8.normaliseLineEnds text.toList)] at hends
    unfold compileFile readSource
    rw [hread]
    dsimp only
    rw [Text.Utf8.decodeLines_toUTF8]
    exact congrArg Except.ok (hpadded hends.padded).symm

/-- A dream that is not known, on the second line. -/
def plainText : String := "Hi\n【cg：x】\nYo"

def spacedText : String := "Hi\n\n \n【cg：x】\nYo"

def returnedText : String := "Hi\r\n【cg：x】\nYo"

def returnedTree : Disk.Tree where
  items := KeyedList.empty.insert ["a.txt"] (.file returnedText.toUTF8)

theorem lines_plainText : Text.lines plainText = ["Hi", "【cg：x】", "Yo"] := by decide

theorem padded_plainText :
    List.Forall₂ Text.Padded (Text.lines plainText) (Text.lines " Hi\n【cg：x】\t\nYo") := by
  have hlines : Text.lines " Hi\n【cg：x】\t\nYo" = [" Hi", "【cg：x】\t", "Yo"] := by decide
  rw [lines_plainText, hlines]
  refine .cons ⟨" ", "", by decide, Text.allBlank_empty, by decide⟩ ?_
  refine .cons ⟨"", "\t", Text.allBlank_empty, by decide, by decide⟩ ?_
  exact .cons ⟨"", "", Text.allBlank_empty, Text.allBlank_empty, by decide⟩ .nil

theorem returnsEndLines_returnedText : Text.Utf8.ReturnsEndLines returnedText.toList := by
  have hall : ∀ n < returnedText.toList.length, returnedText.toList[n]? = some '\r' →
      returnedText.toList[n + 1]? = some '\n' := by decide
  intro n hn
  exact hall n (List.getElem?_eq_some_iff.mp hn).1 hn

theorem endsRenewed_returnedText :
    Text.EndsRenewed plainText.toList returnedText.toList := by
  have hread : Text.Utf8.normaliseLineEnds returnedText.toList = plainText.toList := by
    decide
  have hends := Text.Utf8.endsRenewed_normaliseLineEnds returnsEndLines_returnedText
  rwa [hread] at hends

/-- Two blank lines after the first line. -/
def spacedGaps (i : Nat) : List String := if i = 1 then ["", " "] else []

theorem allBlank_spacedGaps (i : Nat) (line : String) (h : line ∈ spacedGaps i) :
    Text.AllBlank line := by
  have hblanks : ∀ line ∈ ["", " "], Text.AllBlank line := by decide
  unfold spacedGaps at h
  split at h
  · exact hblanks line h
  · cases h

theorem layout_changes_numbers_only_in_a_story :
    ({} : Compiler).compile " Hi\n【cg：x】\t\nYo" = ({} : Compiler).compile plainText ∧
      ({} : Compiler).compile returnedText = ({} : Compiler).compile plainText ∧
      ({} : Compiler).compileFile returnedTree ⟨true, ["a.txt"]⟩ =
        .ok (({} : Compiler).compile plainText) ∧
      (({} : Compiler).compile plainText).diagnostics.map (·.lineNumber) = [some 2] ∧
      (({} : Compiler).compile spacedText).diagnostics.map (·.lineNumber) = [some 4] ∧
      (({} : Compiler).compile spacedText).script = (({} : Compiler).compile plainText).script := by
  obtain ⟨hpadded, hends, hput, -, -⟩ := layout_changes_numbers_only {} plainText
  obtain ⟨-, -, -, -, hfile⟩ := layout_changes_numbers_only {} returnedText
  have hnumber : (({} : Compiler).compile plainText).diagnostics.map (·.lineNumber) = [some 2] := by
    decide
  have hreturned := hends returnedText endsRenewed_returnedText
  have hread : returnedTree.read ⟨true, ["a.txt"]⟩ = .ok returnedText.toUTF8 := rfl
  have hgaps : Text.lines spacedText = Compile.spread spacedGaps (Text.lines plainText) := by
    decide
  obtain ⟨hscript, hreports⟩ := hput spacedText spacedGaps allBlank_spacedGaps hgaps
  refine ⟨hpadded _ padded_plainText, hreturned, ?_, hnumber, ?_, hscript⟩
  · rw [hfile returnedTree ⟨true, ["a.txt"]⟩ hread returnsEndLines_returnedText, hreturned]
  · rw [hreports, List.map_map]
    exact congrArg (List.map (Option.map fun n =>
      ((n.toNat + Compile.putIn spacedGaps n.toNat : Nat) : Int))) hnumber

end Compiler

end VisualNovel
