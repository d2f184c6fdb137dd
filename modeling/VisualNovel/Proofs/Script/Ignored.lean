import VisualNovel.Proofs.Script.Spacing

/-!
Lines that are ignored. A line that is reported as ignored could as well be blank: the script is the
same without it, and so is what is reported about all other lines.
-/
namespace VisualNovel

namespace Compile

theorem locate_eq_append_cons {start : Nat} {ls : List String} {earlier later : List Located}
    {here : Located} (h : locate start ls = earlier ++ here :: later) :
    ∃ before line after, ls = before ++ line :: after ∧ earlier = locate start before ∧
      here = ⟨start + before.length, Text.trim line⟩ ∧
      later = locate (start + before.length + 1) after := by
  induction ls generalizing start earlier with
  | nil => cases earlier <;> cases h
  | cons first rest ih =>
    have hlater : ∀ {earlier}, locate (start + 1) rest = earlier ++ here :: later →
        ∃ before line after, first :: rest = first :: before ++ line :: after ∧
          earlier = locate (start + 1) before ∧
          here = ⟨start + (first :: before).length, Text.trim line⟩ ∧
          later = locate (start + (first :: before).length + 1) after := by
      intro earlier hrest
      obtain ⟨before, line, after, rfl, hearlier, hhere, hlater⟩ := ih hrest
      have hnumber : start + (first :: before).length = start + 1 + before.length := by
        rw [List.length_cons]
        omega
      exact ⟨before, line, after, rfl, hearlier, hnumber ▸ hhere, hnumber ▸ hlater⟩
    rw [locate_cons] at h
    by_cases hblank : (Text.trim first).isEmpty = true
    · rw [if_pos hblank, List.nil_append] at h
      obtain ⟨before, line, after, hls, hearlier, hhere, hlater⟩ := hlater h
      refine ⟨first :: before, line, after, hls, ?_, hhere, hlater⟩
      rw [hearlier, locate_cons, if_pos hblank, List.nil_append]
    · rw [if_neg hblank, List.singleton_append] at h
      cases earlier with
      | nil =>
        cases h
        exact ⟨[], first, rest, rfl, rfl, rfl, rfl⟩
      | cons other earlier =>
        obtain ⟨rfl, hrest⟩ := List.cons.inj h
        obtain ⟨before, line, after, hls, hearlier, hhere, hlater⟩ := hlater hrest
        refine ⟨first :: before, line, after, hls, ?_, hhere, hlater⟩
        rw [hearlier, locate_cons, if_neg hblank, List.singleton_append]

theorem exists_of_mem_locate {start : Nat} {ls : List String} {here : Located}
    (h : here ∈ locate start ls) :
    ∃ n line, ls[n]? = some line ∧ here = ⟨start + n, Text.trim line⟩ := by
  obtain ⟨earlier, later, hsplit⟩ := List.append_of_mem h
  obtain ⟨before, line, after, rfl, -, hhere, -⟩ := locate_eq_append_cons hsplit
  exact ⟨before.length, line, by simp, hhere⟩

theorem pairwise_locate (start : Nat) (ls : List String) :
    (locate start ls).Pairwise fun here there => here.number < there.number := by
  induction ls generalizing start with
  | nil => exact List.Pairwise.nil
  | cons line rest ih =>
    rw [locate_cons]
    split
    · exact ih (start + 1)
    · refine List.Pairwise.cons ?_ (ih (start + 1))
      intro there hthere
      obtain ⟨n, -, -, rfl⟩ := exists_of_mem_locate hthere
      dsimp only
      omega

section Notices
variable {catalog : Asset.Catalog} {p : Progress} {lines : List Located}

theorem notices_eq_append_cons {before after : List Diagnostic} {d : Diagnostic}
    (h : notices catalog p lines = before ++ d :: after) :
    ∃ earlier here later n, lines = earlier ++ here :: later ∧
      before = notices catalog p earlier ∧
      notice? catalog (earlier.foldl (applyLine catalog) p) here.line = some n ∧
      d = n.about here ∧
      after = notices catalog (applyLine catalog (earlier.foldl (applyLine catalog) p) here)
        later := by
  induction lines generalizing p before with
  | nil => cases before <;> cases h
  | cons first rest ih =>
    rw [notices] at h
    cases hnotice : notice? catalog p first.line with
    | none =>
      rw [hnotice, Option.map_none, Option.toList_none, List.nil_append] at h
      obtain ⟨earlier, here, later, n, rfl, hbefore, hn, hd, hafter⟩ := ih h
      refine ⟨first :: earlier, here, later, n, rfl, ?_, hn, hd, hafter⟩
      rw [hbefore, notices, hnotice]
      rfl
    | some m =>
      rw [hnotice, Option.map_some, Option.toList_some, List.singleton_append] at h
      cases before with
      | nil =>
        obtain ⟨rfl, rfl⟩ := List.cons.inj h
        exact ⟨[], first, rest, m, rfl, rfl, hnotice, rfl, rfl⟩
      | cons other before =>
        obtain ⟨rfl, hrest⟩ := List.cons.inj h
        obtain ⟨earlier, here, later, n, rfl, hbefore, hn, hd, hafter⟩ := ih hrest
        refine ⟨first :: earlier, here, later, n, rfl, ?_, hn, hd, hafter⟩
        rw [hbefore, notices, hnotice]
        rfl

/-- There is one report about a line at most, and reports come in the order of their lines. -/
theorem pairwise_notices
    (h : lines.Pairwise fun here there => here.number < there.number) :
    ((notices catalog p lines).filterMap (·.lineNumber)).Pairwise (· < ·) := by
  induction lines generalizing p with
  | nil => exact List.Pairwise.nil
  | cons here rest ih =>
    obtain ⟨hhere, hrest⟩ := List.pairwise_cons.mp h
    rw [notices]
    cases notice? catalog p here.line with
    | none => exact ih hrest
    | some n =>
      refine List.Pairwise.cons ?_ (ih hrest)
      intro number hnumber
      obtain ⟨d, hd, hdnumber⟩ := List.mem_filterMap.mp hnumber
      obtain ⟨there, hthere, -, m, -, rfl⟩ := mem_notices catalog hd
      cases hdnumber
      exact Int.ofNat_lt.mpr (hhere there hthere)

end Notices

theorem exists_found_of_ignored {c : Compiler} {text : String} {before after : List Diagnostic}
    {d : Diagnostic} (h : (c.compile text).diagnostics = before ++ d :: after)
    (hignored : d.code ∈ ignoredCodes) :
    ∃ rest, (c.run text).found = before ++ d :: rest ∧
      after = rest ++ danglingChoices (c.run text).drafts := by
  have hnot : d ∉ danglingChoices (c.run text).drafts := by
    intro hd
    rw [(code_of_mem_danglingChoices hd).1] at hignored
    exact absurd hignored (by decide)
  rcases List.append_eq_append_iff.mp h with ⟨more, -, hdangling⟩ | ⟨more, hfound, hrest⟩
  · exact absurd (hdangling ▸ List.mem_append_right more List.mem_cons_self) hnot
  · cases more with
    | nil =>
      rw [List.nil_append] at hrest
      exact absurd (hrest ▸ List.mem_cons_self) hnot
    | cons other rest =>
      obtain ⟨rfl, hafter⟩ := List.cons.inj hrest
      exact ⟨rest, hfound, hafter⟩

theorem run_without {c : Compiler} {text other : String} {earlier later : List Located}
    {here : Located} {n : Notice} (htext : locatedLines text = earlier ++ here :: later)
    (hother : locatedLines other = earlier ++ later)
    (hnotice : notice? c.catalog (earlier.foldl (applyLine c.catalog) (initial c)) here.line =
      some n)
    (hignored : n.code ∈ ignoredCodes) :
    (c.run other).drafts = (c.run text).drafts ∧
      (c.run other).found = notices c.catalog (initial c) earlier ++ notices c.catalog
        (applyLine c.catalog (earlier.foldl (applyLine c.catalog) (initial c)) here) later := by
  have hreport := (notes_applyLine c.catalog (earlier.foldl (applyLine c.catalog) (initial c))
    here).ignored n hnotice hignored
  have halike : (earlier.foldl (applyLine c.catalog) (initial c)).Alike
      (applyLine c.catalog (earlier.foldl (applyLine c.catalog) (initial c)) here) := by
    rw [hreport]
    exact ⟨rfl, rfl⟩
  constructor
  · unfold Compiler.run
    rw [htext, hother, List.foldl_append, List.foldl_append, List.foldl_cons]
    exact (halike.foldl c.catalog rfl).drafts
  · rw [found_run, hother, notices_append, notices_congr halike]

theorem locatedLines_blank {before after : List String} {blank : String}
    (hblank : Text.AllBlank blank) (hfeed : '\n' ∉ blank.toList)
    (hlines : ∀ line ∈ before ++ after, '\n' ∉ line.toList) :
    locatedLines (Text.ofLines (before ++ blank :: after)) =
      locate 1 before ++ locate (1 + before.length + 1) after := by
  have hall : ∀ line ∈ before ++ blank :: after, '\n' ∉ line.toList := by
    intro line hline
    rcases List.mem_append.mp hline with hmem | hmem
    · exact hlines line (List.mem_append_left _ hmem)
    · rcases List.mem_cons.mp hmem with rfl | hmem
      · exact hfeed
      · exact hlines line (List.mem_append_right _ hmem)
  have hempty : (Text.trim blank).isEmpty = true := by
    rw [Text.trim_of_allBlank hblank]
    rfl
  rw [locatedLines_eq, Text.lines_ofLines (by simp) hall, locate_append, locate_cons,
    if_pos hempty, List.nil_append]

end Compile

namespace Compiler

variable {c : Compiler} {text : String}

/-- A report of an ignored line is about a line that could as well be blank. -/
theorem exists_ignored {before after : List Diagnostic} {d : Diagnostic}
    (h : (c.compile text).diagnostics = before ++ d :: after)
    (hignored : d.code ∈ Compile.ignoredCodes) :
    ∃ n < (Text.lines text).length, d.lineNumber = some ((n + 1 : Nat) : Int) ∧
      ∀ blank, Text.AllBlank blank → '\n' ∉ blank.toList →
        (c.compile (Text.ofLines ((Text.lines text).set n blank))).script =
            (c.compile text).script ∧
          (c.compile (Text.ofLines ((Text.lines text).set n blank))).diagnostics =
            before ++ after := by
  obtain ⟨rest, hfound, hafter⟩ := Compile.exists_found_of_ignored h hignored
  rw [Compile.found_run] at hfound
  obtain ⟨earlier, here, later, n, hlocated, hbefore, hnotice, rfl, hrest⟩ :=
    Compile.notices_eq_append_cons hfound
  obtain ⟨linesBefore, line, linesAfter, hlines, hearlier, hhere, hlater⟩ :=
    Compile.locate_eq_append_cons hlocated
  have hlength : linesBefore.length < (Text.lines text).length := by
    rw [hlines, List.length_append, List.length_cons]
    omega
  have hnumber : (n.about here).lineNumber = some ((linesBefore.length + 1 : Nat) : Int) := by
    rw [hhere, Nat.add_comm]
    rfl
  refine ⟨linesBefore.length, hlength, hnumber, ?_⟩
  intro blank hblank hfeed
  have hset : (Text.lines text).set linesBefore.length blank =
      linesBefore ++ blank :: linesAfter := by
    rw [hlines, List.set_append_right _ _ (Nat.le_refl _), Nat.sub_self]
    rfl
  have hothers : ∀ other ∈ linesBefore ++ linesAfter, '\n' ∉ other.toList := by
    intro other hother
    apply Text.feed_not_mem_of_mem_lines (s := text)
    rw [hlines]
    rcases List.mem_append.mp hother with hmem | hmem
    · exact List.mem_append_left _ hmem
    · exact List.mem_append_right _ (List.mem_cons_of_mem line hmem)
  have hwithout := Compile.locatedLines_blank hblank hfeed hothers
  rw [← hearlier, ← hlater] at hwithout
  rw [hset]
  obtain ⟨hdrafts, hreports⟩ := Compile.run_without hlocated hwithout hnotice hignored
  rw [← hbefore, ← hrest] at hreports
  unfold Compiler.compile
  dsimp only
  rw [hdrafts, hreports, hafter, List.append_assoc]
  exact ⟨rfl, rfl⟩

/-- Lines that are reported as ignored could as well be blank: the script stays the same, and so do
all other reports. There is one report about a line at most, and it gives the number of the line and
its trimmed text. -/
theorem ignored_lines_leave_no_trace (c : Compiler) (text : String) :
    (∀ before d after, (c.compile text).diagnostics = before ++ d :: after →
        d.code ∈ Compile.ignoredCodes →
        ∃ n < (Text.lines text).length, d.lineNumber = some ((n + 1 : Nat) : Int) ∧
          ∀ blank, Text.AllBlank blank → '\n' ∉ blank.toList →
            (c.compile (Text.ofLines ((Text.lines text).set n blank))).script =
                (c.compile text).script ∧
              (c.compile (Text.ofLines ((Text.lines text).set n blank))).diagnostics =
                before ++ after) ∧
      ((c.compile text).diagnostics.filterMap (·.lineNumber)).Pairwise (· < ·) ∧
      ∀ d ∈ (c.compile text).diagnostics, ∀ number, d.lineNumber = some number →
        ∃ n line, number = ((n + 1 : Nat) : Int) ∧ (Text.lines text)[n]? = some line ∧
          d.line = some (Text.trim line) := by
  have hnumberless : (Compile.danglingChoices (c.run text).drafts).filterMap
      (·.lineNumber) = [] := by
    rw [List.filterMap_eq_nil_iff]
    intro d hd
    exact (Compile.code_of_mem_danglingChoices hd).2
  refine ⟨fun before d after => exists_ignored, ?ordered, ?told⟩
  case ordered =>
    unfold Compiler.compile
    dsimp only
    rw [List.filterMap_append, hnumberless, List.append_nil, Compile.found_run]
    exact Compile.pairwise_notices (Compile.pairwise_locate 1 (Text.lines text))
  case told =>
    intro d hd number hnumber
    rcases List.mem_append.mp hd with hd | hd
    · rw [Compile.found_run] at hd
      obtain ⟨here, hhere, -, m, -, rfl⟩ := Compile.mem_notices c.catalog hd
      obtain ⟨n, line, hline, rfl⟩ := Compile.exists_of_mem_locate hhere
      cases hnumber
      exact ⟨n, line, by rw [Nat.add_comm], hline, rfl⟩
    · rw [(Compile.code_of_mem_danglingChoices hd).2] at hnumber
      cases hnumber

/-- A label without a name, and a place that is not known. -/
def carelessText : String := "#\nHi\n【bg：x】\nYo"

def namelessLabel : Diagnostic :=
  ⟨.warning, "empty-label", "Label has no name", some 1, some "#"⟩

def unknownPlace : Diagnostic :=
  ⟨.warning, "unresolved-asset", "Unknown BG asset 'x' ignored", some 3, some "【bg：x】"⟩

theorem ignored_lines_leave_no_trace_in_a_story :
    (({} : Compiler).compile carelessText).diagnostics = [namelessLabel, unknownPlace] ∧
      (({} : Compiler).compile "#\nHi\n \nYo").script =
        (({} : Compiler).compile carelessText).script ∧
      (({} : Compiler).compile "#\nHi\n \nYo").diagnostics = [namelessLabel] := by
  have hreports : (({} : Compiler).compile carelessText).diagnostics =
      [namelessLabel] ++ unknownPlace :: [] := by decide
  have hignored : unknownPlace.code ∈ Compile.ignoredCodes := by decide
  obtain ⟨n, -, hnumber, hblank⟩ := (ignored_lines_leave_no_trace {} carelessText).1
    [namelessLabel] unknownPlace [] hreports hignored
  obtain rfl : 2 = n := by
    have hsame : ((3 : Nat) : Int) = ((n + 1 : Nat) : Int) := Option.some.inj hnumber
    omega
  have hother : Text.ofLines ((Text.lines carelessText).set 2 " ") = "#\nHi\n \nYo" := by
    decide
  have hsame := hblank " " (by decide) (by decide)
  rw [hother] at hsame
  exact ⟨hreports, hsame⟩

end Compiler

end VisualNovel
