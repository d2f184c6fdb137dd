import Mathlib.Data.List.Forall2
import Mathlib.Data.List.TakeWhile
import VisualNovel.Text.Blank
import VisualNovel.Text.Search
import VisualNovel.Text.Utf8

/-!
Texts as lines. A text is its lines with line feeds in between. Blanks at the ends of a line are
trimmed away, and a carriage return in front of a line feed is such a blank; in a file it is part
of the end of the line and is not even read.
-/
namespace VisualNovel.Text

theorem splitWhere_eq_splitOnP (cut : Char → Bool) (cs : List Char) :
    splitWhere cut cs = cs.splitOnP cut := by
  induction cs with
  | nil => rw [splitWhere, List.splitOnP_nil]
  | cons c rest ih =>
    rw [splitWhere, List.splitOnP_cons_eq_if_modifyHead, ih]
    cases hpieces : rest.splitOnP cut with
    | nil => exact absurd hpieces (List.splitOnP_ne_nil cut rest)
    | cons piece pieces => rfl

theorem lines_eq_splitOn (s : String) :
    lines s = (s.toList.splitOn '\n').map String.ofList := by
  unfold lines
  rw [splitWhere_eq_splitOnP, List.splitOn_eq_splitOnP]

theorem map_toList_lines (s : String) : (lines s).map String.toList = s.toList.splitOn '\n' := by
  rw [lines_eq_splitOn, List.map_map]
  refine (List.map_congr_left fun cs _ => ?_).trans (List.map_id _)
  exact String.toList_ofList

theorem lines_append (s t : String) : lines (s ++ "\n" ++ t) = lines s ++ lines t := by
  have hcut : ((s.toList ++ ['\n']) ++ t.toList).splitOn '\n' =
      s.toList.splitOn '\n' ++ t.toList.splitOn '\n' := by
    rw [List.append_assoc, List.splitOn_eq_splitOnP, List.splitOn_eq_splitOnP,
      List.splitOn_eq_splitOnP]
    exact List.splitOnP_append_cons _ _ (beq_self_eq_true _)
  rw [lines_eq_splitOn, lines_eq_splitOn, lines_eq_splitOn, ← List.map_append, ← hcut,
    String.toList_append, String.toList_append]
  rfl

def ofLines (ls : List String) : String := "\n".intercalate ls

theorem lines_ofLines {ls : List String} (hne : ls ≠ []) (h : ∀ l ∈ ls, '\n' ∉ l.toList) :
    lines (ofLines ls) = ls := by
  have hcut : (['\n'].intercalate (ls.map String.toList)).splitOn '\n' =
      ls.map String.toList := by
    apply List.splitOn_intercalate
    · intro cs hcs
      obtain ⟨l, hl, rfl⟩ := List.mem_map.mp hcs
      exact h l hl
    · intro hnil
      exact hne (List.map_eq_nil_iff.mp hnil)
  have htoList : (ofLines ls).toList = ['\n'].intercalate (ls.map String.toList) :=
    String.toList_intercalate
  rw [lines_eq_splitOn, htoList, hcut, List.map_map]
  refine (List.map_congr_left fun l _ => ?_).trans (List.map_id _)
  exact String.ofList_toList

theorem not_mem_of_mem_splitOn {a : Char} {cs piece : List Char} (h : piece ∈ cs.splitOn a) :
    a ∉ piece := by
  induction cs generalizing piece with
  | nil =>
    rw [List.splitOn_nil, List.mem_singleton] at h
    rw [h]
    exact List.not_mem_nil
  | cons c rest ih =>
    rw [List.splitOn_cons_eq_if_modifyHead] at h
    by_cases hc : (c == a) = true
    · rw [if_pos hc] at h
      rcases List.mem_cons.mp h with rfl | hrest
      · exact List.not_mem_nil
      · exact ih hrest
    · rw [if_neg hc] at h
      cases hpieces : rest.splitOn a with
      | nil => exact absurd hpieces (List.splitOn_ne_nil a rest)
      | cons first pieces =>
        rw [hpieces] at h ih
        rcases List.mem_cons.mp h with rfl | hrest
        · intro hmem
          rcases List.mem_cons.mp hmem with rfl | hfirst
          · exact hc (beq_self_eq_true _)
          · exact ih List.mem_cons_self hfirst
        · exact ih (List.mem_cons_of_mem first hrest)

theorem feed_not_mem_of_mem_lines {s line : String} (h : line ∈ lines s) : '\n' ∉ line.toList := by
  have hpiece : line.toList ∈ (lines s).map String.toList := List.mem_map_of_mem h
  rw [map_toList_lines] at hpiece
  exact not_mem_of_mem_splitOn hpiece

def AllBlank (s : String) : Prop := ∀ c ∈ s.toList, isBlank c = true

-- not left to be inferred: where characters are known to be finitely many, all would be tried
instance : DecidablePred AllBlank := fun s =>
  decidable_of_iff (s.toList.all isBlank = true) List.all_eq_true

theorem trimChars_append_blanks {left cs right : List Char}
    (hleft : ∀ c ∈ left, isBlank c = true) (hright : ∀ c ∈ right, isBlank c = true) :
    trimChars (left ++ cs ++ right) = trimChars cs := by
  have hreverse : ∀ c ∈ right.reverse, isBlank c = true := by
    intro c hc
    exact hright c (List.mem_reverse.mp hc)
  unfold trimChars
  rw [List.append_assoc, List.dropWhile_append_of_pos hleft, List.dropWhile_append]
  cases hrest : cs.dropWhile isBlank with
  | nil =>
    have hnone : right.dropWhile isBlank = [] := List.dropWhile_eq_nil_iff.mpr hright
    rw [List.isEmpty_nil, if_pos rfl, hnone]
  | cons c rest =>
    rw [List.isEmpty_cons, if_neg Bool.false_ne_true, List.reverse_append,
      List.dropWhile_append_of_pos hreverse]

theorem trim_append_blanks {left right : String} (hleft : AllBlank left) (hright : AllBlank right)
    (line : String) : trim (left ++ line ++ right) = trim line := by
  unfold trim
  rw [String.toList_append, String.toList_append, trimChars_append_blanks hleft hright]

theorem trim_of_allBlank {line : String} (h : AllBlank line) : trim line = "" := by
  have hnone : line.toList.dropWhile isBlank = [] := List.dropWhile_eq_nil_iff.mpr h
  unfold trim trimChars
  rw [hnone]
  rfl

/-- A line, and the line with more blanks at its ends. -/
def Padded (line padded : String) : Prop :=
  ∃ left right, AllBlank left ∧ AllBlank right ∧ padded = left ++ line ++ right

theorem Padded.trim_eq {line padded : String} (h : Padded line padded) :
    trim padded = trim line := by
  obtain ⟨left, right, hleft, hright, rfl⟩ := h
  exact trim_append_blanks hleft hright line

theorem map_trim_of_padded {ls ls' : List String} (h : List.Forall₂ Padded ls ls') :
    ls'.map trim = ls.map trim := by
  induction h with
  | nil => rfl
  | cons hline hrest ih => rw [List.map_cons, List.map_cons, hline.trim_eq, ih]

/-- The same characters, but that a line may end in a carriage return and a line feed where it
ended in a line feed alone. -/
inductive EndsRenewed : List Char → List Char → Prop
  | nil : EndsRenewed [] []
  | same (c : Char) {cs ds : List Char} (hrest : EndsRenewed cs ds) :
      EndsRenewed (c :: cs) (c :: ds)
  | renewed {cs ds : List Char} (hrest : EndsRenewed cs ds) :
      EndsRenewed ('\n' :: cs) ('\r' :: '\n' :: ds)

/-- The carriage returns that end lines are left at the ends of the lines. -/
theorem EndsRenewed.splitOn {cs ds : List Char} (h : EndsRenewed cs ds) :
    List.Forall₂ (fun line line' => line' = line ∨ line' = line ++ ['\r'])
      (cs.splitOn '\n') (ds.splitOn '\n') := by
  induction h with
  | nil => exact List.Forall₂.cons (.inl rfl) .nil
  | @same c cs ds hrest ih =>
    rw [List.splitOn_cons_eq_if_modifyHead, List.splitOn_cons_eq_if_modifyHead]
    split
    · exact List.Forall₂.cons (.inl rfl) ih
    · generalize cs.splitOn '\n' = pieces at ih
      generalize ds.splitOn '\n' = pieces' at ih
      cases ih with
      | nil => exact List.Forall₂.nil
      | cons hfirst hpieces =>
        refine List.Forall₂.cons ?_ hpieces
        rcases hfirst with rfl | rfl
        · exact .inl rfl
        · exact .inr rfl
  | renewed hrest ih => exact List.Forall₂.cons (.inr rfl) ih

theorem allBlank_empty : AllBlank "" := by decide

theorem allBlank_return : AllBlank "\r" := by decide

theorem EndsRenewed.padded {s t : String} (h : EndsRenewed s.toList t.toList) :
    List.Forall₂ Padded (lines s) (lines t) := by
  rw [lines_eq_splitOn, lines_eq_splitOn, List.forall₂_map_left_iff, List.forall₂_map_right_iff]
  refine h.splitOn.imp ?_
  intro line line' hline
  rcases hline with rfl | rfl
  · exact ⟨"", "", allBlank_empty, allBlank_empty, by simp⟩
  · exact ⟨"", "\r", allBlank_empty, allBlank_return, by simp [String.ofList_append]⟩

namespace Utf8

/-- A carriage return only comes right before a line feed. -/
def ReturnsEndLines (cs : List Char) : Prop :=
  ∀ n : Nat, cs[n]? = some '\r' → cs[n + 1]? = some '\n'

theorem ReturnsEndLines.tail {c : Char} {cs : List Char} (h : ReturnsEndLines (c :: cs)) :
    ReturnsEndLines cs := fun n => h (n + 1)

/-- What is read of the ends of lines has lost the carriage returns, and nothing else. -/
theorem endsRenewed_normaliseLineEnds {cs : List Char} (h : ReturnsEndLines cs) :
    EndsRenewed (normaliseLineEnds cs) cs := by
  fun_induction normaliseLineEnds cs with
  | case1 => exact .nil
  | case2 rest ih => exact .renewed (ih h.tail.tail)
  | case3 rest hnext ih =>
    have hfeed := h 0 rfl
    cases rest with
    | nil => cases hfeed
    | cons c rest =>
      cases hfeed
      exact absurd rfl (hnext rest)
  | case4 c rest hpair hreturn ih => exact .same c (ih h.tail)

theorem decode_toUTF8 (s : String) : decode s.toUTF8 = .ok s := by
  unfold decode
  rw [show String.fromUTF8? s.toUTF8 = some s from dif_pos s.isValidUTF8]

theorem decodeLines_toUTF8 (s : String) :
    decodeLines s.toUTF8 = .ok (String.ofList (normaliseLineEnds s.toList)) := by
  unfold decodeLines
  rw [decode_toUTF8]
  rfl

end Utf8

end VisualNovel.Text
